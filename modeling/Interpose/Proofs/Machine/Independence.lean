import Interpose.Proofs.Machine.CallDepth
import Interpose.Proofs.Weave.Answers
/-!
# Calls do not depend on earlier calls

Two sessions of one machine in which the same method is called. Whatever happened in them
before, if the arguments are the same up to renaming, with all that they refer to, then the
calls end alike: both or neither end, with the same value, exception or fault up to renaming,
and they print the same lines. Earlier calls are seen through the arguments only.

Results:
* `renamed_act`: what activations do next that are the same up to renaming.
* `renamed_loop`: their code ends alike.
* `session_calls`: all that is true of calls made one after another.
-/
namespace Interpose

/-- The same faults. -/
def FaultMatch.exact : FaultMatch := ⟨fun _ => False, fun e e' => e' = e⟩

theorem FaultMatch.fits_exact : exact.Fits id :=
  ⟨fun _ => rfl, fun _ => rfl, fun _ _ => rfl, fun _ => rfl⟩

/-! ## States up to renaming -/

/-- The second activation is the first one renamed. -/
structure Activation.Renamed (ρ : Renaming) (a a' : Activation) : Prop where
  routine : a'.routine = a.routine
  frame : a.frame.Matches ρ id a.frame.pc a'.frame
  locals : a'.frame.locals.length = a.frame.locals.length

structure Caller.Renamed (ρ : Renaming) (c c' : Caller) : Prop where
  activation : c.activation.Renamed ρ c'.activation
  keeps : c'.keeps = c.keeps

/-- The second heap is the first one renamed, and the second world has printed the same lines
after those before. -/
structure World.Renamed (before : Array String) (ρ : Renaming) (w w' : World) : Prop where
  heap : w.heap.Matches ρ w'.heap
  output : w'.output = before ++ w.output

structure Session.Renamed (before : Array String) (ρ : Renaming) (s s' : Session) : Prop where
  world : s.world.Renamed before ρ s'.world
  depth : s'.depth = s.depth

/-- The same value or exception up to renaming, or the same fault. -/
inductive ResultRenamed (ρ : Renaming) : Except Failure Value → Except Failure Value → Prop
  | value {v v' : Value} (hv : v.Matches ρ v') : ResultRenamed ρ (.ok v) (.ok v')
  | thrown {e e' : Value} (he : e.Matches ρ e') :
    ResultRenamed ρ (.error (.thrown e)) (.error (.thrown e'))
  | fault (cause : MachineFault) :
    ResultRenamed ρ (.error (.fault cause)) (.error (.fault cause))

inductive Turn.Renamed (ρ : Renaming) : Turn → Turn → Prop
  | on {a a' : Activation} (h : a.Renamed ρ a') : Turn.Renamed ρ (.on a) (.on a')
  | ended {r r' : Except Failure Value} (h : ResultRenamed ρ r r') :
    Turn.Renamed ρ (.ended r) (.ended r')

inductive Act.Renamed (before : Array String) (ρ : Renaming) : Act → Act → Prop
  | turn {ρ' : Renaming} {t t' : Turn} {w w' : World} (he : ρ'.Extends ρ) (ht : t.Renamed ρ' t')
    (hw : w.Renamed before ρ' w') : Act.Renamed before ρ (.turn t w) (.turn t' w')
  | start {b b' : Activation} {c c' : Caller} (hb : b.Renamed ρ b') (hc : c.Renamed ρ c') :
    Act.Renamed before ρ (.start b c) (.start b' c')

/-- Both have come to an end, and alike, or neither has. -/
inductive EndRenamed (before : Array String) (ρ : Renaming) : Option Ended → Option Ended → Prop
  | none : EndRenamed before ρ none none
  | some {ρ' : Renaming} {r r' : Except Failure Value} {s s' : Session} (he : ρ'.Extends ρ)
    (hr : ResultRenamed ρ' r r') (hs : s.Renamed before ρ' s') :
    EndRenamed before ρ (some (r, s)) (some (r', s'))

variable {before : Array String} {ρ ρ' : Renaming} {a a' : Activation} {c c' : Caller}
  {w w' : World} {s s' : Session} {e e' v v' : Value} {args args' : List Value}
  {r r' : Except Failure Value} {vm : Machine}

theorem Activation.Renamed.mono (he : ρ'.Extends ρ) (h : a.Renamed ρ a') : a.Renamed ρ' a' :=
  ⟨h.routine, h.frame.mono he, h.locals⟩

theorem Caller.Renamed.mono (he : ρ'.Extends ρ) (h : c.Renamed ρ c') : c.Renamed ρ' c' :=
  ⟨h.activation.mono he, h.keeps⟩

theorem EndRenamed.mono (he : ρ'.Extends ρ) {x x' : Option Ended}
    (h : EndRenamed before ρ' x x') : EndRenamed before ρ x x' := by
  cases h with
  | none => exact .none
  | some he' hr hs => exact .some (he'.trans he) hr hs

/-! ## Exceptions and values -/

/-- Both catch an exception in the same handler, or both do not. -/
theorem Activation.Renamed.fail_thrown (h : a.Renamed ρ a') (he : e.Matches ρ e') :
    (a.fail (.thrown e)).Renamed ρ (a'.fail (.thrown e')) := by
  obtain ⟨r, f⟩ := a
  obtain ⟨r', f'⟩ := a'
  obtain rfl : r' = r := h.routine
  have hpc : f'.pc = f.pc := h.frame.there
  have hdrop := h.frame.dropHandling monotone_id
  unfold Activation.fail Activation.catch? Frame.catch?
  simp only [hpc, Frame.catches_matches he]
  cases r'.regions.find? fun x => x.tryRange.contains f.pc && Frame.catches e x.kind with
  | none => exact .ended (.thrown he)
  | some x =>
    refine .on ⟨rfl, ⟨h.frame.args, h.frame.locals, .cons he .nil, .cons ⟨rfl, he⟩ ?_, rfl, rfl⟩,
      h.locals⟩
    exact hdrop.handling

theorem Caller.Renamed.receive (h : c.Renamed ρ c') (hr : ResultRenamed ρ r r') :
    (c.receive r).Renamed ρ (c'.receive r') := by
  cases hr with
  | thrown he => exact h.activation.fail_thrown he
  | fault cause => exact .ended (.fault cause)
  | value hv =>
    obtain ⟨⟨routine, f⟩, keeps⟩ := c
    obtain ⟨⟨routine', f'⟩, keeps'⟩ := c'
    obtain rfl : keeps' = keeps := h.keeps
    have hf := h.activation.frame
    refine .on ⟨h.activation.routine, ?_, ?_⟩
    · cases keeps' with
      | true => exact (hf.push hv).advance rfl
      | false => exact hf.advance rfl
    · cases keeps' <;> exact h.activation.locals

namespace Machine

/-- Both fail in the same way. -/
theorem renamed_trapped {α β : Type} {P : α → β → Prop} {t : Trap} {x : Except Trap β}
    (hx : Mirrors .exact ρ P (.error t) x) (ha : a.Renamed ρ a') (hw : w.Renamed before ρ w') :
    ∃ t', x = .error t' ∧ (trapped a w t).Renamed before ρ (trapped a' w' t') := by
  cases t with
  | raise r =>
    obtain ⟨ρ', he, hv, hh⟩ := hw.heap.newObject r.className r.message
    exact ⟨_, hx, .turn he ((ha.mono he).fail_thrown hv) ⟨hh, hw.output⟩⟩
  | failed failure =>
    cases failure with
    | thrown v =>
      obtain ⟨v', rfl, hv⟩ := hx
      exact ⟨_, rfl, .turn (.refl ρ) (ha.fail_thrown hv) hw⟩
    | fault cause =>
      rcases hx with hfalse | ⟨cause', rfl, rfl⟩
      · exact hfalse.elim
      · exact ⟨_, rfl, .turn (.refl ρ) (.ended (.fault _)) hw⟩

/-! ## Calls -/

theorem output_announceIf (w : World) (listening : Bool) (x : Announcement) :
    (w.announceIf listening x).output = w.output := by
  cases listening <;> rfl

theorem output_callHook (host : Host) (w : World) (member : MemberRef) (args : List Value) :
    (host.callHook w member args).2.output = w.output := by
  unfold Host.callHook
  dsimp only
  split
  · rfl
  · split
    · rfl
    · split
      · exact output_announceIf ..
      · exact output_announceIf ..
      · exact output_announceIf ..
      · exact output_announceIf ..
      · rfl
    · rfl

/-- What a member of the host prints. -/
def printed (host : Host) (w : World) (member : MemberRef) (args : List Value) :
    Array String :=
  if member.owner ≠ host.dispatcherType ∧ member.owner = "System.Console" ∧
    member.name = "WriteLine" then #[Host.argumentText w args 0] else #[]

theorem output_call (host : Host) (w : World) (member : MemberRef) (args : List Value)
    (current : Value) :
    (host.call w member args current).2.output = w.output ++ printed host w member args := by
  by_cases hconsole : member.owner ≠ host.dispatcherType ∧ member.owner = "System.Console" ∧
      member.name = "WriteLine"
  · obtain ⟨hhook, howner, hname⟩ := hconsole
    rw [howner] at hhook
    simp [printed, Host.call, Host.callWriteLine, hhook, howner, hname, methodBaseType,
      output_announceIf]
  · rw [printed, if_neg hconsole, Array.append_empty]
    unfold Host.call
    dsimp only
    split
    · exact output_callHook ..
    · next hhook =>
      split
      · rfl
      · split
        · rfl
        · split
          · rfl
          · split
            · rfl
            · split
              · rfl
              · split
                · next hline => exact absurd ⟨hhook, hline⟩ hconsole
                · rfl

/-- A member of the host prints the same in both worlds. -/
theorem renamed_output (hw : w.Renamed before ρ w') (ha : MatchAll ρ args args') (host : Host)
    (member : MemberRef) (current : Value) :
    (host.call w' member args' current).2.output =
      before ++ (host.call w member args current).2.output := by
  rw [output_call, output_call, hw.output, Array.append_assoc, printed, printed,
    Host.argumentText_matches hw.heap ha]

/-- A method made ready to run twice, with arguments that match. -/
theorem renamed_activate (ha : MatchAll ρ args args') (d : Method) (typeName : String)
    (live : Nat) :
    (∃ e, d.activate typeName args live = .error e ∧ d.activate typeName args' live = .error e) ∨
      ∃ b b', d.activate typeName args live = .ok b ∧ d.activate typeName args' live = .ok b' ∧
        b.Renamed ρ b' := by
  have hlocals (b : Body) (k : Nat) (v : Value)
      (hv : (b.locals.toList.map fun s => Value.initial s.ty)[k]? = some v) :
      ∃ v', (b.locals.toList.map fun s => Value.initial s.ty)[k]? = some v' ∧ v.Matches ρ v' := by
    refine ⟨v, hv, ?_⟩
    rw [List.getElem?_map] at hv
    obtain ⟨slot, -, rfl⟩ := Option.map_eq_some_iff.1 hv
    exact Value.matches_initial ρ slot.ty
  unfold Method.activate
  dsimp only
  rw [ha.length_eq]
  split
  · exact .inl ⟨_, rfl, rfl⟩
  · split
    · exact .inl ⟨_, rfl, rfl⟩
    · next b hb =>
      split
      · exact .inl ⟨_, rfl, rfl⟩
      · split
        · exact .inl ⟨_, rfl, rfl⟩
        · exact .inr ⟨_, _, rfl, rfl, rfl, ⟨ha, hlocals b, .nil, .nil, rfl, rfl⟩, rfl⟩

/-! ## Steps -/

/-- An instruction does the same in both frames. -/
theorem mirrors_exact {f f' : Frame} {pos : Nat} {h h' : Heap} (hf : f.Matches ρ id pos f')
    (hl : f'.locals.length = f.locals.length) (hh : h.Matches ρ h') (r : Routine)
    (imports : ImportTable) (i : Instruction) :
    Mirrors .exact ρ (StepMatches ρ id) (f.step r imports h i) (f'.step r imports h' i) := by
  by_cases hret : i.opcode = .ret
  · unfold Frame.step
    rw [hret]
    dsimp only
    split
    · exact mirrors_ok (.ret .null)
    · exact hf.pop FaultMatch.fits_exact fun v v' g g' hv hg => mirrors_ok (.ret hv)
  · have htarget : Mirrors .exact ρ (fun t t' => t' = id t) (r.target i) (r.target i) := by
      unfold Routine.target
      cases i.target? with
      | none => exact mirrors_fault rfl
      | some t =>
        dsimp only
        cases r.body.anchor t with
        | error e => exact mirrors_fault rfl
        | ok pos => exact mirrors_ok rfl
    exact Frame.mirrors_step FaultMatch.fits_exact monotone_id rfl htarget (fun _ => .inl rfl) (.inl hl) hret
      hf hh

/-- What activations do next that are the same up to renaming. -/
theorem renamed_act (ha : a.Renamed ρ a') (hw : w.Renamed before ρ w') (live : Nat) :
    (vm.act a w live).Renamed before ρ (vm.act a' w' live) := by
  obtain ⟨r, f⟩ := a
  obtain ⟨r', f'⟩ := a'
  obtain rfl : r' = r := ha.routine
  have hpc : f'.pc = f.pc := ha.frame.there
  unfold act
  dsimp only
  rw [hpc]
  cases r'.code[f.pc]? with
  | none => exact .turn (.refl ρ) (.ended (.fault _)) hw
  | some i =>
    dsimp only
    have hm := mirrors_exact ha.frame ha.locals hw.heap r' vm.module.imports i
    have hshape := Frame.holds_step f r' vm.module.imports w.heap i
    have hshape' := Frame.holds_step f' r' vm.module.imports w'.heap i
    generalize f.step r' vm.module.imports w.heap i = x at hm hshape
    generalize f'.step r' vm.module.imports w'.heap i = x' at hm hshape'
    cases x with
    | error t =>
      obtain ⟨t', rfl, ht⟩ := renamed_trapped hm ha hw
      exact ht
    | ok y =>
      obtain ⟨y', rfl, hy⟩ := hm
      cases hy with
      | @next ρ' pos g g' h h' he hf hh =>
        obtain rfl := hf.here
        refine .turn he (.on ⟨rfl, hf, ?_⟩) ⟨hh, hw.output⟩
        exact hshape'.locals.trans (ha.locals.trans hshape.locals.symm)
      | ret hv => exact .turn (.refl ρ) (.ended (.value hv)) hw
      | @call member args args' keeps pos g g' hargs hf =>
        obtain rfl := hf.here
        have hlocals : g'.locals.length = g.locals.length := by
          rw [hshape'.locals, hshape.locals]
          exact ha.locals
        have hc : Caller.Renamed ρ ⟨⟨r', g⟩, keeps⟩ ⟨⟨r', g'⟩, keeps⟩ :=
          ⟨⟨rfl, hf, hlocals⟩, rfl⟩
        dsimp only
        cases member.scope with
        | module =>
          dsimp only
          cases vm.module.dispatch? member with
          | none => exact .turn (.refl ρ) (.ended (.fault _)) hw
          | some d =>
            dsimp only
            rcases renamed_activate hargs d member.owner live with
              ⟨e, he, he'⟩ | ⟨b, b', hb, hb', hrenamed⟩
            · rw [he, he']
              exact .turn (.refl ρ) (.ended (.fault e)) hw
            · rw [hb, hb']
              exact .start hrenamed hc
        | library name =>
          dsimp only
          have hself : r'.describe.Matches ρ r'.describe := .method _ _
          have houtput := renamed_output hw hargs vm.host member r'.describe
          obtain ⟨ρ', he, hanswer, hheap⟩ :=
            Host.mirrors_hostCall (F := .exact) (fun _ => rfl) hw.heap hargs vm.host member hself
          generalize vm.host.call w member args r'.describe = x at hanswer hheap houtput
          generalize vm.host.call w' member args' r'.describe = x' at hanswer hheap houtput
          obtain ⟨answer, w⟩ := x
          obtain ⟨answer', w'⟩ := x'
          have hc' := hc.mono he
          cases answer with
          | ok v =>
            obtain ⟨v', rfl, hv⟩ := hanswer
            exact .turn he (hc'.receive (.value hv)) ⟨hheap, houtput⟩
          | error t =>
            obtain ⟨t', rfl, ht⟩ := renamed_trapped hanswer hc'.activation ⟨hheap, houtput⟩
            cases ht with
            | turn he' hturn hw' => exact .turn (he'.trans he) hturn hw'

/-! ## Runs -/

theorem renamed_follow {loop loop' : Activation → Session → Option Ended} {t t' : Turn}
    (hl : ∀ ρ a a' s s', Activation.Renamed ρ a a' → Session.Renamed before ρ s s' →
      EndRenamed before ρ (loop a s) (loop' a' s'))
    (ht : t.Renamed ρ t') (hs : s.Renamed before ρ s') :
    EndRenamed before ρ (t.follow loop s) (t'.follow loop' s') := by
  cases ht with
  | on ha => exact hl ρ _ _ _ _ ha hs
  | ended hr => exact .some (.refl ρ) hr hs

/-- The code of two activations that are the same up to renaming ends alike. -/
theorem renamed_loop (ha : a.Renamed ρ a') (hs : s.Renamed before ρ s') (fuel : Nat) :
    EndRenamed before ρ (vm.loop fuel a s) (vm.loop fuel a' s') := by
  induction fuel generalizing ρ a a' s s' with
  | zero => exact .none
  | succ fuel ih =>
    have hl : ∀ ρ a a' s s', Activation.Renamed ρ a a' → Session.Renamed before ρ s s' →
        EndRenamed before ρ (vm.loop fuel a s) (vm.loop fuel a' s') :=
      fun _ _ _ _ _ ha hs => ih ha hs
    have hact : (vm.act a s.world s.depth).Renamed before ρ (vm.act a' s'.world s.depth) :=
      renamed_act ha hs.world s.depth
    rw [loop, loop, turn_eq, turn_eq, hs.depth]
    generalize vm.act a s.world s.depth = x at hact
    generalize vm.act a' s'.world s.depth = x' at hact
    cases hact with
    | @turn ρ' t t' w w' he ht hw =>
      have hs' : Session.Renamed before ρ' ⟨w, s.depth⟩ ⟨w', s.depth⟩ := ⟨hw, rfl⟩
      exact .mono he (renamed_follow hl ht hs')
    | start hb hc =>
      have henter : s.enter.Renamed before ρ s'.enter := ⟨hs.world, congrArg (· + 1) hs.depth⟩
      have hend := ih hb henter
      dsimp only
      generalize vm.loop fuel _ s.enter = y at hend
      generalize vm.loop fuel _ s'.enter = y' at hend
      cases hend with
      | none => exact .none
      | @some ρ' r₁ r₁' s₁ s₁' he hr hs₁ =>
        have hleave : s₁.leave.Renamed before ρ' s₁'.leave :=
          ⟨hs₁.world, congrArg (· - 1) hs₁.depth⟩
        exact .mono he (renamed_follow hl ((hc.mono he).receive hr) hleave)

/-- Calls from outside end alike if their arguments match. -/
theorem renamed_invokeIn (ha : MatchAll ρ args args') (hs : s.Renamed before ρ s') (fuel : Nat)
    (typeName method : String) :
    EndRenamed before ρ (vm.invokeIn fuel s typeName method args)
      (vm.invokeIn fuel s' typeName method args') := by
  unfold invokeIn
  cases vm.module.type? typeName with
  | none => exact .some (.refl ρ) (.fault _) hs
  | some t =>
    dsimp only
    cases t.method? method with
    | none => exact .some (.refl ρ) (.fault _) hs
    | some d =>
      dsimp only
      rw [execute_eq, execute_eq, hs.depth]
      rcases renamed_activate ha d typeName s.depth with ⟨e, he, he'⟩ | ⟨b, b', hb, hb', hrenamed⟩
      · rw [he, he']
        exact .some (.refl ρ) (.fault e) hs
      · rw [hb, hb']
        dsimp only
        have henter : s.enter.Renamed before ρ s'.enter := ⟨hs.world, congrArg (· + 1) hs.depth⟩
        have hend : EndRenamed before ρ (vm.loop fuel b s.enter) (vm.loop fuel b' s'.enter) :=
          renamed_loop hrenamed henter fuel
        generalize vm.loop fuel b s.enter = y at hend
        generalize vm.loop fuel b' s'.enter = y' at hend
        cases hend with
        | none => exact .none
        | some he hr hs₁ => exact .some he hr ⟨hs₁.world, congrArg (· - 1) hs₁.depth⟩

/-! ## Output -/

/-- Nothing that was printed is taken back. -/
def Prints (w w' : World) : Prop := ∃ lines, w'.output = w.output ++ lines

theorem prints_refl (w : World) : Prints w w := ⟨#[], by rw [Array.append_empty]⟩

theorem Prints.trans {w w' w'' : World} (h : Prints w w') (h' : Prints w' w'') : Prints w w'' := by
  obtain ⟨lines, hl⟩ := h
  obtain ⟨more, hm⟩ := h'
  exact ⟨lines ++ more, by rw [hm, hl, Array.append_assoc]⟩

theorem prints_act {t : Turn} {live : Nat} (h : vm.act a w live = .turn t w') : Prints w w' := by
  unfold act trapped at h
  dsimp only at h
  split at h
  · cases h
    exact prints_refl w
  · split at h
    · cases h
      exact ⟨#[], by rw [Array.append_empty]⟩
    · cases h
      exact ⟨#[], by rw [Array.append_empty]⟩
    · cases h
      exact prints_refl w
    · next member args keeps f hs =>
      split at h
      · split at h
        · cases h
          exact prints_refl w
        · split at h
          · cases h
            exact prints_refl w
          · cases h
      · have hprints : Prints w (vm.host.call w member args a.routine.describe).2 :=
          ⟨_, output_call vm.host w member args a.routine.describe⟩
        split at h
        · next v w₁ hc =>
          rw [hc] at hprints
          cases h
          exact hprints
        · next t w₁ hc =>
          rw [hc] at hprints
          cases h
          exact hprints

theorem prints_loop {fuel : Nat} (h : vm.loop fuel a s = some (r, s')) :
    Prints s.world s'.world := by
  induction fuel generalizing a s r s' with
  | zero => cases h
  | succ fuel ih =>
    have follows {t : Turn} {s : Session} (h : t.follow (vm.loop fuel) s = some (r, s')) :
        Prints s.world s'.world := by
      cases t with
      | on a => exact ih h
      | ended r =>
        cases h
        exact prints_refl _
    cases hact : vm.act a s.world s.depth with
    | turn t w =>
      rw [loop_of_turn hact] at h
      exact (prints_act hact).trans (follows (s := { s with world := w }) h)
    | start b c =>
      obtain ⟨r₁, s₁, hb⟩ := exists_of_start hact h
      rw [loop_of_start hact hb] at h
      exact (ih hb).trans (follows (s := s₁.leave) h)

theorem prints_invokeIn {fuel : Nat} {typeName method : String}
    (h : vm.invokeIn fuel s typeName method args = some (r, s')) : Prints s.world s'.world := by
  unfold invokeIn at h
  split at h
  · cases h
    exact prints_refl _
  · split at h
    · cases h
      exact prints_refl _
    · rw [execute_eq] at h
      split at h
      · cases h
        exact prints_refl _
      · obtain ⟨⟨r₁, s₁⟩, hb, he⟩ := Option.map_eq_some_iff.1 h
        cases he
        exact (prints_loop hb : Prints s.enter.world s₁.world)

/-! ## Sessions -/

/-- A call in a session comes to this end. -/
def Ends (vm : Machine) (s : Session) (typeName method : String) (args : List Value)
    (r : Except Failure Value) (s' : Session) : Prop :=
  ∃ fuel, vm.invokeIn fuel s typeName method args = some (r, s')

/-- The sessions of a machine: a new one, and what is left of one by a call, however it ended,
or by its user, who makes and changes arrays between calls. -/
inductive Used (vm : Machine) : Session → Prop
  | new : Used vm {}
  | call {s s' : Session} {typeName method : String} {args : List Value}
    {r : Except Failure Value} (h : Used vm s) (hc : vm.Ends s typeName method args r s') :
    Used vm s'
  | between {s : Session} (h : Used vm s) (heap : Heap) :
    Used vm { s with world := { s.world with heap := heap } }

theorem Used.depth_eq_zero (h : vm.Used s) : s.depth = 0 := by
  induction h with
  | new => rfl
  | call _ hc ih =>
    obtain ⟨fuel, hc⟩ := hc
    rw [depth_invokeIn hc, ih]
  | between _ _ ih => exact ih

/-- Calls made one after another on one machine. The counter is the same after a call as
before it, and it counts the live activations, of which there are never more than the limit
allows. A call fails for want of depth exactly when a method with a body is called, with as
many arguments as it takes, while there are so many. It ends as on a machine that has done
nothing before, where its arguments refer to the same arrays; and what it prints comes after
what was printed. -/
theorem session_calls (h : vm.Used s) (typeName method : String) (args : List Value) :
    (∀ r s', vm.Ends s typeName method args r s' →
      s'.depth = s.depth ∧ Prints s.world s'.world) ∧
    (∀ r s', vm.Ends s typeName method args r s' ↔
      s'.depth = 0 ∧ ∃ fuel, vm.invoke fuel s.world typeName method args = some ⟨r, s'.world⟩) ∧
    (∀ x, vm.Reaches s.world typeName method args x → x.live ≤ maxCallDepth) ∧
    (∀ n s', vm.Ends s typeName method args (.error (.fault (.callDepth n))) s' ↔
      s'.depth = 0 ∧ n = maxCallDepth ∧ ∃ x, vm.Reaches s.world typeName method args x ∧
        x.world = s'.world ∧ x.live = maxCallDepth ∧
        ∃ d vs, vm.Attempts x.current x.world d vs ∧ d.body?.isSome ∧
          vs.length = d.argCount.toNat) ∧
    ∀ w ρ args₀, w.output = #[] → w.heap.Matches ρ s.world.heap → MatchAll ρ args₀ args →
      ∀ fuel, EndRenamed s.world.output ρ (vm.invokeIn fuel ⟨w, 0⟩ typeName method args₀)
        (vm.invokeIn fuel s typeName method args) := by
  have hd := h.depth_eq_zero
  have hends (r : Except Failure Value) (s' : Session) :
      vm.Ends s typeName method args r s' ↔ s'.depth = 0 ∧
        ∃ fuel, vm.invoke fuel s.world typeName method args = some ⟨r, s'.world⟩ :=
    invokeIn_eq_some_iff hd
  refine ⟨fun r s' ⟨fuel, he⟩ => ⟨depth_invokeIn he, prints_invokeIn he⟩, hends,
    fun x hx => live_le_maxCallDepth hx, fun n s' => ?_, fun w ρ args₀ ho hw ha fuel => ?_⟩
  · rw [hends, invoke_callDepth_iff]
  · have hs : Session.Renamed s.world.output ρ ⟨w, 0⟩ s :=
      ⟨⟨hw, by rw [ho, Array.append_empty]⟩, hd⟩
    exact renamed_invokeIn ha hs fuel typeName method

/-- A module whose one method calls itself without end. -/
def spinning : Machine where
  module :=
    { name := "App"
      types := [⟨"Spin", [{
        name := "Go"
        flags := .static
        body? := some (.ofList [.call 0, .plain .ret]) }]⟩]
      imports := ⟨[⟨.module, "Spin", "Go", [], .void, true⟩]⟩ }

set_option maxRecDepth 4000 in
/-- After a call that has failed at the limit the next one has the whole depth again. -/
theorem spinning_session_calls :
    spinning.Used {} ∧
      spinning.Ends {} "Spin" "Go" [] (.error (.fault (.callDepth 64))) {} ∧
      (∀ r s', spinning.Ends {} "Spin" "Go" [] r s' → s'.depth = 0) ∧
      ∃ x, spinning.Reaches {} "Spin" "Go" [] x ∧ x.live = 64 := by
  have hends : spinning.Ends {} "Spin" "Go" [] (.error (.fault (.callDepth 64))) {} := ⟨66, rfl⟩
  have hused : spinning.Used {} := .call .new hends
  have h := session_calls hused "Spin" "Go" []
  obtain ⟨-, -, x, hx, -, hlive, -⟩ := (h.2.2.2.1 64 {}).1 hends
  exact ⟨hused, hends, fun r s' he => (h.1 r s' he).1, x, hx, hlive⟩

end Machine

end Interpose
