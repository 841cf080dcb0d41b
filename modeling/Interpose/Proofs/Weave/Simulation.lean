import Interpose.Proofs.Weave.Answers
import Interpose.Proofs.Weave.Counterpart
/-!
# Woven runs follow the original ones

Between two steps of the original code the state of the woven run matches the original
state up to renaming: each activation runs the counterpart of a routine at the position
that corresponds. For each step of the original machine the other one takes as many as its
added code needs.

Results:
* `simulates_call`, `simulates_unwind`: calls, and exceptions on their way up.
* `simulates_step`: what one step of the original machine leads to.
* `simulates_invoke`: how a call from outside ends.
-/
namespace Interpose

/-- The second activation runs the counterpart of the first one's routine, from the position
that corresponds. -/
structure Activation.Matches (vm : Machine) (p : WeavePass) (ρ : Renaming) (σ : Nat → Nat)
    (pos : Nat) (a a' : Activation) : Prop where
  counterpart : Counterpart vm p a.routine a'.routine σ
  formed : a.routine.Formed
  frame : a.frame.Matches ρ σ pos a'.frame
  locals : a'.frame.locals.length = a'.routine.body.locals.size

/-- Both activations wait at corresponding calls, after which they go on at corresponding
positions. -/
inductive Caller.Matches (vm : Machine) (p : WeavePass) (ρ : Renaming) : Caller → Caller → Prop
  | waiting {a a' : Activation} {σ : Nat → Nat} {pos : Nat} (keeps : Bool)
    (ha : a.Matches vm p ρ σ pos a') (hpos : pos < a.routine.body.size)
    (hnext : σ (pos + 1) = σ pos + 1) : Caller.Matches vm p ρ ⟨a, keeps⟩ ⟨a', keeps⟩

structure State.Matches (vm : Machine) (p : WeavePass) (ρ : Renaming) (s s' : State) : Prop where
  current : ∃ σ pos, s.current.Matches vm p ρ σ pos s'.current
  callers : List.Forall₂ (Caller.Matches vm p ρ) s.callers s'.callers
  heap : s.world.heap.Matches ρ s'.world.heap

/-- Ends of runs: the same value, the same exception, or the same kind of fault. -/
inductive ResultMatches (ρ : Renaming) : Except Failure Value → Except Failure Value → Prop
  | value {v v' : Value} (hv : v.Matches ρ v') : ResultMatches ρ (.ok v) (.ok v')
  | thrown {e e' : Value} (he : e.Matches ρ e') :
    ResultMatches ρ (.error (.thrown e)) (.error (.thrown e'))
  | fault {cause cause' : MachineFault} (hk : cause'.kind = cause.kind) :
    ResultMatches ρ (.error (.fault cause)) (.error (.fault cause'))

structure Outcome.Matches (ρ : Renaming) (o o' : Outcome) : Prop where
  result : ResultMatches ρ o.result o'.result
  heap : o.world.heap.Matches ρ o'.world.heap

/-- Points of two runs. After a fault that the verifier rules out nothing is said. -/
inductive Progress.Matches (vm : Machine) (p : WeavePass) (ρ : Renaming) :
    Progress → Progress → Prop
  | running {s s' : State} (h : s.Matches vm p ρ s') :
    Progress.Matches vm p ρ (.running s) (.running s')
  | done {o o' : Outcome} (h : o.Matches ρ o') : Progress.Matches vm p ρ (.done o) (.done o')
  | ruledOut {cause : MachineFault} (h : cause.isRuledOut = true) {w : World}
    (hw : w.heap.Closed) (q : Progress) : Progress.Matches vm p ρ (Machine.faulted w cause) q

/-- The second run gets to a point that matches that of the first one. -/
def Simulates (vm : Machine) (p : WeavePass) (ρ : Renaming) (x q : Progress) : Prop :=
  ∃ ρ' q', Renaming.Extends ρ' ρ ∧ vm.Leads q q' ∧ x.Matches vm p ρ' q'

variable {vm vm' : Machine} {p : WeavePass} {ρ ρ' : Renaming} {σ : Nat → Nat} {pos : Nat}
  {a a' : Activation} {c c' : Caller} {callers callers' : List Caller} {w w' : World}
  {e e' v v' : Value} {x q q' : Progress} {s s' : State}

theorem Activation.Matches.mono (he : ρ'.Extends ρ) (h : a.Matches vm p ρ σ pos a') :
    a.Matches vm p ρ' σ pos a' := ⟨h.counterpart, h.formed, h.frame.mono he, h.locals⟩

theorem Caller.Matches.mono (he : ρ'.Extends ρ) (h : c.Matches vm p ρ c') :
    c.Matches vm p ρ' c' := by
  cases h with
  | waiting keeps ha hpos hnext => exact .waiting keeps (ha.mono he) hpos hnext

theorem callersMatch_mono (he : ρ'.Extends ρ)
    (h : List.Forall₂ (Caller.Matches vm p ρ) callers callers') :
    List.Forall₂ (Caller.Matches vm p ρ') callers callers' := h.imp fun _ _ hc => hc.mono he

namespace Simulates

theorem of_matches (h : x.Matches vm p ρ q) : Simulates vm p ρ x q :=
  ⟨ρ, q, .refl ρ, .refl q, h⟩

theorem of_leads (hl : vm.Leads q q') (h : Simulates vm p ρ x q') : Simulates vm p ρ x q := by
  obtain ⟨ρ', q'', he, hl', hm⟩ := h
  exact ⟨ρ', q'', he, hl.trans hl', hm⟩

theorem of_extends (he : ρ'.Extends ρ) (h : Simulates vm p ρ' x q) : Simulates vm p ρ x q := by
  obtain ⟨ρ'', q', he', hl, hm⟩ := h
  exact ⟨ρ'', q', he'.trans he, hl, hm⟩

theorem of_step (h : Simulates vm p ρ x (vm.step s')) : Simulates vm p ρ x (.running s') :=
  of_leads (.step (.refl _)) h

end Simulates

/-! ## Ends of activations -/

/-- An exception is caught in both activations, or both hand it on. -/
theorem simulates_unwind_of_handOn (hcs : List.Forall₂ (Caller.Matches vm p ρ) callers callers')
    (ha : a.Matches vm p ρ σ pos a') (hpos : pos ≤ a.routine.body.size) (he : e.Matches ρ e')
    (hw : w.heap.Matches ρ w'.heap)
    (hout : ∀ w'', w.heap.Matches ρ w''.heap →
      Simulates vm p ρ (Machine.handOn w e callers) (Machine.handOn w'' e' callers')) :
    Simulates vm p ρ (Machine.unwind w e a callers) (Machine.unwind w' e' a' callers') := by
  cases hg : a.frame.catch? a.routine.regions e with
  | some g =>
    obtain ⟨g', pos', hg', hm, hl⟩ := ha.counterpart.catch ha.formed ha.frame he hg
    rw [Machine.unwind_of_catch hg, Machine.unwind_of_catch hg']
    exact .of_matches (.running ⟨⟨σ, pos', ha.counterpart, ha.formed, hm, hl ▸ ha.locals⟩,
      hcs, hw⟩)
  | none =>
    have hnone : a.catch? e = none := by
      unfold Activation.catch?
      rw [hg]
      rfl
    obtain ⟨w'', hheap, hlead⟩ := ha.counterpart.leads_handOn ha.formed ha.frame hpos ha.locals
      he hg w' callers'
    rw [Machine.unwind_of_catch_none hnone]
    exact .of_leads hlead (hout w'' (hheap ▸ hw))

theorem simulates_handOn (hcs : List.Forall₂ (Caller.Matches vm p ρ) callers callers')
    (he : e.Matches ρ e') (hw : w.heap.Matches ρ w'.heap) :
    Simulates vm p ρ (Machine.handOn w e callers) (Machine.handOn w' e' callers') := by
  induction hcs generalizing w' with
  | nil => exact .of_matches (.done ⟨.thrown he, hw⟩)
  | cons hc hrest ih =>
    cases hc with
    | waiting keeps ha hpos hnext =>
      exact simulates_unwind_of_handOn hrest ha (Nat.le_of_lt hpos) he hw fun _ hw => ih hw

/-- An exception goes up both runs to handlers that correspond. -/
theorem simulates_unwind (hcs : List.Forall₂ (Caller.Matches vm p ρ) callers callers')
    (ha : a.Matches vm p ρ σ pos a') (hpos : pos ≤ a.routine.body.size) (he : e.Matches ρ e')
    (hw : w.heap.Matches ρ w'.heap) :
    Simulates vm p ρ (Machine.unwind w e a callers) (Machine.unwind w' e' a' callers') :=
  simulates_unwind_of_handOn hcs ha hpos he hw fun _ hw => simulates_handOn hcs he hw

/-- Both callers go on with the value of their calls. -/
theorem matches_resume (hc : c.Matches vm p ρ c') (hv : v.Matches ρ v') :
    ∃ σ pos, (Machine.resume c v).Matches vm p ρ σ pos (Machine.resume c' v') := by
  cases hc with
  | @waiting a a' σ pos keeps ha hpos hnext =>
    refine ⟨σ, pos + 1, ha.counterpart, ha.formed, ?_, ?_⟩
    · cases keeps with
      | true => exact (ha.frame.push hv).advance hnext
      | false => exact ha.frame.advance hnext
    · cases keeps <;> exact ha.locals

/-- Both runs give the value to callers that correspond. -/
theorem simulates_giveBack (hcs : List.Forall₂ (Caller.Matches vm p ρ) callers callers')
    (hv : v.Matches ρ v') (hw : w.heap.Matches ρ w'.heap) :
    Simulates vm p ρ (Machine.giveBack w v callers) (Machine.giveBack w' v' callers') := by
  cases hcs with
  | nil => exact .of_matches (.done ⟨.value hv, hw⟩)
  | cons hc hrest => exact .of_matches (.running ⟨matches_resume hc hv, hrest, hw⟩)

/-- What makes the first run fail makes the second one fail in the same way. -/
theorem simulates_trap {α β : Type} {P : α → β → Prop} {t : Trap} {result : Except Trap β}
    (hm : Mirrors .ofKind ρ P (.error t) result)
    (hcs : List.Forall₂ (Caller.Matches vm p ρ) callers callers')
    (ha : a.Matches vm p ρ σ pos a') (hpos : pos ≤ a.routine.body.size)
    (hw : w.heap.Matches ρ w'.heap)
    (hq : ∀ t', result = .error t' → q = Machine.trap w' t' a' callers') :
    Simulates vm p ρ (Machine.trap w t a callers) q := by
  cases t with
  | raise r =>
    rw [hq _ hm]
    obtain ⟨ρ', he, hv, hh⟩ := hw.newObject r.className r.message
    exact .of_extends he (simulates_unwind (callersMatch_mono he hcs) (ha.mono he) hpos hv hh)
  | failed failure =>
    cases failure with
    | thrown e =>
      obtain ⟨e', hresult, he⟩ := hm
      rw [hq _ hresult]
      exact simulates_unwind hcs ha hpos he hw
    | fault cause =>
      rcases hm with hruled | ⟨cause', hresult, hk⟩
      · exact .of_matches (.ruledOut hruled hw.closed q)
      · rw [hq _ hresult]
        exact .of_matches (.done ⟨.fault hk, hw⟩)

/-! ## Starts of activations -/

/-- The second machine runs what weaving made of the first one's module. -/
structure Woven (vm vm' : Machine) (p : WeavePass) : Prop where
  host : vm'.host = vm.host
  weaves : p.Weaves vm.module vm'.module
  hosts : ∀ t ∈ vm.module.types, ∀ d ∈ t.methods, ∀ hooks d',
    p.visit t.name d = (.ok hooks, d') → vm'.Hosts p.context

/-- Starts an activation, or ends the run. -/
def Machine.enter (w : World) (callers : List Caller) : Except MachineFault Activation → Progress
  | .error cause => faulted w cause
  | .ok a => .running ⟨a, callers, w⟩

variable {args args' : List Value} {d : Method} {typeName : String} {live : Nat}

/-- The slots of a body hold the same values at first, those that weaving added aside. -/
theorem locals_initial (ρ : Renaming) (slots extra : List Slot) (k : Nat) (v : Value)
    (hv : (slots.map fun s => Value.initial s.ty)[k]? = some v) :
    ∃ v', ((slots ++ extra).map fun s => Value.initial s.ty)[k]? = some v' ∧ v.Matches ρ v' := by
  obtain ⟨hlt, -⟩ := List.getElem?_eq_some_iff.1 hv
  have hsame : v.Matches ρ v := by
    rw [List.getElem?_map] at hv
    obtain ⟨slot, -, rfl⟩ := Option.map_eq_some_iff.1 hv
    exact Value.matches_initial ρ slot.ty
  refine ⟨v, ?_, hsame⟩
  rw [List.map_append, List.getElem?_append_left hlt, hv]

/-- The same method made ready to run with arguments that match. -/
theorem simulates_enter_same (hcs : List.Forall₂ (Caller.Matches vm p ρ) callers callers')
    (ha : MatchAll ρ args args') (hw : w.heap.Matches ρ w'.heap) :
    Simulates vm p ρ (Machine.enter w callers (d.activate typeName args live))
      (Machine.enter w' callers' (d.activate typeName args' live)) := by
  have hlen := ha.length_eq
  unfold Method.activate
  dsimp only
  rw [hlen]
  split
  · exact .of_matches (.done ⟨.fault rfl, hw⟩)
  · split
    · exact .of_matches (.done ⟨.fault rfl, hw⟩)
    · next b hb =>
      split
      · exact .of_matches (.done ⟨.fault rfl, hw⟩)
      · split
        · exact .of_matches (.done ⟨.fault rfl, hw⟩)
        · next rs hrs =>
          refine .of_matches (.running ⟨⟨id, 0, .same, ⟨rfl, hrs⟩, ⟨ha, fun k v hv => ?_, .nil,
            .nil, rfl, rfl⟩, ?_⟩, hcs, hw⟩)
          · have hinitial := locals_initial ρ b.locals.toList [] k v hv
            rw [List.append_nil] at hinitial
            exact hinitial
          · simp only [List.length_map, Array.length_toList]

section

variable {hooks : WovenHooks} {d' : Method} {L : Layout} {array exception : SlotId} {woven : Body}
  {maxStack : UInt16} (h : WovenMethod p d hooks d' L array exception woven maxStack)
include h

theorem body?_woven : d'.body? = some { woven with maxStack := maxStack } := by
  rw [h.method]

theorem argCount_woven : d'.argCount = d.argCount := by
  rw [h.method]
  rfl

/-- If a method can be made ready to run, so can what weaving made of it. -/
theorem exists_activate_woven (ha : MatchAll ρ args args')
    (hactivate : d.activate typeName args live = .ok a) :
    ∃ a', d'.activate typeName args' live = .ok a' := by
  obtain ⟨hargs, hlive, b, rs, hb, hrs, -⟩ := Method.activate_eq_ok_iff.1 hactivate
  obtain rfl := Option.some.inj (hb.symm.trans h.body)
  have hcount : args'.length = d'.argCount.toNat := by
    rw [← ha.length_eq, hargs, argCount_woven h]
  exact ⟨_, Method.activate_eq_ok_iff.2 ⟨hcount, hlive, _, _, body?_woven h,
    (h.describes.withMaxStack maxStack).regions_of_describes hrs, rfl⟩⟩

/-- If it cannot, they fail in the same way. -/
theorem simulates_activate_error {cause : MachineFault} (ha : MatchAll ρ args args')
    (hw : w.heap.Matches ρ w'.heap) (hactivate : d.activate typeName args live = .error cause) :
    Simulates vm p ρ (Machine.faulted w cause)
      (Machine.enter w' callers' (d'.activate typeName args' live)) := by
  unfold Method.activate at hactivate ⊢
  dsimp only at hactivate ⊢
  rw [ha.length_eq, h.body] at hactivate
  rw [argCount_woven h, body?_woven h]
  by_cases hargs : args'.length ≠ d.argCount.toNat
  · rw [if_pos hargs] at hactivate ⊢
    cases hactivate
    exact .of_matches (.done ⟨.fault rfl, hw⟩)
  · rw [if_neg hargs] at hactivate ⊢
    dsimp only at hactivate ⊢
    by_cases hlive : maxCallDepth ≤ live
    · rw [if_pos hlive] at hactivate ⊢
      cases hactivate
      exact .of_matches (.done ⟨.fault rfl, hw⟩)
    · rw [if_neg hlive] at hactivate
      split at hactivate
      · cases hactivate
        exact .of_matches (.ruledOut rfl hw.closed _)
      · cases hactivate

/-- The activation of a woven method gets through its prologue. -/
theorem simulates_prologue (hosts : vm.Hosts p.context)
    (hcs : List.Forall₂ (Caller.Matches vm p ρ) callers callers') (ha : MatchAll ρ args args')
    (hw : w.heap.Matches ρ w'.heap) (hactivate : d.activate typeName args live = .ok a)
    (hactivate' : d'.activate typeName args' live = .ok a') :
    Simulates vm p ρ (.running ⟨a, callers, w⟩) (.running ⟨a', callers', w'⟩) := by
  obtain ⟨-, -, b, rs, hb, hrs, rfl⟩ := Method.activate_eq_ok_iff.1 hactivate
  obtain rfl := Option.some.inj (hb.symm.trans h.body)
  obtain ⟨r', f'⟩ := a'
  obtain ⟨hr', hframe, hcount, htype, hmethod⟩ := wovenRoutine_of_activate h hosts hactivate'
  dsimp only at hr' hframe htype hmethod
  have hname : r'.method.name = d.name := by rw [hmethod, h.method]
  have hargs' : f'.args = args' := congrArg Frame.args hframe
  have hlocals := Method.length_locals_of_activate hactivate'
  obtain ⟨as, locals, w'', ⟨log, hp, -⟩, -, hkeeps, hlength, hsame⟩ :=
    hr'.opens_prologue (w := w') (congrArg Frame.pc hframe) (hargs' ▸ hcount) hlocals
  refine .of_leads (Machine.steps_of_proceeds hp callers').leads (.of_matches (.running
    ⟨⟨L.shift, 0, .woven hr' rfl htype hname, ⟨rfl, hrs⟩, ⟨?_, fun k v hv => ?_, ?_, ?_, rfl,
      rfl⟩, hlength.trans hlocals⟩, hcs, hw.keeps hkeeps⟩))
  · rw [hargs']
    exact ha
  · obtain ⟨v', hv', hm⟩ := locals_initial ρ L.body.locals.toList L.slots k v hv
    refine ⟨v', ?_, hm⟩
    obtain ⟨hlt, -⟩ := List.getElem?_eq_some_iff.1 hv
    rw [List.length_map, Array.length_toList] at hlt
    rw [← hr'.describes.locals] at hv'
    show locals[k]? = some v'
    rw [hsame k hlt, hframe]
    exact hv'
  · rw [hframe]
    exact .nil
  · rw [hframe]
    exact .nil

/-- A woven method made ready to run in place of the original one. -/
theorem simulates_enter_woven (hosts : vm.Hosts p.context)
    (hcs : List.Forall₂ (Caller.Matches vm p ρ) callers callers') (ha : MatchAll ρ args args')
    (hw : w.heap.Matches ρ w'.heap) :
    Simulates vm p ρ (Machine.enter w callers (d.activate typeName args live))
      (Machine.enter w' callers' (d'.activate typeName args' live)) := by
  cases hactivate : d.activate typeName args live with
  | ok a =>
    obtain ⟨a', hactivate'⟩ := exists_activate_woven h ha hactivate
    rw [hactivate']
    exact simulates_prologue h hosts hcs ha hw hactivate hactivate'
  | error cause => exact simulates_activate_error h ha hw hactivate

end

/-- A method of the original module and what weaving made of it. -/
theorem simulates_enter (hv : Woven vm vm' p) {t : TypeDef} (ht : t ∈ vm.module.types)
    (hd : d ∈ t.methods) (hcs : List.Forall₂ (Caller.Matches vm' p ρ) callers callers')
    (ha : MatchAll ρ args args') (hw : w.heap.Matches ρ w'.heap) (live : Nat) :
    Simulates vm' p ρ (Machine.enter w callers (d.activate t.name args live))
      (Machine.enter w' callers' ((p.visited t.name d).activate t.name args' live)) := by
  unfold WeavePass.visited
  rcases p.visit_cases t.name d with ⟨reason, hvisit⟩ |
    ⟨hooks, d', hvisit, L, array, exception, woven, maxStack, hwoven⟩
  · rw [hvisit]
    exact simulates_enter_same hcs ha hw
  · rw [hvisit]
    exact simulates_enter_woven hwoven (hv.hosts t ht d hd hooks d' hvisit) hcs ha hw

/-! ## Calls -/

theorem exists_of_dispatch? {m : Module} {member : MemberRef} (h : m.dispatch? member = some d) :
    ∃ t ∈ m.types, t.name = member.owner ∧ d ∈ t.methods := by
  obtain ⟨t, ht, hd⟩ := Option.bind_eq_some_iff.1 h
  have hname := List.find?_some (p := fun t : TypeDef => t.name == member.owner) ht
  exact ⟨t, List.mem_of_find?_eq_some ht, eq_of_beq hname, List.mem_of_find?_eq_some hd⟩

/-- What a call leads to, if its arguments match. -/
theorem simulates_call (hv : Woven vm vm' p)
    (hcs : List.Forall₂ (Caller.Matches vm' p ρ) callers callers') (hc : c.Matches vm' p ρ c')
    (ha : MatchAll ρ args args') (hw : w.heap.Matches ρ w'.heap) (member : MemberRef) :
    Simulates vm' p ρ (vm.call w member args c callers) (vm'.call w' member args' c' callers') := by
  unfold Machine.call
  cases member.scope with
  | module =>
    dsimp only
    rw [hv.weaves.dispatch? member, ← hcs.length_eq]
    cases hd : vm.module.dispatch? member with
    | none => exact .of_matches (.done ⟨.fault rfl, hw⟩)
    | some d =>
      obtain ⟨t, ht, hname, hmem⟩ := exists_of_dispatch? hd
      have henter := simulates_enter hv ht hmem (.cons hc hcs) ha hw (callers.length + 1)
      rw [hname] at henter
      exact henter
  | library name =>
    dsimp only
    have hdescribe : c'.activation.routine.describe = c.activation.routine.describe := by
      cases hc with
      | waiting keeps ha hpos hnext => exact ha.counterpart.describe
    have hself : c.activation.routine.describe.Matches ρ c.activation.routine.describe :=
      .method _ _
    obtain ⟨ρ', he, hresult, hheap⟩ := Host.mirrors_hostCall
      (FaultMatch.fits_ofKind id).refl hw ha vm.host member hself
    rw [hv.host, hdescribe]
    generalize vm.host.call w member args c.activation.routine.describe = x at hresult hheap
    generalize vm.host.call w' member args' c.activation.routine.describe = x' at hresult hheap
    obtain ⟨answer, w⟩ := x
    obtain ⟨answer', w'⟩ := x'
    have hcs' := callersMatch_mono he hcs
    have hc' := hc.mono he
    refine .of_extends he ?_
    cases answer with
    | ok v =>
      obtain ⟨v', hv', hm⟩ := hresult
      obtain rfl : answer' = .ok v' := hv'
      exact .of_matches (.running ⟨matches_resume hc' hm, hcs', hheap⟩)
    | error t =>
      cases hc' with
      | waiting keeps ha hpos hnext =>
        exact simulates_trap hresult hcs' ha (Nat.le_of_lt hpos) hheap fun t' ht' => by
          obtain rfl : answer' = .error t' := ht'
          rfl

/-! ## Steps -/

/-- A return of the original code leads to the same return of the woven code. -/
theorem simulates_ret {i : Instruction} (ha : a.Matches vm' p ρ σ pos a')
    (hcs : List.Forall₂ (Caller.Matches vm' p ρ) callers callers')
    (hw : w.heap.Matches ρ w'.heap) (hi : a.routine.code[pos]? = some i)
    (hret : i.opcode = .ret) :
    Simulates vm' p ρ (vm.step ⟨a, callers, w⟩) (.running ⟨a', callers', w'⟩) := by
  obtain ⟨r, f⟩ := a
  obtain ⟨r', f'⟩ := a'
  have hcode : r.code[f.pc]? = some i := ha.frame.here ▸ hi
  have give {v v' : Value} (hv : v.Matches ρ v')
      (hstep : f.step r vm.module.imports w.heap i = .ok (.ret v))
      (htop : if r.method.returnType.isVoid then v' = .null else ∃ rest, f'.stack = v' :: rest) :
      Simulates vm' p ρ (vm.step ⟨⟨r, f⟩, callers, w⟩) (.running ⟨⟨r', f'⟩, callers', w'⟩) := by
    obtain ⟨w'', hheap, hlead⟩ := ha.counterpart.leads_giveBack ha.formed hi hret ha.frame.there
      htop ha.locals w' callers'
    rw [Machine.step_of_ret hcode hstep callers]
    exact .of_leads hlead (simulates_giveBack hcs hv (hheap ▸ hw))
  cases hvoid : r.method.returnType.isVoid with
  | true => exact give .null (Machine.step_ret_void hret hvoid) (by rw [hvoid]; rfl)
  | false =>
    have hstack := ha.frame.stack
    cases hs : f.stack with
    | nil =>
      rw [hs] at hstack
      have hs' : f'.stack = [] := List.forall₂_nil_left_iff.1 hstack
      rw [Machine.step_of_fault hcode (Machine.step_ret_empty hret hvoid hs) callers]
      refine .of_step ?_
      rw [ha.counterpart.step_return_empty ha.formed hi hret ha.frame.there hvoid hs' w' callers']
      exact .of_matches (.done ⟨.fault rfl, hw⟩)
    | cons v rest =>
      rw [hs] at hstack
      obtain ⟨v', rest', hv, -, hs'⟩ := List.forall₂_cons_left_iff.1 hstack
      refine give hv (Machine.step_ret_value hret hvoid hs) ?_
      rw [hvoid, if_neg Bool.false_ne_true]
      exact ⟨rest', hs'⟩

/-- What one step of the original machine leads to, the woven one gets to as well. -/
theorem simulates_step (hv : Woven vm vm' p) (hs : s.Matches vm' p ρ s') :
    Simulates vm' p ρ (vm.step s) (.running s') := by
  obtain ⟨⟨σ, pos, ha⟩, hcs, hw⟩ := hs
  obtain ⟨⟨r, f⟩, callers, w⟩ := s
  obtain ⟨⟨r', f'⟩, callers', w'⟩ := s'
  cases hi : r.code[pos]? with
  | none =>
    -- The woven code goes on here with what weaving added; a verified body never comes to it.
    have hcode : r.code[f.pc]? = none := ha.frame.here ▸ hi
    unfold Machine.step
    dsimp only
    rw [hcode]
    exact .of_matches (.ruledOut rfl hw.closed _)
  | some i =>
    by_cases hret : i.opcode = .ret
    · exact simulates_ret ha hcs hw hi hret
    · -- Every other instruction stands in the woven code as it was.
      obtain ⟨hi', hnext⟩ := ha.counterpart.code ha.formed hi hret
      have hpos : pos < r.body.size := by
        rw [← Counterpart.size_eq ha.formed]
        exact (Array.getElem?_eq_some_iff.1 hi).1
      have hcode : r.code[f.pc]? = some i := ha.frame.here ▸ hi
      have hcode' : r'.code[f'.pc]? = some i := by
        rw [ha.frame.there]
        exact hi'
      have hm := Frame.mirrors_step (FaultMatch.fits_ofKind σ) ha.counterpart.monotone hnext
        (Frame.mirrors_target (fun _ => rfl) fun t ht => ha.counterpart.target ht)
        (Frame.membersMatch_of_extends (fun _ => rfl) hv.weaves.imports) (.inr fun _ _ => rfl)
        hret ha.frame hw
      have hshape := Frame.holds_step f r vm.module.imports w.heap i
      have hshape' := Frame.holds_step f' r' vm'.module.imports w'.heap i
      refine .of_step ?_
      unfold Machine.step
      dsimp only
      rw [hcode, hcode']
      dsimp only
      generalize f.step r vm.module.imports w.heap i = x at hm hshape
      generalize f'.step r' vm'.module.imports w'.heap i = x' at hm hshape'
      cases x with
      | error t =>
        refine simulates_trap hm hcs ha (Nat.le_of_lt hpos) hw fun t' ht' => ?_
        obtain rfl : x' = .error t' := ht'
        rfl
      | ok y =>
        obtain ⟨y', rfl, hy⟩ := hm
        cases hy with
        | @next ρ' pos' g g' h h' he hf hh =>
          refine .of_extends he (.of_matches (.running ⟨⟨σ, pos', ha.counterpart, ha.formed, hf,
            ?_⟩, callersMatch_mono he hcs, hh⟩))
          exact hshape'.locals.trans ha.locals
        | ret hv' => exact absurd hshape hret
        | @call member args args' keeps pos' g g' hargs hf =>
          have hpos' : pos' = pos := by rw [← hf.here, ← ha.frame.here, hshape.pc]
          obtain rfl := hpos'
          have hlocals : g'.locals.length = r'.body.locals.size := by
            rw [hshape'.locals]
            exact ha.locals
          have hcaller : Activation.Matches vm' p ρ σ pos' ⟨r, g⟩ ⟨r', g'⟩ :=
            ⟨ha.counterpart, ha.formed, hf, hlocals⟩
          exact simulates_call hv hcs (.waiting keeps hcaller hpos hnext) hargs hw member

/-! ## Runs -/

theorem simulates_run (hv : Woven vm vm' p) {fuel : Nat} {o : Outcome}
    (ho : vm.run fuel s = some o) (hs : s.Matches vm' p ρ s') :
    Simulates vm' p ρ (.done o) (.running s') := by
  induction fuel generalizing s s' ρ with
  | zero => cases ho
  | succ fuel ih =>
    have hstep := simulates_step hv hs
    cases hx : vm.step s with
    | running s₁ =>
      rw [Machine.run_succ_of_running hx] at ho
      rw [hx] at hstep
      obtain ⟨ρ', q, he, hl, hm⟩ := hstep
      cases hm with
      | running hs₁ => exact .of_extends he (.of_leads hl (ih ho hs₁))
    | done o' =>
      rw [Machine.run_succ_of_done hx] at ho
      rw [hx] at hstep
      obtain rfl := Option.some.inj ho
      exact hstep

theorem simulates_start (hv : Woven vm vm' p) (ha : MatchAll ρ args args')
    (hw : w.heap.Matches ρ w'.heap) (typeName method : String) :
    Simulates vm' p ρ (vm.start w typeName method args) (vm'.start w' typeName method args') := by
  unfold Machine.start
  rw [hv.weaves.type?]
  cases ht : vm.module.type? typeName with
  | none => exact .of_matches (.done ⟨.fault rfl, hw⟩)
  | some t =>
    rw [Option.map_some]
    dsimp only
    rw [WeavePass.Weaves.method?]
    cases hd : t.method? method with
    | none => exact .of_matches (.done ⟨.fault rfl, hw⟩)
    | some d =>
      have hname : t.name = typeName := eq_of_beq (List.find?_some (p := fun t : TypeDef =>
        t.name == typeName) ht)
      have henter := simulates_enter hv (List.mem_of_find?_eq_some ht)
        (List.mem_of_find?_eq_some hd) .nil ha hw 0
      rw [hname] at henter ⊢
      exact henter

/-- How the original run ends, the woven one ends as well. -/
theorem simulates_invoke (hv : Woven vm vm' p) (ha : MatchAll ρ args args')
    (hw : w.heap.Matches ρ w'.heap) {typeName method : String} {fuel : Nat} {o : Outcome}
    (ho : vm.invoke fuel w typeName method args = some o) :
    Simulates vm' p ρ (.done o) (vm'.start w' typeName method args') := by
  have hstart := simulates_start hv ha hw typeName method
  unfold Machine.invoke at ho
  cases hx : vm.start w typeName method args with
  | running s =>
    rw [hx] at ho hstart
    obtain ⟨ρ', q, he, hl, hm⟩ := hstart
    cases hm with
    | running hs => exact .of_extends he (.of_leads hl (simulates_run hv ho hs))
  | done o' =>
    rw [hx] at ho hstart
    obtain rfl := Option.some.inj ho
    exact hstart

end Interpose
