import Interpose.Proofs.Machine.Run
import Interpose.Proofs.Verify.Alike
/-!
# Saving and reloading bodies

Two machines whose modules differ in bodies that were saved and read again go in lockstep:
after each step both have the same frames and the same world, and run routines that are
alike. Ids of instructions show in one message only, that of a branch target given to an
opcode that takes none.

Results:
* `step_alike`, `run_alike`: one step, and a run of any length.
* `invoke_alike`: a call from outside ends alike.
* `reload_unobservable`: listings, verification and runs of reloaded bodies.
-/
namespace Interpose

/-! ## What may differ -/

/-- The same fault, up to the id that a target is shown by. -/
inductive MachineFault.Alike : MachineFault → MachineFault → Prop
  | same (e : MachineFault) : Alike e e
  | operand (pos : Nat) (op : Opcode) (t t' : InstructionId) :
    Alike (.typeMismatch pos (.wrongOperand op (.target t)))
      (.typeMismatch pos (.wrongOperand op (.target t')))

/-- The same end of a run, up to the id that a fault may show. -/
inductive Outcome.Alike : Outcome → Outcome → Prop
  | same (o : Outcome) : Alike o o
  | fault {e e' : MachineFault} (h : e.Alike e') (w : World) :
    Alike ⟨.error (.fault e), w⟩ ⟨.error (.fault e'), w⟩

/-- What an instruction does, up to the id that a fault may show. -/
inductive Step.Alike : Except Trap Step → Except Trap Step → Prop
  | same (r : Except Trap Step) : Alike r r
  | fault {e e' : MachineFault} (h : e.Alike e') : Alike (.error (.fault e)) (.error (.fault e'))

/-- The method, maybe with its body saved and read again. -/
inductive Method.Reloads : Method → Method → Prop
  | kept (d : Method) : Reloads d d
  | reloaded (d : Method) {b b' : Body} {l : LabelledBody} (hb : d.body? = some b)
    (he : b.encode = .ok l) (hd : l.decode = .ok b') : Reloads d { d with body? := some b' }

def TypeDef.Reloads (t t' : TypeDef) : Prop :=
  t.name = t'.name ∧ List.Forall₂ Method.Reloads t.methods t'.methods

/-- The same module, maybe with some bodies saved and read again. -/
structure Module.Reloads (m m' : Module) : Prop where
  types : List.Forall₂ TypeDef.Reloads m.types m'.types
  imports : m.imports = m'.imports

structure Routine.Alike (r r' : Routine) : Prop where
  typeName : r.typeName = r'.typeName
  name : r.method.name = r'.method.name
  returnType : r.method.returnType = r'.method.returnType
  code : List.Forall₂ (Instruction.Alike r.body r'.body) r.code.toList r'.code.toList
  regions : r.regions = r'.regions

structure Activation.Alike (a a' : Activation) : Prop where
  routine : a.routine.Alike a'.routine
  frame : a.frame = a'.frame

structure Caller.Alike (c c' : Caller) : Prop where
  activation : c.activation.Alike c'.activation
  keeps : c.keeps = c'.keeps

structure State.Alike (s s' : State) : Prop where
  current : s.current.Alike s'.current
  callers : List.Forall₂ Caller.Alike s.callers s'.callers
  world : s.world = s'.world

/-- Points of two runs. -/
inductive Progress.Alike : Progress → Progress → Prop
  | running {s s' : State} (h : s.Alike s') : Alike (.running s) (.running s')
  | done {o o' : Outcome} (h : o.Alike o') : Alike (.done o) (.done o')

/-- A routine is like itself if its code is that of its body. -/
theorem Activation.Alike.refl {a : Activation} (h : a.routine.code = a.routine.body.code.toArray) :
    a.Alike a where
  routine := ⟨rfl, rfl, rfl, by rw [h]; exact (Body.Alike.refl a.routine.body).code, rfl⟩
  frame := rfl

/-! ## Looking methods up -/

namespace Method.Reloads

variable {d d' : Method}

theorem name_eq (h : Reloads d d') : d.name = d'.name := by cases h <;> rfl

theorem paramTypes_eq (h : Reloads d d') : d.paramTypes = d'.paramTypes := by cases h <;> rfl

/-- Made ready to run, both start with the same frame. -/
theorem activate_alike (h : Reloads d d') (typeName : String) (args : List Value) (live : Nat) :
    (∃ e, d.activate typeName args live = .error e ∧ d'.activate typeName args live = .error e) ∨
      ∃ a a', d.activate typeName args live = .ok a ∧ d'.activate typeName args live = .ok a' ∧
        a.Alike a' := by
  cases h with
  | kept =>
    cases ha : d.activate typeName args live with
    | error e => exact .inl ⟨e, rfl, rfl⟩
    | ok a =>
      obtain ⟨-, -, b, rs, -, -, rfl⟩ := Method.activate_eq_ok_iff.1 ha
      exact .inr ⟨_, _, rfl, rfl, .refl rfl⟩
  | @reloaded b b' l hb he hd =>
    obtain ⟨halike, -⟩ := Body.alike_of_reload he hd
    have hregions := halike.regions_eq
    by_cases hargs : args.length = d.argCount.toNat
    · by_cases hlive : live < maxCallDepth
      · cases hrs : b'.regions with
        | error e =>
          have hactivate {x : Method} {y : Body} (hx : x.body? = some y)
              (hcount : args.length = x.argCount.toNat) (hy : y.regions = .error e) :
              x.activate typeName args live = .error (.code e) := by
            simp only [activate, hx, hy, hcount, ne_eq, not_true_eq_false, if_false,
              if_neg (Nat.not_le_of_lt hlive)]
          exact .inl ⟨.code e, hactivate hb hargs (hregions.trans hrs), hactivate rfl hargs hrs⟩
        | ok rs =>
          refine .inr ⟨_, _, activate_eq_ok_iff.2 ⟨hargs, hlive, b, rs, hb, hregions.trans hrs, rfl⟩,
            activate_eq_ok_iff.2 ⟨hargs, hlive, b', rs, rfl, hrs, rfl⟩,
            ⟨rfl, rfl, rfl, halike.code, rfl⟩, ?_⟩
          rw [halike.locals]
      · have hle := Nat.le_of_not_lt hlive
        refine .inl ⟨.callDepth maxCallDepth, ?_, ?_⟩
        · simp only [activate, hb, hargs, ne_eq, not_true_eq_false, if_false, if_pos hle]
        · exact (if_neg (Decidable.not_not.2 hargs)).trans (if_pos hle)
    · exact .inl ⟨_, if_pos hargs, if_pos hargs⟩

end Method.Reloads

theorem Module.Reloads.type? {m m' : Module} (h : m.Reloads m') (name : String) :
    Option.Rel TypeDef.Reloads (m.type? name) (m'.type? name) :=
  forall₂_find? h.types fun _ _ ht => by rw [ht.1]

/-! ## Steps -/

namespace Routine.Alike

variable {r r' : Routine} {i i' : Instruction}

theorem fullName_eq (h : r.Alike r') : r.fullName = r'.fullName := by
  rw [Routine.fullName, Routine.fullName, h.typeName, h.name]

theorem describe_eq (h : r.Alike r') : r.describe = r'.describe := by
  rw [Routine.describe, Routine.describe, h.typeName, h.name]

theorem target_eq (hi : Instruction.Alike r.body r'.body i i') : r.target i = r'.target i' := by
  cases hi with
  | same i hi => simp only [Routine.target, hi]
  | target op h => simp only [Routine.target, Instruction.target?, h]

end Routine.Alike

/-- Routines that find the same target and return the same execute an instruction alike. -/
theorem Frame.step_congr {r r' : Routine} {i : Instruction} (ht : r.target i = r'.target i)
    (hr : r.method.returnType = r'.method.returnType) (f : Frame) (imports : ImportTable)
    (h : Heap) : f.step r imports h i = f.step r' imports h i := by
  simp only [Frame.step, Frame.branchIf, ht, hr]

/-- An instruction that is like another does the same to a frame. -/
theorem Frame.step_alike {r r' : Routine} (hr : r.Alike r') {i i' : Instruction}
    (hi : Instruction.Alike r.body r'.body i i') (f : Frame) (imports : ImportTable) (h : Heap) :
    Step.Alike (f.step r imports h i) (f.step r' imports h i') := by
  have ht := Routine.Alike.target_eq hi
  cases hi with
  | same i hi =>
    rw [Frame.step_congr ht hr.returnType]
    exact .same _
  | @target op t t' hplace =>
    cases op with
    | br | brtrue | brfalse | leave =>
      simp only [Frame.step, Frame.branchIf, ht]
      exact .same _
    | ret =>
      simp only [Frame.step, hr.returnType]
      exact .same _
    | _ => first | exact .same _ | exact .fault (.operand f.pc _ t t')

namespace Machine

variable {vm vm' : Machine} {w : World} {a a' : Activation} {callers callers' : List Caller}

theorem catch?_alike (h : a.Alike a') (v : Value) :
    Option.Rel Activation.Alike (a.catch? v) (a'.catch? v) := by
  unfold Activation.catch?
  rw [h.frame, h.routine.regions]
  cases a'.frame.catch? a'.routine.regions v with
  | none => exact .none
  | some f => exact .some ⟨h.routine, rfl⟩

theorem resume_alike {c c' : Caller} (h : c.Alike c') (v : Value) :
    (resume c v).Alike (resume c' v) where
  routine := h.activation.routine
  frame := by rw [resume, resume, h.activation.frame, h.keeps]

theorem unwind_alike (ha : a.Alike a') (hc : List.Forall₂ Caller.Alike callers callers')
    (v : Value) : Progress.Alike (unwind w v a callers) (unwind w v a' callers') := by
  induction hc generalizing a a' with
  | nil =>
    unfold unwind
    rcases rel_cases (catch?_alike ha v) with ⟨hn, hn'⟩ | ⟨b, b', hs, hs', h⟩
    · rw [hn, hn']
      exact .done (.same _)
    · rw [hs, hs']
      exact .running ⟨h, .nil, rfl⟩
  | @cons c c' rest rest' hc hrest ih =>
    unfold unwind
    rcases rel_cases (catch?_alike ha v) with ⟨hn, hn'⟩ | ⟨b, b', hs, hs', h⟩
    · rw [hn, hn']
      exact ih hc.activation
    · rw [hs, hs']
      exact .running ⟨h, .cons hc hrest, rfl⟩

theorem trap_alike (ha : a.Alike a') (hc : List.Forall₂ Caller.Alike callers callers')
    (t : Trap) : Progress.Alike (trap w t a callers) (trap w t a' callers') := by
  unfold trap
  dsimp only
  cases (t.settle w.heap).1 with
  | thrown v => exact unwind_alike ha hc v
  | fault e => exact .done (.same _)

theorem giveBack_alike (hc : List.Forall₂ Caller.Alike callers callers') (v : Value) :
    Progress.Alike (giveBack w v callers) (giveBack w v callers') := by
  cases hc with
  | nil => exact .done (.same _)
  | cons hc hrest => exact .running ⟨resume_alike hc v, hrest, rfl⟩

theorem dispatch?_reloads (hm : vm.module.Reloads vm'.module) (member : MemberRef) :
    Option.Rel Method.Reloads (vm.module.dispatch? member) (vm'.module.dispatch? member) := by
  unfold Module.dispatch?
  rcases rel_cases (hm.type? member.owner) with ⟨hn, hn'⟩ | ⟨t, t', hs, hs', ht⟩
  · rw [hn, hn']
    exact .none
  · rw [hs, hs']
    exact forall₂_find? ht.2 fun d d' h => by rw [h.name_eq, h.paramTypes_eq]

theorem call_alike (hhost : vm.host = vm'.host) (hm : vm.module.Reloads vm'.module)
    {c c' : Caller} (h : c.Alike c') (hc : List.Forall₂ Caller.Alike callers callers')
    (member : MemberRef) (args : List Value) :
    Progress.Alike (vm.call w member args c callers) (vm'.call w member args c' callers') := by
  unfold call
  cases member.scope with
  | module =>
    dsimp only
    rcases rel_cases (dispatch?_reloads hm member) with ⟨hn, hn'⟩ | ⟨d, d', hs, hs', hd⟩
    · rw [hn, hn']
      exact .done (.same _)
    · rw [hs, hs']
      dsimp only
      rw [hc.length_eq]
      rcases hd.activate_alike member.owner args (callers'.length + 1) with
        ⟨e, he, he'⟩ | ⟨a, a', ha, ha', halike⟩
      · rw [he, he']
        exact .done (.same _)
      · rw [ha, ha']
        exact .running ⟨halike, .cons h hc, rfl⟩
  | library name =>
    dsimp only
    rw [hhost, h.activation.routine.describe_eq]
    split
    · exact .running ⟨resume_alike h _, hc, rfl⟩
    · exact trap_alike h.activation hc _

/-- One step of machines in lockstep. -/
theorem step_alike (hhost : vm.host = vm'.host) (hm : vm.module.Reloads vm'.module)
    {s s' : State} (h : s.Alike s') : Progress.Alike (vm.step s) (vm'.step s') := by
  obtain ⟨⟨r, f⟩, callers, w⟩ := s
  obtain ⟨⟨r', f'⟩, callers', w'⟩ := s'
  obtain ⟨⟨hr, rfl⟩, hc, rfl⟩ := h
  dsimp only at hr hc
  unfold step
  dsimp only
  rw [← Array.getElem?_toList, ← Array.getElem?_toList]
  cases hi : r.code.toList[f.pc]? with
  | none =>
    rw [forall₂_getElem?_none hr.code hi, hr.fullName_eq]
    exact .done (.same _)
  | some i =>
    obtain ⟨i', hi', halike⟩ := forall₂_getElem? hr.code hi
    rw [hi']
    dsimp only
    rw [← hm.imports]
    have ha (g : Frame) : Activation.Alike ⟨r, g⟩ ⟨r', g⟩ := ⟨hr, rfl⟩
    have hstep := Frame.step_alike hr halike f vm.module.imports w.heap
    generalize f.step r vm.module.imports w.heap i = x at hstep
    generalize f.step r' vm.module.imports w.heap i' = x' at hstep
    cases hstep with
    | same x =>
      match x with
      | .error t => exact trap_alike (ha f) hc t
      | .ok (.next g heap) => exact .running ⟨ha g, hc, rfl⟩
      | .ok (.ret v) => exact giveBack_alike hc v
      | .ok (.call member args keeps g) =>
        have hcaller : Caller.Alike ⟨⟨r, g⟩, keeps⟩ ⟨⟨r', g⟩, keeps⟩ := ⟨ha g, rfl⟩
        exact call_alike hhost hm hcaller hc member args
    | fault he => exact .done (.fault he _)

/-- Runs in lockstep, for any number of steps. -/
theorem run_alike (hhost : vm.host = vm'.host) (hm : vm.module.Reloads vm'.module) (fuel : Nat)
    {s s' : State} (h : s.Alike s') : Option.Rel Outcome.Alike (vm.run fuel s) (vm'.run fuel s') := by
  induction fuel generalizing s s' with
  | zero => exact .none
  | succ fuel ih =>
    unfold run
    have hp := step_alike hhost hm h
    generalize vm.step s = p, vm'.step s' = p' at hp
    cases hp with
    | running h => exact ih h
    | done h => exact .some h

theorem start_alike (hm : vm.module.Reloads vm'.module) (typeName method : String)
    (args : List Value) :
    Progress.Alike (vm.start w typeName method args) (vm'.start w typeName method args) := by
  unfold start
  rcases rel_cases (hm.type? typeName) with ⟨hn, hn'⟩ | ⟨t, t', hs, hs', ht⟩
  · rw [hn, hn']
    exact .done (.same _)
  · rw [hs, hs']
    have hd : Option.Rel Method.Reloads (t.method? method) (t'.method? method) :=
      forall₂_find? ht.2 fun d d' h => by rw [h.name_eq]
    dsimp only
    rcases rel_cases hd with ⟨hn, hn'⟩ | ⟨d, d', hs, hs', hd⟩
    · rw [hn, hn']
      exact .done (.same _)
    · rw [hs, hs']
      dsimp only
      rcases hd.activate_alike typeName args 0 with ⟨e, he, he'⟩ | ⟨a, a', ha, ha', halike⟩
      · rw [he, he']
        exact .done (.same _)
      · rw [ha, ha']
        exact .running ⟨halike, .nil, rfl⟩

theorem invoke_alike (hhost : vm.host = vm'.host) (hm : vm.module.Reloads vm'.module) (fuel : Nat)
    (w : World) (typeName method : String) (args : List Value) :
    Option.Rel Outcome.Alike (vm.invoke fuel w typeName method args)
      (vm'.invoke fuel w typeName method args) := by
  unfold invoke
  have hp := start_alike (w := w) hm typeName method args
  generalize vm.start w typeName method args = p, vm'.start w typeName method args = p' at hp
  cases hp with
  | running h => exact run_alike hhost hm fuel h
  | done h => exact .some h

/-- What one of two machines in lockstep gets to, the other gets to as well. -/
theorem steps_alike (hhost : vm.host = vm'.host) (hm : vm.module.Reloads vm'.module)
    {s t s' : State} (hs : s.Alike s') (h : vm.Steps s t) : ∃ t', vm'.Steps s' t' ∧ t.Alike t' := by
  induction h generalizing s' with
  | refl s => exact ⟨s', .refl s', hs⟩
  | next hstep _ ih =>
    have hp := step_alike hhost hm hs
    rw [hstep] at hp
    generalize hq : vm'.step s' = q at hp
    cases hp with
    | running h =>
      obtain ⟨t', ht', halike⟩ := ih h
      exact ⟨t', .next hq ht', halike⟩

theorem steps_alike' (hhost : vm.host = vm'.host) (hm : vm.module.Reloads vm'.module)
    {s s' t' : State} (hs : s.Alike s') (h : vm'.Steps s' t') : ∃ t, vm.Steps s t ∧ t.Alike t' := by
  induction h generalizing s with
  | refl s' => exact ⟨s, .refl s, hs⟩
  | next hstep _ ih =>
    have hp := step_alike hhost hm hs
    rw [hstep] at hp
    generalize hq : vm.step s = q at hp
    cases hp with
    | running h =>
      obtain ⟨t, ht, halike⟩ := ih h
      exact ⟨t, .next hq ht, halike⟩

/-- The worlds that runs in lockstep pass through are the same, also if they never end. -/
theorem reaches_world_iff (hhost : vm.host = vm'.host) (hm : vm.module.Reloads vm'.module)
    {typeName method : String} {args : List Value} {reached : World} :
    (∃ s, vm.Reaches w typeName method args s ∧ s.world = reached) ↔
      ∃ s, vm'.Reaches w typeName method args s ∧ s.world = reached := by
  have hp := start_alike (w := w) hm typeName method args
  constructor
  · rintro ⟨s, ⟨s₀, hstart, hsteps⟩, rfl⟩
    rw [hstart] at hp
    generalize hq : vm'.start w typeName method args = q at hp
    cases hp with
    | running h =>
      obtain ⟨s', hsteps', halike⟩ := steps_alike hhost hm h hsteps
      exact ⟨s', ⟨_, hq, hsteps'⟩, halike.world.symm⟩
  · rintro ⟨s, ⟨s₀, hstart, hsteps⟩, rfl⟩
    rw [hstart] at hp
    generalize hq : vm.start w typeName method args = q at hp
    cases hp with
    | running h =>
      obtain ⟨s', hsteps', halike⟩ := steps_alike' hhost hm h hsteps
      exact ⟨s', ⟨_, hq, hsteps'⟩, halike.world⟩

end Machine

/-- Saving bodies and reading them again changes nothing that can be observed: not the
listing, not what the verifier says, and of runs neither how they end nor what the world
is like on the way. -/
theorem reload_unobservable :
    (∀ (b : Body) (l : LabelledBody), b.encode = .ok l →
      ∃ b', l.decode = .ok b' ∧ b'.listing = b.listing ∧
        ∀ d imports, verifyBody d b' imports = verifyBody d b imports) ∧
    ∀ vm vm' : Machine, vm.host = vm'.host → vm.module.Reloads vm'.module →
      ∀ w typeName method args,
        (∀ fuel, Option.Rel Outcome.Alike (vm.invoke fuel w typeName method args)
          (vm'.invoke fuel w typeName method args)) ∧
        ∀ reached, (∃ s, vm.Reaches w typeName method args s ∧ s.world = reached) ↔
          ∃ s, vm'.Reaches w typeName method args s ∧ s.world = reached := by
  constructor
  · intro b l he
    obtain ⟨b', hd, -⟩ := Body.decode_of_encode he
    obtain ⟨halike, hmax⟩ := Body.alike_of_reload he hd
    exact ⟨b', hd, (halike.listing_eq hmax).symm,
      fun d imports => (verifyBody_alike ⟨rfl, rfl⟩ halike).symm⟩
  · intro vm vm' hhost hm w typeName method args
    exact ⟨fun fuel => Machine.invoke_alike hhost hm fuel w typeName method args,
      fun _ => Machine.reaches_world_iff hhost hm⟩

/-- A body whose ids are not in list order: it prints a line and returns. -/
def greeting : Body where
  stream := [(2, ⟨.br, .target 1⟩), (0, .plain .ret), (1, .ldstr "hello"), (3, .call 0),
    (4, ⟨.br, .target 0⟩)]
  maxStack := 1
  ids_perm := by decide

/-- A module that runs this body. -/
def greeter (b : Body) : Machine where
  module :=
    { name := "App"
      types := [⟨"A", [{ name := "Run", flags := .static, body? := some b }]⟩]
      imports := ⟨[⟨.library "System.Runtime", "System.Console", "WriteLine", [.string], .void,
        true⟩]⟩ }
  host := { console := true }

theorem greeting_reload :
    ∃ l b', greeting.encode = .ok l ∧ l.decode = .ok b' ∧ b'.ids ≠ greeting.ids ∧
      b'.listing = greeting.listing ∧
      verifyBody { name := "Run" } b' (greeter b').module.imports = .ok 1 ∧
      ∃ o o', (greeter greeting).invoke 9 {} "A" "Run" [] = some o ∧
        (greeter b').invoke 9 {} "A" "Run" [] = some o' ∧ o.Alike o' := by
  have he : greeting.encode = .ok greeting.positioned := by
    rw [Body.encode_eq_ok_iff]
    exact ⟨by decide, rfl⟩
  obtain ⟨b', hd, hlisting, hverify⟩ := reload_unobservable.1 greeting _ he
  obtain ⟨b₁, hd₁, hids, -⟩ := Body.decode_of_encode he
  obtain rfl : b₁ = b' := Except.ok.inj (hd₁.symm.trans hd)
  have hm : (greeter greeting).module.Reloads (greeter b₁).module :=
    ⟨.cons ⟨rfl, .cons (.reloaded _ rfl he hd) .nil⟩ .nil, rfl⟩
  have hrun := (reload_unobservable.2 (greeter greeting) (greeter b₁) rfl hm {} "A" "Run" []).1 9
  refine ⟨_, b₁, he, hd, ?_, hlisting, ?_, ?_⟩
  · rw [hids]
    decide
  · rw [hverify]
    show verifyBody _ greeting (greeter greeting).module.imports = .ok 1
    decide +kernel
  · rcases rel_cases hrun with ⟨hn, -⟩ | ⟨o, o', ho, ho', halike⟩
    · have hsome : ((greeter greeting).invoke 9 {} "A" "Run" []).isSome = true := by decide +kernel
      rw [hn] at hsome
      cases hsome
    · exact ⟨o, o', ho, ho', halike⟩

end Interpose
