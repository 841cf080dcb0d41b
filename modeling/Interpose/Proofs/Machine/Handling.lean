import Interpose.Proofs.Machine.CallDepth
import Interpose.Proofs.Machine.Lifetime
import Interpose.Proofs.Machine.Verified
/-!
# Exceptions that are being handled

What an activation handles changes where it departs from a position: where it leaves, or
catches an exception. It then no longer handles the exceptions whose handlers' code the
position is in, wherever control goes on. So what it handles follows from its departures
alone, and what a rethrow raises follows from that.

Results:
* `Departure.foldl_after`: what is handled after some departures, and what outlasts them.
* `exists_departs`, `has_of_departs`: what a step does to what an activation handles.
* `Within.has`: what a run does to it.
* `rethrow_raises`: what a rethrow in the code of a handler raises.
* `nested_rethrow_unhandled`: it fails where another region was left inside the handler.
-/
namespace Interpose

/-! ## Departures -/

/-- How an activation departs from a position: it leaves, or it catches an exception there. -/
inductive Departure
  | leaving (pos : Nat)
  | catching (pos : Nat) (handling : Handling)
deriving DecidableEq

namespace Departure

def pos : Departure → Nat
  | leaving pos => pos
  | catching pos _ => pos

/-- What is handled from then on. -/
def begun : Departure → List Handling
  | leaving _ => []
  | catching _ handling => [handling]

/-- What is handled after a departure, the latest first. -/
def after (handling : List Handling) (d : Departure) : List Handling :=
  d.begun ++ handling.filter fun h => !h.range.contains d.pos

end Departure

/-- None of these departures is from the handler's code. -/
def Handling.outlasts (log : List Departure) (h : Handling) : Bool :=
  log.all fun d => !h.range.contains d.pos

/-- Each departure adds what it begins to handle and drops what it departs from. -/
theorem Departure.foldl_after (log : List Departure) (handling : List Handling) :
    log.foldl after handling = log.foldl after [] ++ handling.filter (·.outlasts log) := by
  induction log generalizing handling with
  | nil => exact (List.filter_eq_self.2 fun _ _ => rfl).symm
  | cons d rest ih =>
    have hfirst : after handling d =
        after [] d ++ handling.filter fun h => !h.range.contains d.pos := by
      rw [after, after, List.filter_nil, List.append_nil]
    have hrest : (handling.filter fun h => !h.range.contains d.pos).filter (·.outlasts rest) =
        handling.filter (·.outlasts (d :: rest)) := by
      rw [List.filter_filter]
      exact List.filter_congr fun h _ => Bool.and_comm ..
    rw [List.foldl_cons, List.foldl_cons, ih (after handling d), ih (after [] d), hfirst,
      List.filter_append, hrest, List.append_assoc]

/-! ## Runs of one activation -/

/-- The activation runs, or waits, above these callers. -/
inductive State.Has (s : State) (base : List Caller) (a : Activation) : Prop
  | current (hc : s.callers = base) (ha : s.current = a)
  | waiting (front : List Caller) {c : Caller} (hc : s.callers = front ++ c :: base)
    (ha : c.activation = a)

namespace Machine

variable {vm : Machine} {s s' s'' : State} {base : List Caller} {a b : Activation} {e : Value}
  {range : Span} {log : List Departure} {d? : Option Departure}

/-- How the activation above these callers departs in a step, if it does. -/
inductive Departs (vm : Machine) (base : List Caller) (s s' : State) : Option Departure → Prop
  | leaving {i : Instruction} {g : Frame} {heap : Heap} (hbase : s.callers = base)
    (hi : s.current.routine.code[s.current.frame.pc]? = some i) (hop : i.opcode = .leave)
    (hs : s.current.frame.step s.current.routine vm.module.imports s.world.heap i =
      .ok (.next g heap)) :
    Departs vm base s s' (some (.leaving s.current.frame.pc))
  | catching {a : Activation} {e : Value} {r : Region} (ha : s.Has base a) (he : vm.Raises s e)
    (hbase : s'.callers = base)
    (hr : a.routine.regions.find?
      (fun r => r.tryRange.contains a.frame.pc && Frame.catches e r.kind) = some r) :
    Departs vm base s s' (some (.catching a.frame.pc ⟨r.handlerRange, e⟩))
  | stays (hleave : s.callers = base → ∀ i,
      s.current.routine.code[s.current.frame.pc]? = some i → i.opcode ≠ .leave)
    (hcatch : ∀ e, vm.Raises s e → s'.callers ≠ base) : Departs vm base s s' none

/-- A run goes from one state to another while the activation above these callers lives and
stays in a range of its code, with its departures. -/
inductive Within (vm : Machine) (base : List Caller) (range : Span) :
    State → List Departure → State → Prop
  | refl (s : State) : Within vm base range s [] s
  | step {s s' s'' : State} {d? : Option Departure} {log : List Departure}
    (h : vm.step s = .running s') (hlives : base.length ≤ s'.callers.length)
    (hin : ∀ a, s.Has base a → range.contains a.frame.pc = true)
    (hd : vm.Departs base s s' d?) (rest : Within vm base range s' log s'') :
    Within vm base range s (d?.toList ++ log) s''

theorem has_unique (h : s.Has base a) (h' : s.Has base b) : a = b := by
  cases h with
  | current hc ha =>
    cases h' with
    | current hc' hb => exact ha.symm.trans hb
    | @waiting front c hc' hb =>
      exact absurd (congrArg List.length (hc'.symm.trans hc)) (length_callers_ne front c base)
  | @waiting front c hc ha =>
    cases h' with
    | current hc' hb =>
      exact absurd (congrArg List.length (hc.symm.trans hc')) (length_callers_ne front c base)
    | @waiting front' c' hc' hb =>
      obtain ⟨-, hcons⟩ := List.append_inj' (hc.symm.trans hc') rfl
      obtain ⟨rfl, -⟩ := List.cons.inj hcons
      exact ha.symm.trans hb

/-- What holds of the activation above these callers. -/
theorem forall_has {P : Activation → Prop} (ha : s.Has base a) (h : P a) :
    ∀ b, s.Has base b → P b :=
  fun _ hb => has_unique ha hb ▸ h

/-- A run whose next step is no departure of the activation. -/
theorem Within.still (h : vm.step s = .running s') (hlives : base.length ≤ s'.callers.length)
    (hin : ∀ a, s.Has base a → range.contains a.frame.pc = true) (hd : vm.Departs base s s' none)
    (rest : vm.Within base range s' log s'') : vm.Within base range s log s'' :=
  .step h hlives hin hd rest

/-- A run whose next step is one of the activation, which goes on without leaving. -/
theorem Within.next {r : Routine} {f g : Frame} {w : World} {i : Instruction} {heap : Heap}
    (hi : r.code[f.pc]? = some i)
    (hs : f.step r vm.module.imports w.heap i = .ok (.next g heap)) (hop : i.opcode ≠ .leave)
    (hin : range.contains f.pc = true)
    (rest : vm.Within base range ⟨⟨r, g⟩, base, { w with heap := heap }⟩ log s'') :
    vm.Within base range ⟨⟨r, f⟩, base, w⟩ log s'' := by
  refine .still (step_of_next hi hs base) (Nat.le_refl _) (forall_has (.current rfl rfl) hin)
    (.stays (fun _ i' hi' => ?_) fun e he => absurd he (not_raises_of_next hi hs)) rest
  obtain rfl := Option.some.inj (hi.symm.trans hi')
  exact hop

/-- A run whose next step is one of the activation, which leaves. -/
theorem Within.leave {r : Routine} {f g : Frame} {w : World} {i : Instruction} {heap : Heap}
    (hi : r.code[f.pc]? = some i) (hop : i.opcode = .leave)
    (hs : f.step r vm.module.imports w.heap i = .ok (.next g heap))
    (hin : range.contains f.pc = true)
    (rest : vm.Within base range ⟨⟨r, g⟩, base, { w with heap := heap }⟩ log s'') :
    vm.Within base range ⟨⟨r, f⟩, base, w⟩ (.leaving f.pc :: log) s'' :=
  .step (step_of_next hi hs base) (Nat.le_refl _) (forall_has (.current rfl rfl) hin)
    (.leaving rfl hi hop hs) rest

/-- A run whose next step enters a method that the activation calls. -/
theorem Within.enter {r : Routine} {f : Frame} {w : World} {i : Instruction} {c : Caller}
    (hi : r.code[f.pc]? = some i) (hop : i.opcode ≠ .leave) (hin : range.contains f.pc = true)
    (h : vm.step ⟨⟨r, f⟩, base, w⟩ = .running ⟨a, c :: base, w⟩)
    (rest : vm.Within base range ⟨a, c :: base, w⟩ log s'') :
    vm.Within base range ⟨⟨r, f⟩, base, w⟩ log s'' := by
  refine .still h (Nat.le_succ _) (forall_has (.current rfl rfl) hin)
    (.stays (fun _ i' hi' => ?_) ?_) rest
  · obtain rfl := Option.some.inj (hi.symm.trans hi')
    exact hop
  · exact fun e he hbase => absurd (congrArg List.length hbase) (length_callers_ne [] c base)

/-- A run whose next step is taken while the activation waits. -/
theorem Within.waiting (s' : State) (front : List Caller) {c : Caller}
    (hs : s.callers = front ++ c :: base) (hin : range.contains c.activation.frame.pc = true)
    (h : vm.step s = .running s') (hlives : base.length ≤ s'.callers.length)
    (hcatch : ∀ e, vm.Raises s e → s'.callers ≠ base) (rest : vm.Within base range s' log s'') :
    vm.Within base range s log s'' := by
  refine .still h hlives (forall_has (.waiting front hs rfl) hin)
    (.stays (fun hbase => ?_) hcatch) rest
  exact absurd (congrArg List.length (hs.symm.trans hbase)) (length_callers_ne front c base)

/-! ## What a step does -/

/-- What an activation handles that catches an exception. -/
theorem handling_of_catch? {r : Region} (h : a.catch? e = some b)
    (hr : a.routine.regions.find?
      (fun r => r.tryRange.contains a.frame.pc && Frame.catches e r.kind) = some r) :
    b.routine = a.routine ∧ b.frame.handling =
      Departure.after a.frame.handling (.catching a.frame.pc ⟨r.handlerRange, e⟩) := by
  obtain ⟨f, hf, rfl⟩ := Option.map_eq_some_iff.1 h
  unfold Frame.catch? at hf
  rw [hr] at hf
  obtain rfl := Option.some.inj hf
  exact ⟨rfl, rfl⟩

/-- Where an exception does not end an activation, the activation catches it. -/
theorem catch?_of_unwind {w : World} (h : unwind w e a base = .running s')
    (hlives : base.length ≤ s'.callers.length) :
    ∃ b, a.catch? e = some b ∧ s' = ⟨b, base, w⟩ := by
  cases hc : a.catch? e with
  | some b =>
    refine ⟨b, rfl, ?_⟩
    obtain ⟨f, hf, rfl⟩ := Option.map_eq_some_iff.1 hc
    rw [unwind_of_catch hf] at h
    exact (Progress.running.inj h).symm
  | none =>
    rw [unwind_of_catch_none hc] at h
    cases base with
    | nil => cases h
    | cons c rest =>
      have := length_unwind_le h
      rw [List.length_cons] at hlives
      omega

/-- An exception that ends up in the activation above these callers is caught there. -/
theorem catch?_of_raises (ha : s.Has base a) (he : vm.Raises s e)
    (h : vm.step s = .running s') (hbase : s'.callers = base) :
    ∃ g, g.pc = a.frame.pc ∧ g.handling = a.frame.handling ∧
      (⟨a.routine, g⟩ : Activation).catch? e = some s'.current := by
  obtain ⟨w, g, hstep, hpc, hhandling⟩ := step_of_raises he
  have hunwind := hstep.symm.trans h
  have hlives : base.length ≤ s'.callers.length := Nat.le_of_eq (congrArg List.length hbase.symm)
  cases ha with
  | current hc ha =>
    subst ha
    rw [hc] at hunwind
    obtain ⟨b, hb, rfl⟩ := catch?_of_unwind hunwind hlives
    exact ⟨g, hpc, hhandling, hb⟩
  | @waiting front c hc ha =>
    subst ha
    rw [hc] at hunwind
    rcases unwind_cases hunwind with ⟨front', hfront⟩ | hreach
    · exact absurd (congrArg List.length (hfront.symm.trans hbase))
        (length_callers_ne front' c base)
    · obtain ⟨b, hb, rfl⟩ := catch?_of_unwind hreach hlives
      exact ⟨c.activation.frame, rfl, rfl, hb⟩

/-- What it then handles. -/
theorem has_of_raises {r : Region} (ha : s.Has base a) (he : vm.Raises s e)
    (h : vm.step s = .running s') (hbase : s'.callers = base)
    (hr : a.routine.regions.find?
      (fun r => r.tryRange.contains a.frame.pc && Frame.catches e r.kind) = some r) :
    s'.current.routine = a.routine ∧ s'.current.frame.handling =
      Departure.after a.frame.handling (.catching a.frame.pc ⟨r.handlerRange, e⟩) := by
  obtain ⟨g, hpc, hhandling, hcatch⟩ := catch?_of_raises ha he h hbase
  rw [← hpc] at hr
  rw [← hpc, ← hhandling]
  exact handling_of_catch? hcatch hr

theorem eq_leave_of_flow {op : Opcode} (h : op.flow = .leave) : op = .leave := by
  revert h
  cases op <;> decide

/-- An activation that does not depart handles what it did before. -/
theorem has_of_stays (ha : s.Has base a) (h : vm.step s = .running s')
    (hlives : base.length ≤ s'.callers.length)
    (hleave : s.callers = base → ∀ i,
      s.current.routine.code[s.current.frame.pc]? = some i → i.opcode ≠ .leave)
    (hcatch : ∀ e, vm.Raises s e → s'.callers ≠ base) :
    ∃ b, s'.Has base b ∧ b.routine = a.routine ∧ b.frame.handling = a.frame.handling := by
  have hstepped := stepped vm s
  generalize vm.step s = p at hstepped h
  cases hstepped with
  | fault w cause => cases h
  | @next i g heap hi hs =>
    cases h
    cases ha with
    | current hc ha =>
      subst ha
      have hshape := Frame.holds_step s.current.frame s.current.routine vm.module.imports
        s.world.heap i
      rw [hs] at hshape
      exact ⟨_, .current hc rfl, rfl,
        hshape.handling fun hf => hleave hc i hi (eq_leave_of_flow hf)⟩
    | waiting front hc ha => exact ⟨a, .waiting _ hc ha, rfl, rfl⟩
  | ret hi hs =>
    cases ha with
    | current hc ha =>
      rw [hc] at h
      cases base with
      | nil => cases h
      | cons c rest =>
        cases h
        exact absurd hlives (Nat.not_succ_le_self _)
    | @waiting front c hc ha =>
      subst ha
      rw [hc] at h
      cases front with
      | nil =>
        cases h
        refine ⟨_, .current rfl rfl, rfl, ?_⟩
        unfold resume
        cases c.keeps <;> rfl
      | cons x front =>
        cases h
        exact ⟨_, .waiting front rfl rfl, rfl, rfl⟩
  | enter hi hs =>
    cases h
    cases ha with
    | current hc ha =>
      subst ha
      exact ⟨_, .waiting [] (congrArg (List.cons _) hc) rfl, rfl, handling_of_call hs⟩
    | @waiting front c hc ha =>
      exact ⟨a, .waiting (_ :: front) (congrArg (List.cons _) hc) ha, rfl, rfl⟩
  | @member i member args keeps g v w hi hs =>
    cases h
    cases ha with
    | current hc ha =>
      subst ha
      refine ⟨_, .current hc rfl, rfl, Eq.trans ?_ (handling_of_call hs)⟩
      cases keeps <;> rfl
    | waiting front hc ha => exact ⟨a, .waiting _ hc ha, rfl, rfl⟩
  | raise hr hpc hl =>
    cases ha with
    | current hc ha =>
      rw [hc] at h
      obtain ⟨b, -, rfl⟩ := catch?_of_unwind h hlives
      exact absurd rfl (hcatch _ hr)
    | waiting front hc ha =>
      rw [hc] at h
      rcases unwind_cases h with ⟨front', hfront⟩ | hreach
      · exact ⟨a, .waiting front' hfront ha, rfl, rfl⟩
      · obtain ⟨b, -, rfl⟩ := catch?_of_unwind hreach hlives
        exact absurd rfl (hcatch _ hr)

/-- What a step does to what an activation handles. -/
theorem has_of_departs (ha : s.Has base a) (h : vm.step s = .running s')
    (hlives : base.length ≤ s'.callers.length) (hd : vm.Departs base s s' d?) :
    ∃ b, s'.Has base b ∧ b.routine = a.routine ∧
      b.frame.handling = d?.toList.foldl Departure.after a.frame.handling ∧
      ∀ d ∈ d?, d.pos = a.frame.pc := by
  cases hd with
  | @leaving i g heap hbase hi hop hs =>
    obtain rfl := has_unique (.current hbase rfl) ha
    have hstep : vm.step s = .running
        ⟨⟨s.current.routine, g⟩, s.callers, { s.world with heap := heap }⟩ := by
      simp only [step, hi, hs]
    obtain rfl := Progress.running.inj (hstep.symm.trans h)
    have hshape := Frame.holds_step s.current.frame s.current.routine vm.module.imports
      s.world.heap i
    rw [hs] at hshape
    have hflow : i.opcode.flow = .leave := by rw [hop]; rfl
    exact ⟨_, .current hbase rfl, rfl, hshape.dropped hflow, fun d hd => by cases hd; rfl⟩
  | catching ha' he hbase hr =>
    obtain rfl := has_unique ha' ha
    obtain ⟨hroutine, hhandling⟩ := has_of_raises ha' he h hbase hr
    exact ⟨_, .current hbase rfl, hroutine, hhandling, fun d hd => by cases hd; rfl⟩
  | stays hleave hcatch =>
    obtain ⟨b, hb, hroutine, hhandling⟩ := has_of_stays ha h hlives hleave hcatch
    exact ⟨b, hb, hroutine, hhandling, fun d hd => by cases hd⟩

/-- To leave is to go on somewhere or a fault. -/
theorem step_of_leave {f : Frame} {r : Routine} {imports : ImportTable} {h : Heap}
    {i : Instruction} (hop : i.opcode = .leave) :
    (∃ g, f.step r imports h i = .ok (.next g h)) ∨
      ∃ cause, f.step r imports h i = .error (.fault cause) := by
  unfold Frame.step Routine.target
  rw [hop]
  dsimp only
  cases i.target? with
  | none => exact .inr ⟨_, rfl⟩
  | some id =>
    dsimp only
    cases r.body.anchor id with
    | ok pos => exact .inl ⟨_, rfl⟩
    | error cause => exact .inr ⟨_, rfl⟩

/-- A step that an activation survives departs in one of these ways, or not at all. -/
theorem exists_departs (ha : s.Has base a) (h : vm.step s = .running s') :
    ∃ d?, vm.Departs base s s' d? := by
  by_cases hleave : s.callers = base ∧
      ∃ i, s.current.routine.code[s.current.frame.pc]? = some i ∧ i.opcode = .leave
  · obtain ⟨hbase, i, hi, hop⟩ := hleave
    rcases step_of_leave hop with ⟨g, hs⟩ | ⟨cause, hs⟩
    · exact ⟨_, .leaving hbase hi hop hs⟩
    · cases (step_of_fault hi hs s.callers).symm.trans h
  · by_cases hcatch : ∃ e, vm.Raises s e ∧ s'.callers = base
    · obtain ⟨e, he, hbase⟩ := hcatch
      obtain ⟨g, hpc, -, hb⟩ := catch?_of_raises ha he h hbase
      obtain ⟨f, hf, -⟩ := Option.map_eq_some_iff.1 hb
      obtain ⟨r, hr, -⟩ := Option.map_eq_some_iff.1 hf
      rw [hpc] at hr
      exact ⟨_, .catching ha he hbase hr⟩
    · exact ⟨none, .stays (fun hbase i hi hop => hleave ⟨hbase, i, hi, hop⟩)
        fun e he hbase => hcatch ⟨e, he, hbase⟩⟩

/-- What a run does to what an activation handles. -/
theorem Within.has (hrun : vm.Within base range s log s') (ha : s.Has base a) :
    ∃ b, s'.Has base b ∧ b.routine = a.routine ∧
      b.frame.handling = log.foldl Departure.after a.frame.handling ∧
      ∀ d ∈ log, range.contains d.pos = true := by
  induction hrun generalizing a with
  | refl s => exact ⟨a, ha, rfl, rfl, fun d hd => absurd hd List.not_mem_nil⟩
  | @step s s' s'' d? log h hlives hin hd rest ih =>
    obtain ⟨b, hb, hroutine, hhandling, hpos⟩ := has_of_departs ha h hlives hd
    obtain ⟨b', hb', hroutine', hhandling', hin'⟩ := ih hb
    refine ⟨b', hb', hroutine'.trans hroutine, ?_, fun d hd => ?_⟩
    · rw [hhandling', hhandling, List.foldl_append]
    · rcases List.mem_append.1 hd with hd | hd
      · rw [hpos d (Option.mem_toList.1 hd)]
        exact hin a ha
      · exact hin' d hd

/-! ## Rethrowing -/

/-- A rethrow raises the latest exception that is being handled. -/
theorem step_of_rethrow {i : Instruction}
    (hi : s.current.routine.code[s.current.frame.pc]? = some i) (hop : i.opcode = .rethrow) :
    vm.step s = match s.current.frame.handling with
      | [] => faulted s.world (.noActiveException s.current.frame.pc)
      | h :: _ => unwind s.world h.exception s.current s.callers := by
  cases hhandling : s.current.frame.handling with
  | nil =>
    refine step_of_fault hi ?_ s.callers
    unfold Frame.step
    simp only [hop, hhandling]
  | cons h rest =>
    refine step_of_thrown hi ?_ s.callers
    unfold Frame.step
    simp only [hop, hhandling]

/-- What a rethrow in the code of a handler raises. It is the exception that this handler
caught if the activation has not departed from anywhere in between: it has left nothing, and
caught nothing else. A call does not count, whatever happens in it. Once the activation has
departed from a position in the handler, this exception is not handled any more. The rethrow
then raises the latest exception that the activation has caught since and still handles, or
an older one, and fails where there is none. -/
theorem rethrow_raises {s₀ s₁ s₂ : State} {pos : Nat} {i : Instruction}
    (hcatch : vm.step s₀ = .running s₁)
    (hcaught : vm.Departs base s₀ s₁ (some (.catching pos ⟨range, e⟩)))
    (hrun : vm.Within base range s₁ log s₂) (hbase : s₂.callers = base)
    (hi : s₂.current.routine.code[s₂.current.frame.pc]? = some i) (hop : i.opcode = .rethrow) :
    ∃ older, s₁.current.frame.handling = ⟨range, e⟩ :: older ∧
      (log = [] → vm.step s₂ = unwind s₂.world e s₂.current base ∧
        ∀ w pos, vm.step s₂ ≠ faulted w (.noActiveException pos)) ∧
      (log ≠ [] → vm.step s₂ =
        match log.foldl Departure.after [] ++ older.filter (·.outlasts log) with
        | [] => faulted s₂.world (.noActiveException s₂.current.frame.pc)
        | h :: _ => unwind s₂.world h.exception s₂.current base) := by
  have hstep : vm.step s₂ = _ := step_of_rethrow hi hop
  cases hcaught with
  | @catching a e r ha he hbase₁ hr =>
    have hbegun : s₁.current.frame.handling = ⟨r.handlerRange, e⟩ ::
        a.frame.handling.filter fun h => !h.range.contains a.frame.pc :=
      (has_of_raises ha he hcatch hbase₁ hr).2
    obtain ⟨b, hb, -, hhandling, hin⟩ := hrun.has (.current hbase₁ rfl)
    obtain rfl := has_unique (.current hbase rfl) hb
    refine ⟨_, hbegun, fun hnone => ?_, fun hsome => ?_⟩
    · subst hnone
      rw [hhandling, hbegun, hbase] at hstep
      refine ⟨hstep, fun w pos h => ?_⟩
      exact unwind_ne_fault _ _ _ _ _ (hstep.symm.trans h)
    · -- the first departure is from a position in the handler
      have hdropped : (⟨r.handlerRange, e⟩ : Handling).outlasts log = false := by
        obtain ⟨d, hd⟩ := List.exists_mem_of_ne_nil log hsome
        refine List.all_eq_false.2 ⟨d, hd, ?_⟩
        rw [hin d hd]
        exact Bool.false_ne_true
      rw [hhandling, hbegun, Departure.foldl_after, List.filter_cons_of_neg (by simp [hdropped]),
        hbase] at hstep
      exact hstep

/-- A static method of the type `A`, made ready to run. -/
def ready (name : String) (b : Body) (regions : List Region) : Routine :=
  ⟨"A", { name := name, flags := .static, body? := some b }, b, b.code.toArray, regions⟩

/-- A method that throws an exception and catches it. -/
def quiet : Routine :=
  ready "Quiet"
    { Body.ofList [.ldcI4 8, .plain .throw, .plain .pop, .leave 4, .plain .ret] with
      handlers := [⟨.catchAll, 0, some 2, 2, some 4⟩] }
    [⟨.catchAll, ⟨0, 2⟩, ⟨2, 4⟩⟩]

/-- What it leaves and catches is its own: the caller does not depart. -/
theorem within_quiet {c : Caller} {w : World} (hin : range.contains c.activation.frame.pc = true) :
    vm.Within base range ⟨⟨quiet, ⟨[], [], [], [], 0⟩⟩, c :: base, w⟩ []
      ⟨resume c .null, base, w⟩ := by
  have habove : c :: base ≠ base :=
    fun h => length_callers_ne [] c base (congrArg List.length h)
  have hlives : base.length ≤ (c :: base).length := Nat.le_succ _
  refine .waiting ⟨⟨quiet, ⟨[], [], [.int32 8], [], 1⟩⟩, c :: base, w⟩ [] rfl hin rfl
    hlives (fun _ _ => habove) ?_
  refine .waiting ⟨⟨quiet, ⟨[], [], [.int32 8], [⟨⟨2, 4⟩, .int32 8⟩], 2⟩⟩, c :: base, w⟩ []
    rfl hin rfl hlives (fun _ _ => habove) ?_
  refine .waiting ⟨⟨quiet, ⟨[], [], [], [⟨⟨2, 4⟩, .int32 8⟩], 3⟩⟩, c :: base, w⟩ []
    rfl hin rfl hlives (fun _ _ => habove) ?_
  refine .waiting ⟨⟨quiet, ⟨[], [], [], [], 4⟩⟩, c :: base, w⟩ [] rfl hin rfl
    hlives (fun _ _ => habove) ?_
  -- it returns, and so does not end by an exception
  exact .waiting _ [] rfl hin rfl (Nat.le_refl _)
    (fun e he => absurd he (not_raises_of_ret (i := .plain .ret) rfl rfl)) (.refl _)

/-- A method with a handler that calls it before it rethrows. -/
def relay : Routine :=
  ready "Go"
    { Body.ofList [.ldcI4 7, .plain .throw, .plain .pop, .call 0, .plain .rethrow] with
      handlers := [⟨.catchAll, 0, some 2, 2, none⟩] }
    [⟨.catchAll, ⟨0, 2⟩, ⟨2, 5⟩⟩]

theorem relay_rethrow :
    let vm : Machine := {
      module := {
        name := "App"
        types := [⟨"A", [relay.method, quiet.method]⟩]
        imports := ⟨[⟨.module, "A", "Quiet", [], .void, true⟩]⟩ } }
    ∃ s₀ s₁ s₂, vm.Reaches {} "A" "Go" [] s₀ ∧ vm.step s₀ = .running s₁ ∧
      vm.Departs [] s₀ s₁ (some (.catching 1 ⟨⟨2, 5⟩, .int32 7⟩)) ∧
      vm.Within [] ⟨2, 5⟩ s₁ [] s₂ ∧ s₂.current.frame.pc = 4 ∧
      vm.step s₂ = .done ⟨.error (.thrown (.int32 7)), {}⟩ := by
  intro vm
  have hcaught : vm.Departs [] ⟨⟨relay, ⟨[], [], [.int32 7], [], 1⟩⟩, [], {}⟩
      ⟨⟨relay, ⟨[], [], [.int32 7], [⟨⟨2, 5⟩, .int32 7⟩], 2⟩⟩, [], {}⟩
      (some (.catching 1 ⟨⟨2, 5⟩, .int32 7⟩)) :=
    .catching (a := ⟨relay, ⟨[], [], [.int32 7], [], 1⟩⟩) (r := ⟨.catchAll, ⟨0, 2⟩, ⟨2, 5⟩⟩)
      (.current rfl rfl) (.instruction (i := .plain .throw) rfl rfl rfl) rfl rfl
  have hrun : vm.Within [] ⟨2, 5⟩
      ⟨⟨relay, ⟨[], [], [.int32 7], [⟨⟨2, 5⟩, .int32 7⟩], 2⟩⟩, [], {}⟩ []
      ⟨⟨relay, ⟨[], [], [], [⟨⟨2, 5⟩, .int32 7⟩], 4⟩⟩, [], {}⟩ :=
    .next (i := .plain .pop) rfl rfl (by decide) rfl
      (.enter (i := .call 0) rfl (by decide) rfl rfl (within_quiet rfl))
  obtain ⟨-, -, hraised, -⟩ := rethrow_raises rfl hcaught hrun rfl rfl rfl
  exact ⟨_, _, _, ⟨_, rfl, .next rfl (.refl _)⟩, rfl, hcaught, hrun, rfl, (hraised rfl).1⟩

/-- A method with a handler that leaves a region of its own before it rethrows. -/
def nested : Routine :=
  ready "Go"
    { Body.ofList [.ldcI4 7, .plain .throw, .plain .pop, .plain .nop, .leave 7, .plain .pop,
        .leave 7, .plain .rethrow] with
      handlers := [⟨.catchAll, 3, some 5, 5, some 7⟩, ⟨.catchAll, 0, some 2, 2, none⟩] }
    [⟨.catchAll, ⟨3, 5⟩, ⟨5, 7⟩⟩, ⟨.catchAll, ⟨0, 2⟩, ⟨2, 8⟩⟩]

/-- The rethrow is still in the handler, and the region in it was left normally. But there is
nothing left that could be raised. -/
theorem nested_rethrow_unhandled :
    let m : Module := { name := "App", types := [⟨"A", [nested.method]⟩] }
    let vm : Machine := { module := m }
    m.Verified ∧ ∃ s₀ s₁ s₂ i, vm.Reaches {} "A" "Go" [] s₀ ∧ vm.step s₀ = .running s₁ ∧
      vm.Departs [] s₀ s₁ (some (.catching 1 ⟨⟨2, 8⟩, .int32 7⟩)) ∧
      vm.Within [] ⟨2, 8⟩ s₁ [.leaving 4] s₂ ∧ s₂.callers = [] ∧ s₂.current.frame.pc = 7 ∧
      s₂.current.routine.code[7]? = some i ∧ i.opcode = .rethrow ∧
      vm.step s₂ = faulted s₂.world (.noActiveException 7) := by
  intro m vm
  have hverified : m.Verified := by
    intro d b hd hb
    obtain ⟨t, ht, hd⟩ := hd
    cases List.mem_singleton.1 ht
    cases List.mem_singleton.1 hd
    cases hb
    exact ⟨1, toOption_eq_some.1 (by decide +kernel)⟩
  have hcaught : vm.Departs [] ⟨⟨nested, ⟨[], [], [.int32 7], [], 1⟩⟩, [], {}⟩
      ⟨⟨nested, ⟨[], [], [.int32 7], [⟨⟨2, 8⟩, .int32 7⟩], 2⟩⟩, [], {}⟩
      (some (.catching 1 ⟨⟨2, 8⟩, .int32 7⟩)) :=
    .catching (a := ⟨nested, ⟨[], [], [.int32 7], [], 1⟩⟩) (r := ⟨.catchAll, ⟨0, 2⟩, ⟨2, 8⟩⟩)
      (.current rfl rfl) (.instruction (i := .plain .throw) rfl rfl rfl) rfl rfl
  have hrun : vm.Within [] ⟨2, 8⟩
      ⟨⟨nested, ⟨[], [], [.int32 7], [⟨⟨2, 8⟩, .int32 7⟩], 2⟩⟩, [], {}⟩ [.leaving 4]
      ⟨⟨nested, ⟨[], [], [], [], 7⟩⟩, [], {}⟩ :=
    .next (i := .plain .pop) rfl rfl (by decide) rfl
      (.next (i := .plain .nop) rfl rfl (by decide) rfl
        (.leave (i := .leave 7) rfl rfl rfl rfl (.refl _)))
  exact ⟨hverified, _, _, _, .plain .rethrow, ⟨_, rfl, .next rfl (.refl _)⟩, rfl, hcaught, hrun,
    rfl, rfl, rfl, rfl, rfl⟩

end Machine

end Interpose
