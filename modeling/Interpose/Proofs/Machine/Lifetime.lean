import Interpose.Proofs.Machine.Step
import Interpose.Proofs.Machine.Straight
/-!
# The life of one activation

A run as long as one activation of it lives, the activations that it calls included, and
the calls that this activation makes. The activation is told by its depth, the number of
its callers. It ends by returning, or by an exception that neither it nor what it has
called catches.

Results:
* `lives_of_lifetime`, `returned?_eq_some_iff`: the life of an activation and its return, as
  computed.
* `stepped`: what a step of the machine can be.
* `Lives.eq_of_returns`, `Lives.eq_of_uncaught`: how the life of an activation ends.
* `suspended_cases`: what becomes of an activation that waits for a call.
* `Lives.split`: a run that enters a stretch without branches passes its end, or stops
  within it.
-/
namespace Interpose
namespace Machine

variable {vm : Machine} {s s' s'' : State} {n : Nat} {e v : Value}

/-- The step from a state throws an exception. -/
inductive Raises (vm : Machine) (s : State) (e : Value) : Prop
  | instruction {i : Instruction} {t : Trap} {heap : Heap}
    (hi : s.current.routine.code[s.current.frame.pc]? = some i)
    (hs : s.current.frame.step s.current.routine vm.module.imports s.world.heap i = .error t)
    (ht : t.settle s.world.heap = (.thrown e, heap)) : Raises vm s e
  | member {i : Instruction} {member : MemberRef} {args : List Value} {keeps : Bool} {g : Frame}
    {library : String} {t : Trap} {w : World} {heap : Heap}
    (hi : s.current.routine.code[s.current.frame.pc]? = some i)
    (hs : s.current.frame.step s.current.routine vm.module.imports s.world.heap i =
      .ok (.call member args keeps g))
    (hscope : member.scope = .library library)
    (hc : vm.host.call s.world member args s.current.routine.describe = (.error t, w))
    (ht : t.settle w.heap = (.thrown e, heap)) : Raises vm s e

/-- The activation at this depth ends by returning a value. -/
def Returns (vm : Machine) (n : Nat) (s : State) (v : Value) : Prop :=
  s.callers.length = n ∧ ∃ i, s.current.routine.code[s.current.frame.pc]? = some i ∧
    s.current.frame.step s.current.routine vm.module.imports s.world.heap i = .ok (.ret v)

/-- The value that the activation at this depth returns by the next step, if it returns. -/
def returned? (vm : Machine) (n : Nat) (s : State) : Option Value :=
  match s.current.routine.code[s.current.frame.pc]? with
  | none => none
  | some i =>
    match s.current.frame.step s.current.routine vm.module.imports s.world.heap i with
    | .ok (.ret v) => if s.callers.length = n then some v else none
    | _ => none

theorem returned?_eq_some_iff : vm.returned? n s = some v ↔ vm.Returns n s v := by
  unfold returned?
  constructor
  · intro h
    split at h
    · cases h
    · next i hi =>
      split at h
      · next u hs =>
        obtain ⟨hn, hu⟩ := Option.ite_none_right_eq_some.1 h
        cases hu
        exact ⟨hn, i, hi, hs⟩
      · cases h
  · rintro ⟨hn, i, hi, hs⟩
    simp only [hi, hs, if_pos hn]

/-- The activation at this depth ends by an exception. -/
structure Uncaught (vm : Machine) (n : Nat) (s : State) (e : Value) : Prop where
  raises : vm.Raises s e
  depth : n ≤ s.callers.length
  current : s.current.catch? e = none
  callers : ∀ c ∈ s.callers.take (s.callers.length - n), c.activation.catch? e = none

/-- The call that a step makes, if it makes one. -/
def call? (vm : Machine) (s : State) : Option Call :=
  match s.current.routine.code[s.current.frame.pc]? with
  | none => none
  | some i =>
    match s.current.frame.step s.current.routine vm.module.imports s.world.heap i with
    | .ok (.call member args _ _) => some ⟨s.current.frame.pc, member, args, s.world.heap⟩
    | _ => none

theorem exists_of_call? {c : Call} (h : vm.call? s = some c) :
    ∃ i member args keeps g, s.current.routine.code[s.current.frame.pc]? = some i ∧
      s.current.frame.step s.current.routine vm.module.imports s.world.heap i =
        .ok (.call member args keeps g) ∧
      c = ⟨s.current.frame.pc, member, args, s.world.heap⟩ := by
  unfold call? at h
  split at h
  · cases h
  · next i hi =>
    split at h
    · next member args keeps g hs =>
      cases h
      exact ⟨i, member, args, keeps, g, hi, hs, rfl⟩
    · cases h

/-- The call of the activation at this depth. -/
def calls (vm : Machine) (n : Nat) (s : State) : List Call :=
  if s.callers.length = n then (vm.call? s).toList else []

/-- A run goes from one state to another while the activation at a depth lives, which makes
these calls. -/
inductive Lives (vm : Machine) (n : Nat) : State → List Call → State → Prop
  | refl (s : State) : Lives vm n s [] s
  | step {s s' s'' : State} {log : List Call} (h : vm.step s = .running s')
    (hn : n ≤ s'.callers.length) (rest : Lives vm n s' log s'') :
    Lives vm n s (vm.calls n s ++ log) s''

/-- So many steps of a run while the activation at a depth lives: its calls, and where they
lead. -/
def lifetime (vm : Machine) (n : Nat) : Nat → State → Option (List Call × State)
  | 0, s => some ([], s)
  | steps + 1, s =>
    match vm.step s with
    | .done _ => none
    | .running s' =>
      if n ≤ s'.callers.length then
        (vm.lifetime n steps s').map fun rest => (vm.calls n s ++ rest.1, rest.2)
      else none

theorem lives_of_lifetime {steps : Nat} {log : List Call}
    (h : vm.lifetime n steps s = some (log, s')) : vm.Lives n s log s' := by
  induction steps generalizing s log with
  | zero =>
    cases h
    exact .refl _
  | succ steps ih =>
    rw [lifetime] at h
    split at h
    · cases h
    · next s₁ hstep =>
      split at h
      · next hn =>
        obtain ⟨⟨rest, s₂⟩, hrest, hlog⟩ := Option.map_eq_some_iff.1 h
        cases hlog
        exact .step hstep hn (ih hrest)
      · cases h

/-! ## Steps -/

/-- What a step can be. -/
inductive Stepped (vm : Machine) (s : State) : Progress → Prop
  | fault (w : World) (cause : MachineFault) : Stepped vm s (faulted w cause)
  | next {i : Instruction} {g : Frame} {heap : Heap}
    (hi : s.current.routine.code[s.current.frame.pc]? = some i)
    (hs : s.current.frame.step s.current.routine vm.module.imports s.world.heap i =
      .ok (.next g heap)) :
    Stepped vm s (.running ⟨⟨s.current.routine, g⟩, s.callers, { s.world with heap := heap }⟩)
  | ret {i : Instruction} {v : Value}
    (hi : s.current.routine.code[s.current.frame.pc]? = some i)
    (hs : s.current.frame.step s.current.routine vm.module.imports s.world.heap i = .ok (.ret v)) :
    Stepped vm s (giveBack s.world v s.callers)
  | enter {i : Instruction} {member : MemberRef} {args : List Value} {keeps : Bool} {g : Frame}
    {a : Activation} (hi : s.current.routine.code[s.current.frame.pc]? = some i)
    (hs : s.current.frame.step s.current.routine vm.module.imports s.world.heap i =
      .ok (.call member args keeps g)) :
    Stepped vm s (.running ⟨a, ⟨⟨s.current.routine, g⟩, keeps⟩ :: s.callers, s.world⟩)
  | member {i : Instruction} {member : MemberRef} {args : List Value} {keeps : Bool} {g : Frame}
    {v : Value} {w : World} (hi : s.current.routine.code[s.current.frame.pc]? = some i)
    (hs : s.current.frame.step s.current.routine vm.module.imports s.world.heap i =
      .ok (.call member args keeps g)) :
    Stepped vm s (.running ⟨⟨s.current.routine, g.resumed keeps v⟩, s.callers, w⟩)
  | raise {e : Value} {w : World} {g : Frame} (hr : vm.Raises s e)
    (hpc : g.pc = s.current.frame.pc) (hl : g.locals = s.current.frame.locals) :
    Stepped vm s (unwind w e ⟨s.current.routine, g⟩ s.callers)

/-- A call takes values from the stack and leaves the frame as it was otherwise. -/
theorem frame_of_call {f g : Frame} {r : Routine} {imports : ImportTable} {h : Heap}
    {i : Instruction} {member : MemberRef} {args : List Value} {keeps : Bool}
    (hs : f.step r imports h i = .ok (.call member args keeps g)) :
    g.pc = f.pc ∧ g.locals = f.locals := by
  have hshape := Frame.holds_step f r imports h i
  rw [hs] at hshape
  exact ⟨hshape.pc, hshape.locals⟩

/-- What is being handled stays so during a call. -/
theorem handling_of_call {f g : Frame} {r : Routine} {imports : ImportTable} {h : Heap}
    {i : Instruction} {member : MemberRef} {args : List Value} {keeps : Bool}
    (hs : f.step r imports h i = .ok (.call member args keeps g)) : g.handling = f.handling := by
  have hshape := Frame.holds_step f r imports h i
  rw [hs] at hshape
  exact hshape.handling

theorem stepped_trap {w : World} {t : Trap} {g : Frame}
    (hr : ∀ e heap, t.settle w.heap = (.thrown e, heap) → vm.Raises s e)
    (hpc : g.pc = s.current.frame.pc) (hl : g.locals = s.current.frame.locals) :
    vm.Stepped s (trap w t ⟨s.current.routine, g⟩ s.callers) := by
  unfold trap
  cases hset : t.settle w.heap with
  | mk failure heap =>
    cases failure with
    | thrown e => exact .raise (hr e heap hset) hpc hl
    | fault cause => exact .fault _ cause

/-- What a step of the machine can be. -/
theorem stepped (vm : Machine) (s : State) : vm.Stepped s (vm.step s) := by
  unfold step
  dsimp only
  split
  · exact .fault _ _
  · next i hi =>
    split
    · next t ht => exact stepped_trap (fun e heap hset => .instruction hi ht hset) rfl rfl
    · next g heap hs => exact .next hi hs
    · next v hs => exact .ret hi hs
    · next member args keeps g hs =>
      unfold Machine.call
      split
      · split
        · exact .fault _ _
        · split
          · exact .fault _ _
          · exact .enter hi hs
      · next library hscope =>
        split
        · next v w hc => exact .member hi hs
        · next t w hc =>
          obtain ⟨hpc, hl⟩ := frame_of_call hs
          exact stepped_trap (fun e heap hset => .member hi hs hscope hc hset) hpc hl

/-! ## Activations that wait -/

theorem unwind_of_catch {w : World} {r : Routine} {f g : Frame}
    (h : f.catch? r.regions e = some g) (callers : List Caller) :
    unwind w e ⟨r, f⟩ callers = .running ⟨⟨r, g⟩, callers, w⟩ := by
  cases callers <;> simp only [unwind, Activation.catch?, h, Option.map_some]

/-- An exception is caught above a caller, or it reaches this caller uncaught. -/
theorem unwind_cases {w : World} {a : Activation} {front base : List Caller} {c : Caller}
    (h : unwind w e a (front ++ c :: base) = .running s') :
    (∃ front', s'.callers = front' ++ c :: base) ∨
      unwind w e c.activation base = .running s' := by
  induction front generalizing a with
  | nil =>
    rw [List.nil_append] at h
    unfold unwind at h
    cases hc : a.catch? e with
    | some b =>
      rw [hc] at h
      cases h
      exact .inl ⟨[], rfl⟩
    | none =>
      rw [hc] at h
      exact .inr h
  | cons x rest ih =>
    rw [List.cons_append] at h
    unfold unwind at h
    cases hc : a.catch? e with
    | some b =>
      rw [hc] at h
      cases h
      exact .inl ⟨x :: rest, rfl⟩
    | none =>
      rw [hc] at h
      exact ih h

/-- A caller goes on waiting, or it is given a value, or an exception reaches it. -/
theorem suspended_cases {front base : List Caller} {c : Caller}
    (hs : s.callers = front ++ c :: base) (h : vm.step s = .running s') :
    (∃ front', s'.callers = front' ++ c :: base) ∨
      (∃ v, s' = ⟨resume c v, base, s.world⟩) ∨
      ∃ e w, unwind w e c.activation base = .running s' := by
  have hstepped := stepped vm s
  generalize vm.step s = p at hstepped h
  cases hstepped with
  | fault w cause => cases h
  | next hi hs' =>
    cases h
    exact .inl ⟨front, hs⟩
  | ret hi hs' =>
    rw [hs] at h
    cases front with
    | nil =>
      cases h
      exact .inr (.inl ⟨_, rfl⟩)
    | cons x rest =>
      cases h
      exact .inl ⟨rest, rfl⟩
  | enter hi hs' =>
    cases h
    exact .inl ⟨_ :: front, congrArg (List.cons _) hs⟩
  | member hi hs' =>
    cases h
    exact .inl ⟨front, hs⟩
  | raise hr hpc hl =>
    rw [hs] at h
    rcases unwind_cases h with hfront | hreach
    · exact .inl hfront
    · exact .inr (.inr ⟨_, _, hreach⟩)

theorem length_callers_ne (front : List Caller) (c : Caller) (base : List Caller) :
    (front ++ c :: base).length ≠ base.length := by
  rw [List.length_append, List.length_cons]
  omega

/-- An exception that ends an activation is not caught by it where it waits. -/
theorem uncaught_at {front base : List Caller} {c : Caller} (hs : s.callers = front ++ c :: base)
    (h : vm.Uncaught base.length s e) : c.activation.catch? e = none := by
  refine h.callers c ?_
  have hlen : s.callers.length - base.length = (front ++ [c]).length := by
    rw [hs, List.length_append, List.length_append, List.length_cons, List.length_singleton]
    omega
  have hsplit : s.callers = (front ++ [c]) ++ base := by
    rw [hs, List.append_assoc, List.singleton_append]
  rw [hlen, hsplit, List.take_left]
  exact List.mem_append_right _ List.mem_cons_self

/-! ## Ends -/

/-- Takes an exception to the caller, or ends the run with it. -/
def handOn (w : World) (e : Value) : List Caller → Progress
  | [] => .done ⟨.error (.thrown e), w⟩
  | c :: rest => unwind w e c.activation rest

theorem unwind_of_catch_none {w : World} {a : Activation} (h : a.catch? e = none)
    (callers : List Caller) : unwind w e a callers = handOn w e callers := by
  cases callers <;> simp only [unwind, handOn, h]

theorem step_of_thrown {r : Routine} {f : Frame} {w : World} {i : Instruction}
    (hi : r.code[f.pc]? = some i)
    (hs : f.step r vm.module.imports w.heap i = .error (.failed (.thrown e)))
    (callers : List Caller) : vm.step ⟨⟨r, f⟩, callers, w⟩ = unwind w e ⟨r, f⟩ callers := by
  unfold step
  simp only [hi, hs]
  rfl

theorem step_of_ret {r : Routine} {f : Frame} {w : World} {i : Instruction}
    (hi : r.code[f.pc]? = some i)
    (hs : f.step r vm.module.imports w.heap i = .ok (.ret v)) (callers : List Caller) :
    vm.step ⟨⟨r, f⟩, callers, w⟩ = giveBack w v callers := by
  unfold step
  simp only [hi, hs]

theorem step_of_fault {r : Routine} {f : Frame} {w : World} {i : Instruction}
    {cause : MachineFault} (hi : r.code[f.pc]? = some i)
    (hs : f.step r vm.module.imports w.heap i = .error (.fault cause)) (callers : List Caller) :
    vm.step ⟨⟨r, f⟩, callers, w⟩ = faulted w cause := by
  unfold step
  simp only [hi, hs]
  rfl

theorem length_unwind_le {w : World} {a : Activation} {callers : List Caller}
    (h : unwind w e a callers = .running s') : s'.callers.length ≤ callers.length := by
  induction callers generalizing a with
  | nil =>
    unfold unwind at h
    cases hc : a.catch? e with
    | some b =>
      rw [hc] at h
      cases h
      exact Nat.le_refl _
    | none =>
      rw [hc] at h
      cases h
  | cons c rest ih =>
    cases hc : a.catch? e with
    | some b =>
      simp only [unwind, hc] at h
      cases h
      exact Nat.le_refl _
    | none =>
      rw [unwind_of_catch_none hc] at h
      exact Nat.le_succ_of_le (ih h)

/-- What none of the activations down to a depth catches ends the one at that depth. -/
theorem length_unwind_lt {w : World} {a : Activation} {callers : List Caller}
    (hn : n ≤ callers.length) (ha : a.catch? e = none)
    (hall : ∀ c ∈ callers.take (callers.length - n), c.activation.catch? e = none)
    (h : unwind w e a callers = .running s') : s'.callers.length < n := by
  induction callers generalizing a with
  | nil =>
    simp only [unwind, ha] at h
    cases h
  | cons c rest ih =>
    rw [unwind_of_catch_none ha] at h
    rw [List.length_cons] at hn hall
    rcases Nat.lt_or_eq_of_le hn with hlt | rfl
    · have hsub : rest.length + 1 - n = (rest.length - n) + 1 := by omega
      rw [hsub, List.take_succ_cons] at hall
      exact ih (by omega) (hall c List.mem_cons_self)
        (fun c' hc' => hall c' (List.mem_cons_of_mem _ hc')) h
    · exact Nat.lt_succ_of_le (length_unwind_le h)

/-- Whether an exception is caught depends on where it is raised. -/
theorem catch_eq_none_of_pc {r : Routine} {f g : Frame} (hpc : g.pc = f.pc)
    (h : (⟨r, f⟩ : Activation).catch? e = none) : (⟨r, g⟩ : Activation).catch? e = none := by
  unfold Activation.catch? Frame.catch? at h ⊢
  dsimp only at h ⊢
  rw [hpc]
  simpa only [Option.map_eq_none_iff] using h

theorem step_of_raises (h : vm.Raises s e) :
    ∃ w g, vm.step s = unwind w e ⟨s.current.routine, g⟩ s.callers ∧
      g.pc = s.current.frame.pc ∧ g.handling = s.current.frame.handling := by
  cases h with
  | @instruction i t heap hi hs ht =>
    refine ⟨{ s.world with heap := heap }, s.current.frame, ?_, rfl, rfl⟩
    unfold step trap
    simp only [hi, hs, ht]
  | @member i member args keeps g library t w heap hi hs hscope hc ht =>
    refine ⟨{ w with heap := heap }, g, ?_, (frame_of_call hs).1, handling_of_call hs⟩
    unfold step
    simp only [hi, hs]
    unfold Machine.call trap
    simp only [hscope, hc, ht]

/-- An activation that returns lives no longer. -/
theorem Lives.eq_of_returns {log : List Call} (h : vm.Returns n s v)
    (hl : vm.Lives n s log s') : log = [] ∧ s' = s := by
  cases hl with
  | refl s => exact ⟨rfl, rfl⟩
  | step hstep hn hrest =>
    obtain ⟨hdepth, i, hi, hs⟩ := h
    simp only [Machine.step, hi, hs] at hstep
    cases hcallers : s.callers with
    | nil =>
      rw [hcallers] at hstep
      cases hstep
    | cons c rest =>
      rw [hcallers] at hstep hdepth
      cases hstep
      rw [List.length_cons] at hdepth
      have hn : n ≤ rest.length := hn
      omega

/-- An exception that is not caught ends the activation. -/
theorem Lives.eq_of_uncaught {log : List Call} (h : vm.Uncaught n s e)
    (hl : vm.Lives n s log s') : log = [] ∧ s' = s := by
  cases hl with
  | refl s => exact ⟨rfl, rfl⟩
  | step hstep hn hrest =>
    obtain ⟨w, g, hunwind, hpc, -⟩ := step_of_raises h.raises
    rw [hunwind] at hstep
    have := length_unwind_lt h.depth (catch_eq_none_of_pc hpc h.current) h.callers hstep
    omega

/-! ## Stretches -/

variable {r : Routine} {f g : Frame} {w w' : World} {log log' : List Call}
  {callers : List Caller}

theorem calls_of_next {i : Instruction} {heap : Heap} (hi : r.code[f.pc]? = some i)
    (hs : f.step r vm.module.imports w.heap i = .ok (.next g heap)) :
    vm.calls n ⟨⟨r, f⟩, callers, w⟩ = [] := by
  have hnone : vm.call? ⟨⟨r, f⟩, callers, w⟩ = none := by
    unfold call?
    dsimp only
    rw [hi]
    dsimp only
    rw [hs]
  unfold calls
  rw [hnone]
  exact ite_self _

theorem calls_of_call {i : Instruction} {member : MemberRef} {args : List Value} {keeps : Bool}
    (hi : r.code[f.pc]? = some i)
    (hs : f.step r vm.module.imports w.heap i = .ok (.call member args keeps g)) :
    vm.calls callers.length ⟨⟨r, f⟩, callers, w⟩ = [⟨f.pc, member, args, w.heap⟩] := by
  have hsome : vm.call? ⟨⟨r, f⟩, callers, w⟩ = some ⟨f.pc, member, args, w.heap⟩ := by
    unfold call?
    dsimp only
    rw [hi]
    dsimp only
    rw [hs]
  unfold calls
  rw [hsome]
  exact if_pos rfl

/-- The activation at this depth goes on by itself between two positions. -/
structure Amid (vm : Machine) (r : Routine) (callers : List Caller) (first pos : Nat)
    (s : State) : Prop where
  below : s.callers = callers
  routine : s.current.routine = r
  after : first ≤ s.current.frame.pc
  before : s.current.frame.pc < pos
  returns : ∀ v, ¬ vm.Returns callers.length s v
  raises : ∀ e, ¬ vm.Raises s e

theorem Amid.mono {first first' pos : Nat} (h : vm.Amid r callers first' pos s)
    (hle : first ≤ first') : vm.Amid r callers first pos s :=
  ⟨h.below, h.routine, Nat.le_trans hle h.after, h.before, h.returns, h.raises⟩

/-- An exception that is raised where the instruction and its step are known. -/
theorem raises_cases {i : Instruction} {x : Except Trap Step} (hi : r.code[f.pc]? = some i)
    (hs : f.step r vm.module.imports w.heap i = x) (hr : vm.Raises ⟨⟨r, f⟩, callers, w⟩ e) :
    (∃ t heap, x = .error t ∧ t.settle w.heap = (.thrown e, heap)) ∨
      ∃ member args keeps g t w', x = .ok (.call member args keeps g) ∧
        vm.host.call w member args r.describe = (.error t, w') := by
  cases hr with
  | instruction hi' hs' ht =>
    obtain rfl := Option.some.inj (hi.symm.trans hi')
    exact .inl ⟨_, _, hs.symm.trans hs', ht⟩
  | member hi' hs' hscope hc ht =>
    obtain rfl := Option.some.inj (hi.symm.trans hi')
    exact .inr ⟨_, _, _, _, _, _, hs.symm.trans hs', hc⟩

theorem not_raises_of_next {i : Instruction} {heap : Heap} (hi : r.code[f.pc]? = some i)
    (hs : f.step r vm.module.imports w.heap i = .ok (.next g heap)) :
    ¬ vm.Raises ⟨⟨r, f⟩, callers, w⟩ e := by
  intro hr
  rcases raises_cases hi hs hr with ⟨t, heap', h, -⟩ | ⟨member, args, keeps, g', t, w', h, -⟩
  · cases h
  · cases h

theorem not_raises_of_call {i : Instruction} {member : MemberRef} {args : List Value}
    {keeps : Bool} (hi : r.code[f.pc]? = some i)
    (hs : f.step r vm.module.imports w.heap i = .ok (.call member args keeps g))
    (hc : vm.host.call w member args r.describe = (.ok v, w')) :
    ¬ vm.Raises ⟨⟨r, f⟩, callers, w⟩ e := by
  intro hr
  rcases raises_cases hi hs hr with ⟨t, heap, h, -⟩ | ⟨member', args', keeps', g', t, w'', h, hc'⟩
  · cases h
  · cases h
    cases hc.symm.trans hc'

theorem not_raises_of_ret {i : Instruction} (hi : r.code[f.pc]? = some i)
    (hs : f.step r vm.module.imports w.heap i = .ok (.ret v)) :
    ¬ vm.Raises ⟨⟨r, f⟩, callers, w⟩ e := by
  intro hr
  rcases raises_cases hi hs hr with ⟨t, heap, h, -⟩ | ⟨member, args, keeps, g', t, w', h, -⟩
  · cases h
  · cases h

theorem not_raises_of_fault {i : Instruction} {cause : MachineFault} (hi : r.code[f.pc]? = some i)
    (hs : f.step r vm.module.imports w.heap i = .error (.fault cause)) :
    ¬ vm.Raises ⟨⟨r, f⟩, callers, w⟩ e := by
  intro hr
  rcases raises_cases hi hs hr with ⟨t, heap, h, ht⟩ | ⟨member, args, keeps, g', t, w', h, -⟩
  · cases h
    cases ht
  · cases h

/-- An instruction that throws a value raises no other one. -/
theorem raises_eq_of_thrown {i : Instruction} {e' : Value} (hi : r.code[f.pc]? = some i)
    (hs : f.step r vm.module.imports w.heap i = .error (.failed (.thrown e)))
    (hr : vm.Raises ⟨⟨r, f⟩, callers, w⟩ e') : e' = e := by
  rcases raises_cases hi hs hr with ⟨t, heap, h, ht⟩ | ⟨member, args, keeps, g, t, w', h, -⟩
  · cases h
    cases ht
    rfl
  · cases h

/-- Only a return ends an activation with a value. -/
theorem ret_of_returns {n : Nat} {i : Instruction} {x : Except Trap Step}
    (hi : r.code[f.pc]? = some i) (hs : f.step r vm.module.imports w.heap i = x)
    (hr : vm.Returns n ⟨⟨r, f⟩, callers, w⟩ v) : x = .ok (.ret v) := by
  obtain ⟨-, i', hi', hs'⟩ := hr
  obtain rfl := Option.some.inj (hi.symm.trans hi')
  exact hs.symm.trans hs'

/-- A run that enters a stretch stops within it or passes its end, with its calls. -/
theorem Lives.split (hp : vm.Proceeds r f w log g w')
    (hl : vm.Lives callers.length ⟨⟨r, f⟩, callers, w⟩ log' s) :
    (∃ rest, log = log' ++ rest ∧ vm.Amid r callers f.pc g.pc s) ∨
      ∃ rest, log' = log ++ rest ∧ vm.Lives callers.length ⟨⟨r, g⟩, callers, w'⟩ rest s := by
  induction hp generalizing log' with
  | refl f w => exact .inr ⟨log', rfl, hl⟩
  | @next f g f' w w' i heap log hi hs hpc hrest ih =>
    cases hl with
    | refl s =>
      refine .inl ⟨log, rfl, rfl, rfl, Nat.le_refl _, ?_,
        fun v hv => (by cases ret_of_returns hi hs hv), fun e => not_raises_of_next hi hs⟩
      have := hrest.bounds.1
      show f.pc < f'.pc
      omega
    | step hstep hn hlives =>
      cases (step_of_next hi hs callers).symm.trans hstep
      rw [calls_of_next hi hs, List.nil_append]
      rcases ih hlives with ⟨rest, hlog, hamid⟩ | hlater
      · exact .inl ⟨rest, hlog, hamid.mono (by omega)⟩
      · exact .inr hlater
  | @call f g f' w w₁ w' i member args keeps library v log hi hs hpc hscope hc hrest ih =>
    cases hl with
    | refl s =>
      refine .inl ⟨_, rfl, rfl, rfl, Nat.le_refl _, ?_,
        fun v hv => (by cases ret_of_returns hi hs hv), fun e => not_raises_of_call hi hs hc⟩
      have := hrest.bounds.1
      rw [resumed_pc] at this
      show f.pc < f'.pc
      omega
    | step hstep hn hlives =>
      cases (step_of_call hi hs hscope hc callers).symm.trans hstep
      rw [calls_of_call hi hs, List.singleton_append]
      rcases ih hlives with ⟨rest, rfl, hamid⟩ | ⟨rest, rfl, hlater⟩
      · rw [resumed_pc] at hamid
        exact .inl ⟨rest, rfl, hamid.mono (by omega)⟩
      · exact .inr ⟨rest, rfl, hlater⟩

end Machine

end Interpose
