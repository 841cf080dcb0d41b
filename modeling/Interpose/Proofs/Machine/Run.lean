import Interpose.Machine.Run
/-!
# Runs as sequences of steps

The states that a run goes through, without the steps that its caller grants.

Results:
* `steps_of_run`, `run_of_steps`: a run ends with what a step from one of its states ends
  with.
* `run_of_leads`: so does a run that gets to its end (`Leads`).
* `invoke_eq_some_iff`, `invoke_of_leads`: the same of a call from outside.
-/
namespace Interpose

/-- `P` holds of the state to go on from, or `Q` of the end of the run. -/
def Progress.Holds (p : Progress) (P : State → Prop) (Q : Outcome → Prop) : Prop :=
  match p with
  | .running s => P s
  | .done o => Q o

/-- When a method can be made ready to run, and what it starts with. -/
theorem Method.activate_eq_ok_iff {d : Method} {typeName : String} {args : List Value}
    {live : Nat} {a : Activation} :
    d.activate typeName args live = .ok a ↔
      args.length = d.argCount.toNat ∧ live < maxCallDepth ∧
        ∃ b rs, d.body? = some b ∧ b.regions = .ok rs ∧
          a = ⟨⟨typeName, d, b, b.code.toArray, rs⟩,
            { args := args, locals := b.locals.toList.map fun s => .initial s.ty }⟩ := by
  unfold activate
  refine ⟨fun h => ?_, fun ⟨hargs, hlive, b, rs, hb, hrs, ha⟩ => ?_⟩
  · dsimp only at h
    split at h
    · cases h
    · next hargs =>
      split at h
      · cases h
      · next b hb =>
        split at h
        · cases h
        · next hlive =>
          split at h
          · cases h
          · next rs hrs =>
            cases h
            exact ⟨Decidable.not_not.1 hargs, Nat.lt_of_not_le hlive, b, rs, hb, hrs, rfl⟩
  · dsimp only
    rw [if_neg (Decidable.not_not.2 hargs), hb]
    dsimp only
    rw [if_neg (Nat.not_le_of_lt hlive), hrs, ha]

/-- It starts with a value in each slot. -/
theorem Method.length_locals_of_activate {d : Method} {typeName : String} {args : List Value}
    {live : Nat} {a : Activation} (h : d.activate typeName args live = .ok a) :
    a.frame.locals.length = a.routine.body.locals.size := by
  obtain ⟨-, -, b, rs, -, -, rfl⟩ := activate_eq_ok_iff.1 h
  dsimp only
  rw [List.length_map, Array.length_toList]

namespace Machine

variable {vm : Machine} {s s' s'' : State} {o : Outcome}

/-- A run goes from one state to another. -/
inductive Steps (vm : Machine) : State → State → Prop
  | refl (s : State) : Steps vm s s
  | next {s s' s'' : State} (h : vm.step s = .running s') (hs : Steps vm s' s'') : Steps vm s s''

theorem Steps.trans (h : vm.Steps s s') (h' : vm.Steps s' s'') : vm.Steps s s'' := by
  induction h with
  | refl s => exact h'
  | next hstep _ ih => exact .next hstep (ih h')

theorem Steps.snoc (h : vm.Steps s s') (h' : vm.step s' = .running s'') : vm.Steps s s'' :=
  h.trans (.next h' (.refl s''))

theorem steps_of_run {fuel : Nat} (h : vm.run fuel s = some o) :
    ∃ s', vm.Steps s s' ∧ vm.step s' = .done o := by
  induction fuel generalizing s with
  | zero => cases h
  | succ fuel ih =>
    cases hs : vm.step s with
    | running s' =>
      rw [run_succ_of_running hs] at h
      obtain ⟨s'', hsteps, hdone⟩ := ih h
      exact ⟨s'', .next hs hsteps, hdone⟩
    | done o' =>
      rw [run_succ_of_done hs] at h
      obtain rfl : o' = o := Option.some.inj h
      exact ⟨s, .refl s, hs⟩

theorem run_of_steps (h : vm.Steps s s') (hdone : vm.step s' = .done o) :
    ∃ fuel, vm.run fuel s = some o := by
  induction h with
  | refl s => exact ⟨1, run_succ_of_done hdone 0⟩
  | next hstep _ ih =>
    obtain ⟨fuel, hrun⟩ := ih hdone
    exact ⟨fuel + 1, (run_succ_of_running hstep fuel).trans hrun⟩

/-- A run gets from one point to another, which may be its end. -/
inductive Leads (vm : Machine) : Progress → Progress → Prop
  | refl (p : Progress) : Leads vm p p
  | step {s : State} {p : Progress} (h : Leads vm (vm.step s) p) : Leads vm (.running s) p

theorem Leads.trans {p p' p'' : Progress} (h : vm.Leads p p') (h' : vm.Leads p' p'') :
    vm.Leads p p'' := by
  induction h with
  | refl p => exact h'
  | step _ ih => exact .step (ih h')

theorem Steps.leads (h : vm.Steps s s') : vm.Leads (.running s) (.running s') := by
  induction h with
  | refl s => exact .refl _
  | next hstep _ ih =>
    refine .step ?_
    rw [hstep]
    exact ih

theorem run_of_leads (h : vm.Leads (.running s) (.done o)) :
    ∃ fuel, vm.run fuel s = some o := by
  generalize hp : Progress.running s = p at h
  generalize hq : Progress.done o = q at h
  induction h generalizing s with
  | refl p =>
    subst hp
    cases hq
  | @step s₀ p hlead ih =>
    obtain rfl := Progress.running.inj hp
    cases hs : vm.step s with
    | running s' =>
      obtain ⟨fuel, hrun⟩ := ih hs.symm hq
      exact ⟨fuel + 1, (run_succ_of_running hs fuel).trans hrun⟩
    | done o' =>
      rw [hs] at hlead
      subst hq
      cases hlead
      exact ⟨1, run_succ_of_done hs 0⟩

/-- What every step keeps holds as long as a run goes on. -/
theorem Steps.induct {P : State → Prop} (hP : ∀ s s', P s → vm.step s = .running s' → P s')
    (h : vm.Steps s s') (hs : P s) : P s' := by
  induction h with
  | refl s => exact hs
  | next hstep _ ih => exact ih (hP _ _ hs hstep)

variable {w : World} {typeName method : String} {args : List Value}

/-- A state that a run of a method reaches. -/
def Reaches (vm : Machine) (w : World) (typeName method : String) (args : List Value)
    (s : State) : Prop :=
  ∃ s₀, vm.start w typeName method args = .running s₀ ∧ vm.Steps s₀ s

theorem invoke_eq_some_iff :
    (∃ fuel, vm.invoke fuel w typeName method args = some o) ↔
      vm.start w typeName method args = .done o ∨
        ∃ s, vm.Reaches w typeName method args s ∧ vm.step s = .done o := by
  unfold invoke Reaches
  cases vm.start w typeName method args with
  | done o' => simp
  | running s₀ =>
    refine ⟨fun ⟨fuel, h⟩ => ?_, fun h => ?_⟩
    · obtain ⟨s, hs, hdone⟩ := steps_of_run h
      exact .inr ⟨s, ⟨s₀, rfl, hs⟩, hdone⟩
    · rcases h with h | ⟨s, ⟨s₁, h₁, hs⟩, hdone⟩
      · cases h
      · cases h₁
        exact run_of_steps hs hdone

theorem invoke_of_leads (h : vm.Leads (vm.start w typeName method args) (.done o)) :
    ∃ fuel, vm.invoke fuel w typeName method args = some o := by
  unfold invoke
  cases hstart : vm.start w typeName method args with
  | running s₀ =>
    rw [hstart] at h
    exact run_of_leads h
  | done o' =>
    rw [hstart] at h
    cases h
    exact ⟨0, rfl⟩

end Machine

end Interpose
