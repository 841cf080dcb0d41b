import Interpose.Proofs.Machine.Session
import Interpose.Proofs.Machine.Verified
/-!
# The depth of calls

A method is made ready to run only below the limit, so no state of a run has more
activations than that. The limit is also the only thing that a run can fail for with the
fault that names it: the method is there, it has a body, and it got its arguments.

Results:
* `act_eq_start`: how a method starts.
* `live_le_maxCallDepth`: the number of live activations is bounded.
* `act_eq_callDepth_iff`, `invoke_callDepth_iff`: what ends a run for want of depth.
-/
namespace Interpose

/-- The number of live activations. -/
def State.live (x : State) : Nat := x.callers.length + 1

namespace Machine

variable {vm : Machine} {a b : Activation} {c : Caller} {w w' : World} {live n : Nat}
  {callers : List Caller} {x x' : State} {t : Turn} {e : MachineFault}

/-! ## The bound -/

/-- A method starts when the next instruction calls it and it can be made ready to run. -/
theorem act_eq_start (h : vm.act a w live = .start b c) :
    ∃ i member args keeps f d, a.routine.code[a.frame.pc]? = some i ∧
      a.frame.step a.routine vm.module.imports w.heap i = .ok (.call member args keeps f) ∧
      member.scope = .module ∧ vm.module.dispatch? member = some d ∧
      d.activate member.owner args live = .ok b := by
  unfold act trapped at h
  dsimp only at h
  split at h
  · cases h
  · next i hi =>
    split at h
    · cases h
    · cases h
    · cases h
    · next member args keeps f hs =>
      split at h
      · next hscope =>
        split at h
        · cases h
        · next d hd =>
          split at h
          · cases h
          · next b' hb =>
            cases h
            exact ⟨i, member, args, keeps, f, d, hi, hs, hscope, hd, hb⟩
      · split at h <;> cases h

/-- A method starts only below the limit. -/
theorem lt_of_act_start (h : vm.act a w live = .start b c) : live < maxCallDepth := by
  obtain ⟨i, member, args, keeps, f, d, -, -, -, -, hb⟩ := act_eq_start h
  exact (Method.activate_eq_ok_iff.1 hb).2.1

theorem length_progress_le (h : t.progress callers w = .running x) :
    x.callers.length ≤ callers.length := by
  cases t with
  | on a =>
    cases h
    exact Nat.le_refl _
  | ended r =>
    cases r with
    | ok v =>
      cases callers with
      | nil => cases h
      | cons c rest =>
        cases h
        exact Nat.le_succ _
    | error f =>
      cases f with
      | fault e => cases h
      | thrown e =>
        cases callers with
        | nil => cases h
        | cons c rest => exact Nat.le_succ_of_le (length_unwind_le h)

theorem live_step (hx : x.live ≤ maxCallDepth) (h : vm.step x = .running x') :
    x'.live ≤ maxCallDepth := by
  obtain ⟨a, callers, w⟩ := x
  rw [step_eq] at h
  cases hact : vm.act a w (callers.length + 1) with
  | turn t w' =>
    rw [hact] at h
    exact Nat.le_trans (Nat.succ_le_succ (length_progress_le h)) hx
  | start b c =>
    rw [hact] at h
    cases h
    exact lt_of_act_start hact

/-- No run has more live activations than the limit. -/
theorem live_le_maxCallDepth {typeName method : String} {args : List Value}
    (h : vm.Reaches w typeName method args x) : x.live ≤ maxCallDepth := by
  obtain ⟨x₀, hstart, hsteps⟩ := h
  refine hsteps.induct (fun _ _ => live_step) ?_
  unfold start at hstart
  split at hstart
  · cases hstart
  · split at hstart
    · cases hstart
    · split at hstart
      · cases hstart
      · cases hstart
        show 1 ≤ maxCallDepth
        decide

/-! ## The fault -/

/-- The next instruction calls this method of the module with these arguments. -/
def Attempts (vm : Machine) (a : Activation) (w : World) (d : Method) (args : List Value) : Prop :=
  ∃ i member keeps f, a.routine.code[a.frame.pc]? = some i ∧
    a.frame.step a.routine vm.module.imports w.heap i = .ok (.call member args keeps f) ∧
    member.scope = .module ∧ vm.module.dispatch? member = some d

/-- What fails to be made ready for want of depth, and only that. -/
theorem activate_eq_callDepth_iff {d : Method} {typeName : String} {args : List Value} :
    d.activate typeName args live = .error (.callDepth n) ↔
      n = maxCallDepth ∧ maxCallDepth ≤ live ∧ d.body?.isSome ∧ args.length = d.argCount.toNat := by
  unfold Method.activate
  dsimp only
  by_cases hargs : args.length = d.argCount.toNat
  · rw [if_neg (Decidable.not_not.2 hargs)]
    cases d.body? with
    | none => simp
    | some b =>
      dsimp only
      by_cases hlive : maxCallDepth ≤ live
      · rw [if_pos hlive]
        simp [hlive, hargs, eq_comm]
      · rw [if_neg hlive]
        cases b.regions <;> simp [hlive]
  · rw [if_pos hargs]
    simp [hargs]

theorem fail_eq_fault {f : Failure} (h : a.fail f = .ended (.error (.fault e))) : f = .fault e := by
  cases f with
  | fault e' =>
    cases h
    rfl
  | thrown v =>
    unfold Activation.fail at h
    dsimp only at h
    split at h <;> cases h

theorem trapped_eq_fault {trap : Trap} {w' : World}
    (h : trapped a w trap = .turn (.ended (.error (.fault e))) w') : trap = .fault e := by
  have hfail := fail_eq_fault (Act.turn.inj h).1
  cases trap with
  | raise r => cases hfail
  | failed f => exact congrArg Trap.failed hfail

/-- What an activation fails for with the fault of the limit. -/
theorem act_eq_callDepth_iff :
    vm.act a w live = .turn (.ended (.error (.fault (.callDepth n)))) w' ↔
      n = maxCallDepth ∧ w' = w ∧ maxCallDepth ≤ live ∧
        ∃ d args, vm.Attempts a w d args ∧ d.body?.isSome ∧ args.length = d.argCount.toNat := by
  constructor
  · intro h
    unfold act at h
    dsimp only at h
    split at h
    · cases h
    · next i hi =>
      split at h
      · next trap hs =>
        have hshape := Frame.holds_step a.frame a.routine vm.module.imports w.heap i
        rw [hs, trapped_eq_fault h] at hshape
        cases hshape
      · cases h
      · cases h
      · next member args keeps f hs =>
        split at h
        · next hscope =>
          split at h
          · cases h
          · next d hd =>
            split at h
            · next e he =>
              cases h
              obtain ⟨hn, hlive, hbody, hargs⟩ := activate_eq_callDepth_iff.1 he
              exact ⟨hn, rfl, hlive, d, args, ⟨i, member, keeps, f, hi, hs, hscope, hd⟩, hbody,
                hargs⟩
            · cases h
        · split at h
          · cases h
          · next trap w₁ hc =>
            have hhost := holds_hostCall vm.host w member args a.routine.describe
            rw [hc, trapped_eq_fault h] at hhost
            cases hhost
  · rintro ⟨rfl, rfl, hlive, d, args, ⟨i, member, keeps, f, hi, hs, hscope, hd⟩, hbody, hargs⟩
    have hactivate : d.activate member.owner args live = .error (.callDepth maxCallDepth) :=
      activate_eq_callDepth_iff.2 ⟨rfl, hlive, hbody, hargs⟩
    unfold act
    simp only [hi, hs, hscope, hd, hactivate]

theorem unwind_ne_fault (w : World) (v : Value) (a : Activation) (callers : List Caller)
    (w' : World) : unwind w v a callers ≠ faulted w' e := by
  induction callers generalizing a with
  | nil =>
    unfold unwind
    split <;> exact nofun
  | cons c rest ih =>
    unfold unwind
    split
    · exact nofun
    · exact ih c.activation

/-- A run ends with a fault where an activation does. -/
theorem progress_eq_faulted_iff :
    t.progress callers w = faulted w' e ↔ t = .ended (.error (.fault e)) ∧ w = w' := by
  constructor
  · intro h
    cases t with
    | on a => cases h
    | ended r =>
      cases r with
      | ok v => cases callers <;> cases h
      | error f =>
        cases f with
        | fault e' =>
          cases h
          exact ⟨rfl, rfl⟩
        | thrown v =>
          cases callers with
          | nil => cases h
          | cons c rest => exact absurd h (unwind_ne_fault w v c.activation rest w')
  · rintro ⟨rfl, rfl⟩
    rfl

theorem step_eq_callDepth_iff :
    vm.step x = faulted w (.callDepth n) ↔
      n = maxCallDepth ∧ w = x.world ∧ maxCallDepth ≤ x.live ∧
        ∃ d args, vm.Attempts x.current x.world d args ∧ d.body?.isSome ∧
          args.length = d.argCount.toNat := by
  obtain ⟨a, callers, w₀⟩ := x
  rw [step_eq]
  cases hact : vm.act a w₀ (callers.length + 1) with
  | start b c =>
    refine ⟨nofun, fun ⟨hn, hw, hlive, hd⟩ => ?_⟩
    cases hact.symm.trans (act_eq_callDepth_iff.2 ⟨hn, rfl, hlive, hd⟩)
  | turn t w' =>
    dsimp only
    rw [progress_eq_faulted_iff]
    constructor
    · rintro ⟨rfl, rfl⟩
      exact act_eq_callDepth_iff.1 hact
    · rintro ⟨hn, rfl, hlive, hd⟩
      cases hact.symm.trans (act_eq_callDepth_iff.2 ⟨hn, rfl, hlive, hd⟩)
      exact ⟨rfl, rfl⟩

/-- A run ends for want of depth exactly when a method with a body is called, with as many
arguments as it takes, from the last activation that the limit allows. -/
theorem invoke_callDepth_iff {typeName method : String} {args : List Value} :
    (∃ fuel, vm.invoke fuel w typeName method args = some ⟨.error (.fault (.callDepth n)), w'⟩) ↔
      n = maxCallDepth ∧ ∃ x, vm.Reaches w typeName method args x ∧ x.world = w' ∧
        x.live = maxCallDepth ∧ ∃ d vs, vm.Attempts x.current x.world d vs ∧ d.body?.isSome ∧
          vs.length = d.argCount.toNat := by
  rw [invoke_eq_some_iff]
  constructor
  · rintro (hstart | ⟨x, hx, hdone⟩)
    · unfold start at hstart
      split at hstart
      · cases hstart
      · split at hstart
        · cases hstart
        · split at hstart
          · next e he =>
            cases hstart
            exact absurd (activate_eq_callDepth_iff.1 he).2.1 (by decide)
          · cases hstart
    · obtain ⟨hn, hw, hlive, hd⟩ := step_eq_callDepth_iff.1 hdone
      exact ⟨hn, x, hx, hw.symm, Nat.le_antisymm (live_le_maxCallDepth hx) hlive, hd⟩
  · rintro ⟨hn, x, hx, hw, hlive, hd⟩
    exact .inr ⟨x, hx, step_eq_callDepth_iff.2 ⟨hn, hw.symm, Nat.le_of_eq hlive.symm, hd⟩⟩

end Machine

end Interpose
