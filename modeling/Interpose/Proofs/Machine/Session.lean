import Interpose.Machine.Session
import Interpose.Proofs.Machine.Lifetime
/-!
# Calls one after another

The machine that keeps a session runs a call inside the run of its caller. The machine that
takes single steps keeps the activations that wait in a list. What an activation does next
(`act`) is the same for both, and the counter of the one is the number of activations of the
other, so they end alike. What is true of a run at every step is then true of a session.

Results:
* `depth_loop`, `depth_invokeIn`: the counter ends where it began.
* `invokeIn_eq_some_iff`: a session ends a call as a run of single steps does.
* `step_eq`, `turn_eq`: both machines do what `act` says.
-/
namespace Interpose

/-- A point of a run, after a turn of the activation above these callers. -/
def Turn.progress (callers : List Caller) (w : World) : Turn → Progress
  | .on a => .running ⟨a, callers, w⟩
  | .ended (.ok v) => Machine.giveBack w v callers
  | .ended (.error (.thrown e)) => Machine.handOn w e callers
  | .ended (.error (.fault e)) => Machine.faulted w e

/-- What an activation does next: it goes on or ends, or a method that it calls starts. -/
inductive Act
  | turn (t : Turn) (w : World)
  | start (a : Activation) (c : Caller)

namespace Machine

variable {vm : Machine} {loop : Activation → Session → Option Ended} {a : Activation}
  {s s' : Session} {w : World} {r : Except Failure Value} {callers : List Caller} {fuel : Nat}

/-- The end of an instruction that failed. -/
def trapped (a : Activation) (w : World) (t : Trap) : Act :=
  .turn (a.fail (t.settle w.heap).1) { w with heap := (t.settle w.heap).2 }

/-- What an activation does next, one of `live`. -/
def act (vm : Machine) (a : Activation) (w : World) (live : Nat) : Act :=
  let r := a.routine
  match r.code[a.frame.pc]? with
  | none => .turn (.ended (.error (.fault (.fellOffEnd r.fullName)))) w
  | some i =>
    match a.frame.step r vm.module.imports w.heap i with
    | .error t => trapped a w t
    | .ok (.next f heap) => .turn (.on { a with frame := f }) { w with heap := heap }
    | .ok (.ret v) => .turn (.ended (.ok v)) w
    | .ok (.call member args keeps f) =>
      let c : Caller := ⟨{ a with frame := f }, keeps⟩
      match member.scope with
      | .module =>
        match vm.module.dispatch? member with
        | none => .turn (.ended (.error (.fault (.unknownMethod member.fullName)))) w
        | some d =>
          match d.activate member.owner args live with
          | .error e => .turn (.ended (.error (.fault e))) w
          | .ok b => .start b c
      | .library _ =>
        match vm.host.call w member args r.describe with
        | (.ok v, w) => .turn (.on (resume c v)) w
        | (.error t, w) => trapped c.activation w t

/-! ## Both machines -/

theorem progress_fail (a : Activation) (f : Failure) (callers : List Caller) (w : World) :
    (a.fail f).progress callers w =
      match f with
      | .thrown v => unwind w v a callers
      | .fault e => faulted w e := by
  cases f with
  | fault e => rfl
  | thrown v =>
    unfold Activation.fail
    dsimp only
    cases hc : a.catch? v with
    | some b => cases callers <;> simp only [Turn.progress, unwind, hc]
    | none => exact (unwind_of_catch_none hc callers).symm

/-- What ends above a caller is what the caller receives. -/
theorem progress_receive (c : Caller) (r : Except Failure Value) (callers : List Caller)
    (w : World) : (c.receive r).progress callers w = (Turn.ended r).progress (c :: callers) w := by
  cases r with
  | ok v => rfl
  | error f =>
    unfold Caller.receive
    rw [progress_fail]
    cases f <;> rfl

theorem trap_eq (a : Activation) (w : World) (t : Trap) (callers : List Caller) :
    trap w t a callers =
      (a.fail (t.settle w.heap).1).progress callers { w with heap := (t.settle w.heap).2 } := by
  rw [progress_fail]
  rfl

/-- The single step. -/
theorem step_eq (vm : Machine) (a : Activation) (callers : List Caller) (w : World) :
    vm.step ⟨a, callers, w⟩ =
      match vm.act a w (callers.length + 1) with
      | .turn t w => t.progress callers w
      | .start b c => .running ⟨b, c :: callers, w⟩ := by
  unfold step act
  dsimp only
  cases a.routine.code[a.frame.pc]? with
  | none => rfl
  | some i =>
    dsimp only
    cases a.frame.step a.routine vm.module.imports w.heap i with
    | error t => exact trap_eq ..
    | ok step =>
      cases step with
      | next f heap => rfl
      | ret v => rfl
      | call member args keeps f =>
        dsimp only
        unfold call
        cases member.scope with
        | module =>
          dsimp only
          cases vm.module.dispatch? member with
          | none => rfl
          | some d =>
            dsimp only
            cases d.activate member.owner args (callers.length + 1) <;> rfl
        | library name =>
          dsimp only
          obtain ⟨answer, w'⟩ := vm.host.call w member args a.routine.describe
          cases answer with
          | ok v => rfl
          | error t => exact trap_eq ..

/-- The turn with the calls in it. -/
theorem turn_eq (vm : Machine) (loop : Activation → Session → Option Ended) (a : Activation)
    (s : Session) :
    vm.turn loop a s =
      match vm.act a s.world s.depth with
      | .turn t w => some (t, { s with world := w })
      | .start b c => (loop b s.enter).map fun (r, s) => (c.receive r, s.leave) := by
  unfold turn act
  dsimp only
  cases a.routine.code[a.frame.pc]? with
  | none => rfl
  | some i =>
    dsimp only
    cases a.frame.step a.routine vm.module.imports s.world.heap i with
    | error t => rfl
    | ok step =>
      cases step with
      | next f heap => rfl
      | ret v => rfl
      | call member args keeps f =>
        dsimp only
        unfold callMember
        cases member.scope with
        | module =>
          dsimp only
          cases vm.module.dispatch? member with
          | none => rfl
          | some d =>
            dsimp only
            rw [execute_eq]
            cases d.activate member.owner args s.depth with
            | error e => rfl
            | ok b => exact Option.map_map ..
        | library name =>
          dsimp only
          obtain ⟨answer, w'⟩ := vm.host.call s.world member args a.routine.describe
          cases answer <;> rfl

theorem loop_of_turn {t : Turn} (h : vm.act a s.world s.depth = .turn t w) (fuel : Nat) :
    vm.loop (fuel + 1) a s = t.follow (vm.loop fuel) { s with world := w } := by
  rw [loop, turn_eq, h]
  rfl

theorem loop_of_start {b : Activation} {c : Caller} (h : vm.act a s.world s.depth = .start b c)
    (hb : vm.loop fuel b s.enter = some (r, s')) :
    vm.loop (fuel + 1) a s = (c.receive r).follow (vm.loop fuel) s'.leave := by
  rw [loop, turn_eq, h]
  dsimp only
  rw [hb]
  rfl

theorem exists_of_start {b : Activation} {c : Caller} {e : Ended}
    (h : vm.act a s.world s.depth = .start b c) (hr : vm.loop (fuel + 1) a s = some e) :
    ∃ r s', vm.loop fuel b s.enter = some (r, s') := by
  rw [loop, turn_eq, h] at hr
  dsimp only at hr
  cases hb : vm.loop fuel b s.enter with
  | none =>
    rw [hb] at hr
    cases hr
  | some e => exact ⟨e.1, e.2, rfl⟩

/-! ## The counter -/

theorem depth_follow {t : Turn}
    (hl : ∀ a s r s', vm.loop fuel a s = some (r, s') → s'.depth = s.depth)
    (h : t.follow (vm.loop fuel) s = some (r, s')) : s'.depth = s.depth := by
  cases t with
  | on a => exact hl _ _ _ _ h
  | ended r =>
    cases h
    rfl

/-- The counter is the same after the code of an activation, however it ends. -/
theorem depth_loop (h : vm.loop fuel a s = some (r, s')) : s'.depth = s.depth := by
  induction fuel generalizing a s r s' with
  | zero => cases h
  | succ fuel ih =>
    have hl : ∀ a s r s', vm.loop fuel a s = some (r, s') → s'.depth = s.depth :=
      fun _ _ _ _ h => ih h
    cases hact : vm.act a s.world s.depth with
    | turn t w =>
      rw [loop_of_turn hact] at h
      exact depth_follow (s := { s with world := w }) hl h
    | start b c =>
      obtain ⟨r₁, s₁, hb⟩ := exists_of_start hact h
      rw [loop_of_start hact hb] at h
      have hleave : s₁.leave.depth = s.depth := by
        show s₁.depth - 1 = s.depth
        rw [ih hb]
        rfl
      exact (depth_follow hl h).trans hleave

theorem depth_execute {typeName : String} {d : Method} {args : List Value}
    (h : execute (vm.loop fuel) typeName d args s = some (r, s')) : s'.depth = s.depth := by
  rw [execute_eq] at h
  split at h
  · cases h
    rfl
  · obtain ⟨⟨r₁, s₁⟩, hb, he⟩ := Option.map_eq_some_iff.1 h
    cases he
    show s₁.depth - 1 = s.depth
    rw [depth_loop hb]
    rfl

/-- The counter is the same after a call, however it ends. -/
theorem depth_invokeIn {typeName method : String} {args : List Value}
    (h : vm.invokeIn fuel s typeName method args = some (r, s')) : s'.depth = s.depth := by
  unfold invokeIn at h
  split at h
  · cases h
    rfl
  · split at h
    · cases h
      rfl
    · exact depth_execute h

/-! ## Sessions and single steps -/

theorem loop_mono {more : Nat} {e : Ended} (h : vm.loop fuel a s = some e) (hle : fuel ≤ more) :
    vm.loop more a s = some e := by
  induction fuel generalizing more a s e with
  | zero => cases h
  | succ fuel ih =>
    obtain ⟨more, rfl⟩ : ∃ k, more = k + 1 := ⟨more - 1, by omega⟩
    have hle : fuel ≤ more := by omega
    have follows {t : Turn} {s : Session} (h : t.follow (vm.loop fuel) s = some e) :
        t.follow (vm.loop more) s = some e := by
      cases t with
      | on a => exact ih h hle
      | ended r => exact h
    cases hact : vm.act a s.world s.depth with
    | turn t w =>
      rw [loop_of_turn hact] at h ⊢
      exact follows h
    | start b c =>
      obtain ⟨r₁, s₁, hb⟩ := exists_of_start hact h
      rw [loop_of_start hact hb] at h
      rw [loop_of_start hact (ih hb hle)]
      exact follows h

/-- A session that ends an activation leads the single steps to the same end. -/
theorem leads_of_loop (h : vm.loop fuel a s = some (r, s')) (hd : s.depth = callers.length + 1) :
    vm.Leads (.running ⟨a, callers, s.world⟩) ((Turn.ended r).progress callers s'.world) := by
  induction fuel generalizing a s r s' callers with
  | zero => cases h
  | succ fuel ih =>
    have follows {t : Turn} {s : Session} (h : t.follow (vm.loop fuel) s = some (r, s'))
        (hd : s.depth = callers.length + 1) :
        vm.Leads (t.progress callers s.world) ((Turn.ended r).progress callers s'.world) := by
      cases t with
      | on a => exact ih h hd
      | ended r =>
        cases h
        exact .refl _
    refine .step ?_
    rw [step_eq, ← hd]
    cases hact : vm.act a s.world s.depth with
    | turn t w =>
      rw [loop_of_turn hact] at h
      exact follows (s := { s with world := w }) h hd
    | start b c =>
      obtain ⟨r₁, s₁, hb⟩ := exists_of_start hact h
      rw [loop_of_start hact hb] at h
      have hcall : vm.Leads (.running ⟨b, c :: callers, s.enter.world⟩) _ :=
        ih hb (congrArg (· + 1) hd)
      rw [← progress_receive] at hcall
      have hleave : s₁.leave.depth = callers.length + 1 := by
        show s₁.depth - 1 = _
        rw [depth_loop hb, ← hd]
        rfl
      exact hcall.trans (follows (s := s₁.leave) h hleave)

/-- Runs on from a point for at most `fuel` steps. -/
def finish (vm : Machine) (fuel : Nat) : Progress → Option Outcome
  | .running x => vm.run fuel x
  | .done o => some o

theorem run_succ (x : State) (fuel : Nat) : vm.run (fuel + 1) x = vm.finish fuel (vm.step x) := by
  cases hs : vm.step x with
  | running x' => exact run_succ_of_running hs fuel
  | done o => exact run_succ_of_done hs fuel

/-- Single steps that come to an end have ended the activation before, as a session does. -/
theorem exists_loop_of_run {o : Outcome} (h : vm.run fuel ⟨a, callers, w⟩ = some o) :
    ∃ r s', vm.loop fuel a ⟨w, callers.length + 1⟩ = some (r, s') ∧
      ∃ rest, rest < fuel ∧ vm.finish rest ((Turn.ended r).progress callers s'.world) = some o := by
  -- By strong induction: the rest of the run after a call is shorter than the run.
  induction fuel using Nat.strongRecOn generalizing a callers w o with
  | ind fuel ih =>
    cases fuel with
    | zero => cases h
    | succ fuel =>
      rw [run_succ, step_eq] at h
      have follows {t : Turn} {w : World} {k : Nat} (hk : k ≤ fuel)
          (h : vm.finish k (t.progress callers w) = some o) :
          ∃ r s', t.follow (vm.loop fuel) ⟨w, callers.length + 1⟩ = some (r, s') ∧
            ∃ rest, rest < fuel + 1 ∧
              vm.finish rest ((Turn.ended r).progress callers s'.world) = some o := by
        cases t with
        | on a =>
          obtain ⟨r, s', hl, rest, hlt, hrest⟩ := ih k (Nat.lt_succ_of_le hk) h
          exact ⟨r, s', loop_mono hl hk, rest, by omega, hrest⟩
        | ended r => exact ⟨r, _, rfl, k, Nat.lt_succ_of_le hk, h⟩
      cases hact : vm.act a w (callers.length + 1) with
      | turn t w' =>
        rw [hact] at h
        rw [loop_of_turn (s := ⟨w, callers.length + 1⟩) hact]
        exact follows (Nat.le_refl fuel) h
      | start b c =>
        rw [hact] at h
        obtain ⟨r₁, s₁, hb, k, hk, hrest⟩ := ih fuel (Nat.lt_succ_self fuel) h
        rw [← progress_receive] at hrest
        have hleave : s₁.leave = ⟨s₁.world, callers.length + 1⟩ := by
          unfold Session.leave
          rw [depth_loop hb]
          rfl
        rw [loop_of_start (s := ⟨w, callers.length + 1⟩) hact hb, hleave]
        exact follows (Nat.le_of_lt hk) hrest

theorem progress_nil (r : Except Failure Value) (w : World) :
    (Turn.ended r).progress [] w = .done ⟨r, w⟩ := by
  cases r with
  | ok v => rfl
  | error f => cases f <;> rfl

/-- A session ends a call from outside as a run of single steps does. -/
theorem invokeIn_eq_some_iff {typeName method : String} {args : List Value} (hd : s.depth = 0) :
    (∃ fuel, vm.invokeIn fuel s typeName method args = some (r, s')) ↔
      s'.depth = 0 ∧ ∃ fuel, vm.invoke fuel s.world typeName method args = some ⟨r, s'.world⟩ := by
  have atOnce (e : MachineFault) : (∃ _ : Nat, some ((.error (.fault e), s) : Ended) = some (r, s')) ↔
      s'.depth = 0 ∧ ∃ _ : Nat, some (⟨.error (.fault e), s.world⟩ : Outcome) =
        some ⟨r, s'.world⟩ := by
    constructor
    · rintro ⟨-, h⟩
      cases h
      exact ⟨hd, 0, rfl⟩
    · rintro ⟨hd', -, h⟩
      obtain ⟨w, depth⟩ := s
      obtain ⟨w', depth'⟩ := s'
      cases h
      cases hd
      cases hd'
      exact ⟨0, rfl⟩
  unfold invokeIn invoke start
  cases vm.module.type? typeName with
  | none => exact atOnce _
  | some t =>
    dsimp only
    cases t.method? method with
    | none => exact atOnce _
    | some d =>
      simp only [execute_eq, hd]
      cases d.activate typeName args 0 with
      | error e => exact atOnce e
      | ok a =>
        have henter : s.enter = ⟨s.world, ([] : List Caller).length + 1⟩ := by
          unfold Session.enter
          rw [hd]
          rfl
        dsimp only
        constructor
        · rintro ⟨fuel, h⟩
          obtain ⟨⟨r₁, s₁⟩, hl, he⟩ := Option.map_eq_some_iff.1 h
          cases he
          have hlead : vm.Leads (.running ⟨a, [], s.enter.world⟩) _ :=
            leads_of_loop hl (congrArg Session.depth henter)
          rw [progress_nil] at hlead
          refine ⟨?_, run_of_leads hlead⟩
          show s₁.depth - 1 = 0
          rw [depth_loop hl, henter]
          rfl
        · rintro ⟨hd', fuel, h⟩
          obtain ⟨r₁, s₁, hl, rest, -, hrest⟩ := exists_loop_of_run h
          rw [progress_nil] at hrest
          obtain ⟨rfl, hw⟩ := Outcome.mk.inj (Option.some.inj hrest)
          have hleave : s₁.leave = s' := by
            obtain ⟨w', depth'⟩ := s'
            cases hd'
            unfold Session.leave
            rw [depth_loop hl, hw]
            rfl
          refine ⟨fuel, ?_⟩
          rw [henter, hl, ← hleave]
          rfl

end Machine

end Interpose
