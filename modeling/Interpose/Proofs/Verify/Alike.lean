import Interpose.Proofs.Body.Alike
import Interpose.Proofs.Verify.Invariant
/-!
# Verification of bodies that are alike

The verifier sees of a target only the place it stands for, and of a method its arguments
and what it returns.

Results:
* `visit_alike`: each visit finds the same.
* `run_congr`: so does a walk, which is nothing but visits.
* `verifyBody_alike`: bodies that are alike verify alike, and fail for the same reason.
-/
namespace Interpose

/-- What the verifier sees of a method. -/
structure Method.SameFrame (m m' : Method) : Prop where
  argCount : m.argCount = m'.argCount
  returnType : m.returnType = m'.returnType

variable {m m' : Method} {b b' : Body} {imports : ImportTable}

section

variable {i i' : Instruction}

theorem checkOperand_alike (imports : ImportTable) (hm : m.SameFrame m') (hb : b.Alike b')
    (hi : Instruction.Alike b b' i i') :
    checkOperand m b imports i = checkOperand m' b' imports i' := by
  cases hi with
  | same i hi =>
    unfold checkOperand Body.local?
    rw [hm.argCount, hb.locals]
  | target op h => rfl

theorem stackEffect_alike (imports : ImportTable) (hm : m.SameFrame m') (hi : Instruction.Alike b b' i i') :
    stackEffect m imports i = stackEffect m' imports i' := by
  simp only [stackEffect, hi.opcode_eq, hi.member?_eq, hm.returnType]

end

namespace Walk

theorem run_nil {c : VerifyContext} {w : Walk} (hw : w.work = []) : run c w = .ok w := by
  fun_cases run c w with
  | case1 => rfl
  | case2 pos rest hw' => rw [hw] at hw'; cases hw'
  | case3 pos rest hw' => rw [hw] at hw'; cases hw'

theorem run_cons {c : VerifyContext} {w : Walk} {pos : Nat} {rest : List Nat}
    (hw : w.work = pos :: rest) : run c w = visit c { w with work := rest } pos >>= run c := by
  fun_cases run c w with
  | case1 hw' => rw [hw] at hw'; cases hw'
  | case2 pos' rest' hw' e hv =>
    rw [hw] at hw'
    cases hw'
    rw [hv]
    rfl
  | case3 pos' rest' hw' w' hv =>
    rw [hw] at hw'
    cases hw'
    rw [hv]
    rfl

/-- A walk is nothing but visits. -/
theorem run_congr {c c' : VerifyContext} (h : ∀ w pos, visit c w pos = visit c' w pos)
    (w : Walk) : run c w = run c' w := by
  fun_induction run c w with
  | case1 w hw => exact (run_nil hw).symm
  | case2 w pos rest hw e hv =>
    rw [run_cons hw, ← h, hv]
    rfl
  | case3 w pos rest hw w' hv ih =>
    rw [ih, run_cons hw, ← h, hv]
    rfl

variable {rs : List Region} {i i' : Instruction}

theorem target_alike (m m' : Method) (hi : Instruction.Alike b b' i i') :
    target (.of m b imports rs) i = target (.of m' b' imports rs) i' := by
  cases hi with
  | same i hi => simp only [target, hi]
  | target op h => exact h

theorem follow_alike (m m' : Method) (imports : ImportTable) (rs : List Region) (hb : b.Alike b')
    (hi : Instruction.Alike b b' i i') (w : Walk) (pos : Nat) (d : UInt16) :
    follow (.of m b imports rs) w pos i d = follow (.of m' b' imports rs) w pos i' d := by
  have hcode : b.code.length = b'.code.length := hb.code.length_eq
  have hfall : fallThrough (.of m b imports rs) = fallThrough (.of m' b' imports rs) := by
    funext w pos d
    simp only [fallThrough, VerifyContext.of, List.size_toArray, hcode]
  simp only [follow, hfall, target_alike m m' hi, hi.opcode_eq]
  rfl

theorem visit_alike (hm : m.SameFrame m') (hb : b.Alike b') (w : Walk) (pos : Nat) :
    visit (.of m b imports rs) w pos = visit (.of m' b' imports rs) w pos := by
  have hi : Instruction.Alike b b' (b.code.toArray[pos]?.getD default)
      (b'.code.toArray[pos]?.getD default) := by
    rw [List.getElem?_toArray, List.getElem?_toArray]
    cases hp : b.code[pos]? with
    | none =>
      rw [forall₂_getElem?_none hb.code hp]
      exact .same _ rfl
    | some i =>
      obtain ⟨i', hp', hi⟩ := forall₂_getElem? hb.code hp
      rw [hp']
      exact hi
  simp only [visit]
  have hoperand := checkOperand_alike imports hm hb hi
  have heffect := stackEffect_alike imports hm hi
  have hop := hi.opcode_eq
  have hfollow := follow_alike m m' imports rs hb hi
  simp only [VerifyContext.of] at hoperand heffect hfollow hop ⊢
  simp only [hoperand, heffect, hfollow, hop]

theorem start_alike (m m' : Method) (hb : b.Alike b') :
    start (.of m b imports rs) = start (.of m' b' imports rs) := by
  have hcode : b.code.length = b'.code.length := hb.code.length_eq
  simp only [start, VerifyContext.of, List.size_toArray, hcode]

end Walk

theorem verifyWalk_alike (hm : m.SameFrame m') (hb : b.Alike b') :
    verifyWalk m b imports = verifyWalk m' b' imports := by
  have hempty : b.stream.isEmpty = b'.stream.isEmpty := by
    have hlen : b.stream.length = b'.stream.length := hb.size_eq
    rw [Bool.eq_iff_iff, List.isEmpty_iff_length_eq_zero, List.isEmpty_iff_length_eq_zero, hlen]
  have hwalk (rs : List Region) :
      (Walk.start (.of m b imports rs) >>= Walk.run (.of m b imports rs)) =
        Walk.start (.of m' b' imports rs) >>= Walk.run (.of m' b' imports rs) := by
    rw [Walk.start_alike m m' hb, funext (Walk.run_congr (Walk.visit_alike hm hb))]
  unfold verifyWalk
  rw [hempty, hb.regions_eq]
  cases b'.stream.isEmpty with
  | true => rfl
  | false => exact congrArg (b'.regions >>= ·) (funext hwalk)

/-- Bodies that are alike verify alike. -/
theorem verifyBody_alike (hm : m.SameFrame m') (hb : b.Alike b') :
    verifyBody m b imports = verifyBody m' b' imports := by
  rw [verifyBody, verifyBody, verifyWalk_alike hm hb]

end Interpose
