import Interpose.Body.Region
import Interpose.Method
import Interpose.Member
/-!
# Stack verification

Every reachable instruction is visited once with the depth of the evaluation stack
before it, and the depth after it is carried along the edges of control flow. A body
starts with an empty stack, a handler with the caught exception alone, and `leave`
empties the stack. The body is accepted if all ways to a position agree on its depth,
nothing is taken from an empty stack, a return leaves nothing behind, and control
never runs past the last instruction. Depths are sixteen-bit numbers and wrap.

Results:
* `enter_potential`, `visit_potential`: each visit uses up what a position not yet
  reached is worth, so the walk ends.
-/
namespace Interpose

/-- What the verifier looks an instruction up in. -/
structure VerifyContext where
  method : Method
  body : Body
  imports : ImportTable
  code : Array Instruction
  regions : List Region

/-- Is the operand of the right kind, and does what it names exist (`check_operand`)? -/
def checkOperand (m : Method) (b : Body) (imports : ImportTable) (i : Instruction) :
    Except CodeError Unit :=
  if i.isValid then
    match i.operand with
    | .argument index =>
      if index < m.argCount then .ok () else .error (.argumentOutOfRange index m.argCount)
    | .slot id => if (b.local? id).isSome then .ok () else .error (.unknownSlot id)
    | .member id => if (imports.get? id).isSome then .ok () else .error (.unknownMember id)
    | _ => .ok ()
  else .error (.operandMismatch i.opcode)

/-- Values that an instruction takes from the stack and then puts on it (`stack_effect`). -/
def stackEffect (m : Method) (imports : ImportTable) (i : Instruction) :
    Except CodeError (UInt16 × UInt16) :=
  match i.opcode.fixedEffect? with
  | some effect => .ok effect
  | none =>
    if i.opcode = .ret then .ok (if m.returnType.isVoid then 0 else 1, 0)
    else
      match i.member? with
      | none => .error (.operandMismatch i.opcode)
      | some id =>
        match imports.get? id with
        | none => .error (.unknownMember id)
        | some r =>
          let args := UInt16.ofNat r.params.length
          if i.opcode = .newobj then .ok (args, 1)
          else .ok (args + if r.hasThis then 1 else 0, if r.returnType.isVoid then 0 else 1)

/-- A walk over the reachable positions. -/
structure Walk where
  /-- The depth found for each position. -/
  depths : Array (Option UInt16)
  /-- Positions that have a depth and wait for a visit, the next one first. -/
  work : List Nat
  /-- The greatest depth so far. -/
  maxStack : UInt16

namespace Walk

/-- Positions that have no depth yet. -/
def unreached (w : Walk) : Nat := w.depths.count none

/-- What is left to do: a position not yet reached is worth more than one that waits. -/
def potential (w : Walk) : Nat := 2 * w.unreached + w.work.length

/-- Reaches a position with a depth. The first time it is put to work; later the depth
has to agree. -/
def enter (w : Walk) (pos : Nat) (depth : UInt16) : Except CodeError Walk :=
  match w.depths[pos]? with
  | some none =>
    .ok { w with depths := w.depths.setIfInBounds pos (some depth), work := pos :: w.work }
  | some (some expected) =>
    if expected = depth then .ok w else .error (.stackMismatch pos expected depth)
  | none => .ok w

theorem enter_potential {w w' : Walk} {pos : Nat} {depth : UInt16}
    (h : w.enter pos depth = .ok w') : w'.potential ≤ w.potential := by
  rw [enter] at h
  split at h
  · next hp =>
    cases h
    obtain ⟨hlt, hget⟩ := Array.getElem?_eq_some_iff.1 hp
    have hc : 0 < w.depths.count none := Array.count_pos_iff.2 (hget ▸ Array.getElem_mem hlt)
    have hset : (w.depths.setIfInBounds pos (some depth)).count none = w.depths.count none - 1 := by
      rw [Array.setIfInBounds, dif_pos hlt, Array.count_set hlt]
      simp [hget]
    simp only [potential, unreached, hset, List.length_cons]
    omega
  · split at h
    · cases h; exact Nat.le_refl _
    · cases h
  · cases h; exact Nat.le_refl _

/-- The position of a branch target. -/
def target (c : VerifyContext) (i : Instruction) : Except CodeError Nat :=
  match i.target? with
  | some id => c.body.anchor id
  | none => .error (.operandMismatch i.opcode)

/-- Goes on to the next instruction. -/
def fallThrough (c : VerifyContext) (w : Walk) (pos : Nat) (depth : UInt16) :
    Except CodeError Walk :=
  if pos + 1 < c.code.size then w.enter (pos + 1) depth else .error (.fallsOffEnd pos)

/-- Follows the edges out of a position, with the depth after its instruction. -/
def follow (c : VerifyContext) (w : Walk) (pos : Nat) (i : Instruction) (depth : UInt16) :
    Except CodeError Walk :=
  match i.opcode.flow with
  | .next => fallThrough c w pos depth
  | .branch => do w.enter (← target c i) depth
  | .condBranch => do
    let w ← w.enter (← target c i) depth
    fallThrough c w pos depth
  | .leave => do w.enter (← target c i) 0
  | .ret =>
    if c.regions.any fun r => r.tryRange.contains pos || r.handlerRange.contains pos then
      .error (.returnInProtectedRegion pos)
    else if depth ≠ 0 then .error (.unbalancedReturn depth pos)
    else .ok w
  | .throw =>
    if i.opcode = .rethrow ∧ ¬ c.regions.any fun r => r.handlerRange.contains pos then
      .error (.rethrowOutsideHandler pos)
    else .ok w

/-- Visits a position that has a depth (`verify_body`). -/
def visit (c : VerifyContext) (w : Walk) (pos : Nat) : Except CodeError Walk := do
  let depth := (w.depths[pos]?.join).getD 0
  let i := c.code[pos]?.getD default
  checkOperand c.method c.body c.imports i
  let (pops, pushes) ← stackEffect c.method c.imports i
  if depth < pops then
    .error (.stackUnderflow pos i.opcode pops depth)
  else
    let after := depth - pops + pushes
    follow c { w with maxStack := max w.maxStack after } pos i after

theorem fallThrough_potential {c : VerifyContext} {w w' : Walk} {pos : Nat} {depth : UInt16}
    (h : fallThrough c w pos depth = .ok w') : w'.potential ≤ w.potential := by
  rw [fallThrough] at h
  split at h
  · exact enter_potential h
  · cases h

theorem follow_potential {c : VerifyContext} {w w' : Walk} {pos : Nat} {i : Instruction}
    {depth : UInt16} (h : follow c w pos i depth = .ok w') : w'.potential ≤ w.potential := by
  rw [follow] at h
  split at h
  · exact fallThrough_potential h
  · cases ht : target c i with
    | error e => rw [ht] at h; cases h
    | ok t => rw [ht] at h; exact enter_potential h
  · cases ht : target c i with
    | error e => rw [ht] at h; cases h
    | ok t =>
      cases he : w.enter t depth with
      | error e => simp only [ht, bind, Except.bind, he] at h; cases h
      | ok w₁ =>
        simp only [ht, bind, Except.bind, he] at h
        exact Nat.le_trans (fallThrough_potential h) (enter_potential he)
  · cases ht : target c i with
    | error e => rw [ht] at h; cases h
    | ok t => rw [ht] at h; exact enter_potential h
  · split at h
    · cases h
    · split at h
      · cases h
      · cases h; exact Nat.le_refl _
  · split at h
    · cases h
    · cases h; exact Nat.le_refl _

theorem visit_potential {c : VerifyContext} {w w' : Walk} {pos : Nat}
    (h : visit c w pos = .ok w') : w'.potential ≤ w.potential := by
  simp only [visit, bind, Except.bind] at h
  split at h
  · cases h
  · split at h
    · cases h
    · split at h
      · cases h
      · have hp := follow_potential h
        exact hp

/-- Visits what waits until nothing does. -/
def run (c : VerifyContext) (w : Walk) : Except CodeError Walk :=
  match _hw : w.work with
  | [] => .ok w
  | pos :: rest =>
    match _hv : visit c { w with work := rest } pos with
    | .error e => .error e
    | .ok w' => run c w'
termination_by w.potential
decreasing_by
  have h := visit_potential _hv
  simp only [potential, unreached, _hw, List.length_cons] at h ⊢
  omega

/-- Enters the handlers that start inside the body, with the caught exception on the
stack. -/
def enterHandlers (size : Nat) (w : Walk) : List Region → Except CodeError Walk
  | [] => .ok w
  | r :: rest =>
    if r.handlerRange.start < size then do
      let w ← w.enter r.handlerRange.start 1
      enterHandlers size { w with maxStack := max w.maxStack 1 } rest
    else enterHandlers size w rest

/-- The walk before its first visit: the start of the body and the handlers wait. -/
def start (c : VerifyContext) : Except CodeError Walk := do
  let fresh : Walk := ⟨Array.replicate c.code.size none, [], 0⟩
  let w ← fresh.enter 0 0
  w.enterHandlers c.code.size c.regions

end Walk

/-- Walks over a body as the body of a method, to the end. -/
def verifyWalk (m : Method) (b : Body) (imports : ImportTable) : Except CodeError Walk := do
  if b.stream.isEmpty then
    throw .emptyBody
  let regions ← b.regions
  let c : VerifyContext := ⟨m, b, imports, b.code.toArray, regions⟩
  (← Walk.start c).run c

/-- Verifies a body as the body of a method; gives the greatest depth of its stack
(`verify_body`). -/
def verifyBody (m : Method) (b : Body) (imports : ImportTable) : Except CodeError UInt16 := do
  return (← verifyWalk m b imports).maxStack

/-- Verifies a method (`verify_method`). One without a body has nothing to verify. -/
def Method.verify (m : Method) (imports : ImportTable) : Except CodeError UInt16 :=
  match m.body? with
  | none => .error .emptyBody
  | some b => verifyBody m b imports

end Interpose
