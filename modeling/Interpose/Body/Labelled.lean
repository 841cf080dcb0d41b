import Interpose.Body.Basic
/-!
# Labelled bodies

The form in which a body is kept: every instruction bears a label, and targets and
handler anchors are labels. Decoding gives ids in list order; encoding uses positions
as labels.

Results:
* `firstRepeated?_eq_none_iff`: no label is repeated iff the labels are distinct.
-/
namespace Interpose

/-- A body with labels for ids (`BodyRepr`). -/
structure LabelledBody where
  locals : Array Slot := #[]
  /-- Labels and instructions, whose targets are labels. -/
  code : List (Nat × Instruction)
  /-- Handlers whose anchors are labels. -/
  handlers : List Handler := []
  maxStack : UInt16 := 0

/-- Renames the target of a branch. -/
def Instruction.mapTarget (f : Nat → Except CodeError Nat) (i : Instruction) :
    Except CodeError Instruction :=
  match i.operand with
  | .target t => do return ⟨i.opcode, .target (← f t)⟩
  | _ => .ok i

/-- Renames an anchor that may be absent. -/
def mapAnchor? (f : Nat → Except CodeError Nat) : Option Nat → Except CodeError (Option Nat)
  | none => .ok none
  | some id => do return some (← f id)

/-- Renames the anchors of a handler, in the order of its fields. -/
def Handler.mapAnchors (f : Nat → Except CodeError Nat) (h : Handler) :
    Except CodeError Handler := do
  let tryStart ← f h.tryStart
  let tryEnd? ← mapAnchor? f h.tryEnd?
  let handlerStart ← f h.handlerStart
  let handlerEnd? ← mapAnchor? f h.handlerEnd?
  return ⟨h.kind, tryStart, tryEnd?, handlerStart, handlerEnd?⟩

/-- Applies a step that may fail to each element in turn. -/
def traverse {α β : Type} (f : α → Except CodeError β) : List α → Except CodeError (List β)
  | [] => .ok []
  | a :: rest => do
    let b ← f a
    return b :: (← traverse f rest)

namespace LabelledBody

/-- The first number of a list that occurred before, `seen` having gone before it. -/
def firstRepeated? (seen : List Nat) : List Nat → Option Nat
  | [] => none
  | n :: rest => if seen.contains n then some n else firstRepeated? (n :: seen) rest

theorem firstRepeated?_eq_none_iff (seen labels : List Nat) :
    firstRepeated? seen labels = none ↔ labels.Nodup ∧ ∀ n ∈ labels, n ∉ seen := by
  induction labels generalizing seen with
  | nil => simp [firstRepeated?]
  | cons n rest ih =>
    rw [firstRepeated?]
    by_cases h : n ∈ seen
    · simp [h]
    · simp only [List.contains_iff_mem, h, if_false, ih, List.mem_cons, not_or, List.nodup_cons,
        forall_eq_or_imp, not_false_eq_true, true_and]
      constructor
      · rintro ⟨nd, out⟩
        exact ⟨⟨fun hn => (out n hn).1 rfl, nd⟩, fun m hm => (out m hm).2⟩
      · rintro ⟨⟨hn, nd⟩, out⟩
        exact ⟨nd, fun m hm => ⟨fun e => hn (e ▸ hm), out m hm⟩⟩

/-- The labels in list order. -/
def labels (l : LabelledBody) : List Nat := l.code.map (·.1)

/-- The id of the instruction with this label. -/
def resolve (labels : List Nat) (label : Nat) : Except CodeError InstructionId :=
  match labels.idxOf? label with
  | some id => .ok id
  | none => .error (.undefinedLabel label)

/-- The body with ids for labels (`Body::try_from`). A repeated label is reported first, then a
target without instruction, then an anchor without one. -/
def decode (l : LabelledBody) : Except CodeError Body :=
  match firstRepeated? [] l.labels with
  | some n => .error (.duplicateLabel n)
  | none => do
    let code ← traverse (·.mapTarget (resolve l.labels)) (l.code.map (·.2))
    let handlers ← traverse (·.mapAnchors (resolve l.labels)) l.handlers
    return { Body.ofList code with
      locals := l.locals
      handlers := handlers
      maxStack := l.maxStack }

end LabelledBody

namespace Body

/-- The body with positions as labels (`Body::repr`). A target or anchor outside the body has
none. -/
def encode (b : Body) : Except CodeError LabelledBody := do
  let code ← traverse (·.mapTarget b.anchor) b.code
  let handlers ← traverse (·.mapAnchors b.anchor) b.handlers
  return ⟨b.locals, Body.number 0 code, handlers, b.maxStack⟩

end Body

end Interpose
