import Interpose.Body.Basic
/-!
# Listings

The text of a body: slots, instructions under their positions, and handlers. A target
or anchor that is not in the body is shown as its id.
-/
namespace Interpose.Body

/-- A place in the body as listings show it. -/
def label (b : Body) (id : InstructionId) : String :=
  match b.position? id with
  | some pos => location pos
  | none => InstructionId.text id

/-- The end of a range as listings show it. -/
def endLabel (b : Body) : Option InstructionId → String
  | none => "end"
  | some id => b.label id

/-- The line of a slot. -/
def slotLine (index : Nat) (s : Slot) : String :=
  "    # [" ++ toString index ++ "] " ++ s.ty.name ++ " " ++ s.name?.getD "" ++ "\n"

/-- The line of an instruction. -/
def instructionLine (b : Body) (pos : Nat) (i : Instruction) : String :=
  let text := match i.target? with
    | some t => i.opcode.mnemonic ++ " " ++ b.label t
    | none => i.text
  "    " ++ location pos ++ "  " ++ text ++ "\n"

/-- What a handler catches, as listings show it. -/
def kindText : HandlerKind → String
  | .catchAll => "catch_all"
  | .catchClass name => "catch " ++ name

/-- The line of a handler. -/
def handlerLine (b : Body) (h : Handler) : String :=
  "    # try [" ++ b.label h.tryStart ++ ".." ++ b.endLabel h.tryEnd? ++ "] " ++ kindText h.kind ++
    " -> [" ++ b.label h.handlerStart ++ ".." ++ b.endLabel h.handlerEnd? ++ "]\n"

/-- The line of each element, with the number of its place counted from `n`. -/
def numbered {α : Type} (line : Nat → α → String) : Nat → List α → List String
  | _, [] => []
  | n, a :: rest => line n a :: numbered line (n + 1) rest

/-- The listing of a body (`Body::fmt`). -/
def listing (b : Body) : String :=
  let head := "    # maxstack: " ++ toString b.maxStack.toNat ++ ", locals: " ++
    toString b.locals.size ++ "\n"
  String.join (head :: numbered slotLine 0 b.locals.toList ++
    numbered b.instructionLine 0 b.code ++ b.handlers.map b.handlerLine)

end Interpose.Body
