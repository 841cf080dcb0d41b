import Interpose.Instruction
/-!
# What is wrong with code

The causes for which a body is refused, by an edit, by reading it, or by the stack
verifier, and their wording.
-/
namespace Interpose

/-- Why a body or a type name is refused. -/
inductive CodeError
  | unknownInstruction (id : InstructionId)
  | undefinedLabel (label : Nat)
  | duplicateLabel (label : Nat)
  | unknownSlot (id : SlotId)
  /-- One slot too many: the number there would be. -/
  | tooManySlots (count : Nat)
  | unknownMember (id : MemberId)
  | argumentOutOfRange (index count : UInt16)
  | operandMismatch (op : Opcode)
  | stackUnderflow (pos : Nat) (op : Opcode) (needed depth : UInt16)
  | stackMismatch (pos : Nat) (expected found : UInt16)
  | unbalancedReturn (extra : UInt16) (pos : Nat)
  | returnInProtectedRegion (pos : Nat)
  | rethrowOutsideHandler (pos : Nat)
  | fallsOffEnd (pos : Nat)
  | invalidType (name : String)
  | emptyBody
deriving DecidableEq

/-- A position as listings show it: `IL_` and at least four digits. -/
def location (pos : Nat) : String :=
  let ds := Nat.toDigits 10 pos
  "IL_" ++ String.ofList (List.replicate (4 - ds.length) '0' ++ ds)

/-- A text between back quotes. -/
def ticked (s : String) : String := "`" ++ s ++ "`"

def CodeError.message : CodeError → String
  | unknownInstruction id =>
    "Instruction " ++ InstructionId.text id ++ " does not belong to this body"
  | undefinedLabel n => "Label " ++ toString n ++ " is referenced but never defined"
  | duplicateLabel n => "Label " ++ toString n ++ " is defined twice"
  | unknownSlot id => "Local " ++ SlotId.text id ++ " is not declared"
  | tooManySlots n => "Too many locals: " ++ toString n
  | unknownMember id => "Member reference " ++ MemberId.text id ++ " is not in the import table"
  | argumentOutOfRange index count =>
    "Argument " ++ toString index.toNat ++ " out of range (" ++ toString count.toNat ++
      " arguments)"
  | operandMismatch op => ticked op.mnemonic ++ " has an operand of the wrong kind"
  | stackUnderflow pos op needed depth =>
    "Stack underflow at " ++ location pos ++ ": " ++ ticked op.mnemonic ++ " needs " ++
      toString needed.toNat ++ ", depth is " ++ toString depth.toNat
  | stackMismatch pos expected found =>
    "Stack depth mismatch at " ++ location pos ++ ": " ++ toString expected.toNat ++ " vs " ++
      toString found.toNat
  | unbalancedReturn extra pos =>
    "Stack holds " ++ toString extra.toNat ++ " extra values at `ret` (" ++ location pos ++ ")"
  | returnInProtectedRegion pos => "`ret` inside a protected region at " ++ location pos
  | rethrowOutsideHandler pos => "`rethrow` outside a catch handler at " ++ location pos
  | fallsOffEnd pos => "Control falls off the end of the body after " ++ location pos
  | invalidType name => ticked name ++ " is not a valid type name"
  | emptyBody => "Method body is empty"

end Interpose
