import Interpose.Decimal.Layout
import Interpose.Opcode
import Interpose.Ty
/-!
# Instructions

An instruction is an opcode with an operand. Nothing forces the operand to be of the
opcode's kind; `Instruction.isValid` says whether it is.
-/
namespace Interpose

/-- Names an instruction of a body (`InsnId`). Edits keep it, whatever moves around it. Ids are
counted without a bound; stored in 32 bits they are the same in a body of less than `2 ^ 32`
entries. -/
abbrev InstructionId := Nat

/-- Index into a module's import table (`MemberRefId`). As an `InstructionId`, it is the same stored
in 32 bits as long as the table has less than `2 ^ 32` entries. -/
abbrev MemberId := Nat

/-- Index of a local slot (`LocalId`). -/
abbrev SlotId := UInt16

/-- What an instruction works on. -/
inductive Operand
  | none
  | int32 (value : Int32)
  | int64 (value : Int64)
  | float64 (value : Binary64)
  | text (value : String)
  /-- An argument slot; the receiver of an instance method is the first. -/
  | argument (index : UInt16)
  | slot (id : SlotId)
  | target (id : InstructionId)
  | ty (type : Ty)
  | member (id : MemberId)
deriving DecidableEq, Inhabited

namespace Operand

def kind : Operand → OperandKind
  | none => .none
  | int32 _ => .int32
  | int64 _ => .int64
  | float64 _ => .float64
  | text _ => .text
  | argument _ => .argument
  | slot _ => .slot
  | target _ => .target
  | ty _ => .ty
  | member _ => .member

/-- The structure of the operand, for diagnostics. -/
def inspect : Operand → String
  | none => "None"
  | int32 v => "I32(" ++ toString v.toInt ++ ")"
  | int64 v => "I64(" ++ toString v.toInt ++ ")"
  | float64 v => "F64(" ++ Decimal.Layout.detailed.text v ++ ")"
  | text s => "Str(" ++ Text.quoted s ++ ")"
  | argument i => "Arg(" ++ toString i.toNat ++ ")"
  | slot i => "Local(LocalId(" ++ toString i.toNat ++ "))"
  | target i => "Target(InsnId(" ++ toString i ++ "))"
  | ty t => "Type(" ++ t.inspect ++ ")"
  | member i => "Member(MemberRefId(" ++ toString i ++ "))"

end Operand

/-- An instruction's name in messages. -/
def InstructionId.text (id : InstructionId) : String := "#" ++ toString id

/-- A local slot's name in messages and listings. -/
def SlotId.text (id : SlotId) : String := "V_" ++ toString id.toNat

/-- An imported member's name in messages and listings. -/
def MemberId.text (id : MemberId) : String := "member#" ++ toString id

structure Instruction where
  opcode : Opcode
  operand : Operand
deriving DecidableEq, Inhabited

namespace Instruction

/-- An instruction without operand. -/
def plain (op : Opcode) : Instruction := ⟨op, .none⟩

def ldarg (index : UInt16) : Instruction := ⟨.ldarg, .argument index⟩
def ldloc (id : SlotId) : Instruction := ⟨.ldloc, .slot id⟩
def stloc (id : SlotId) : Instruction := ⟨.stloc, .slot id⟩
def ldstr (s : String) : Instruction := ⟨.ldstr, .text s⟩
def ldcI4 (v : Int32) : Instruction := ⟨.ldcI4, .int32 v⟩
def leave (target : InstructionId) : Instruction := ⟨.leave, .target target⟩
def call (member : MemberId) : Instruction := ⟨.call, .member member⟩
def callvirt (member : MemberId) : Instruction := ⟨.callvirt, .member member⟩
def newarr (element : Ty) : Instruction := ⟨.newarr, .ty element⟩
def box (type : Ty) : Instruction := ⟨.box, .ty type⟩

/-- The branch target, if the operand is one (`Instruction::target`). -/
def target? (i : Instruction) : Option InstructionId :=
  match i.operand with
  | .target id => some id
  | _ => none

/-- The member, if the operand is one (`Instruction::member`). -/
def member? (i : Instruction) : Option MemberId :=
  match i.operand with
  | .member id => some id
  | _ => none

theorem operand_of_target? {i : Instruction} {id : InstructionId} (h : i.target? = some id) :
    i.operand = .target id := by
  unfold target? at h
  split at h
  · next hoperand => rw [hoperand, Option.some.inj h]
  · cases h

theorem operand_of_member? {i : Instruction} {id : MemberId} (h : i.member? = some id) :
    i.operand = .member id := by
  unfold member? at h
  split at h
  · next hoperand => rw [hoperand, Option.some.inj h]
  · cases h

/-- Is the operand of the opcode's kind (`Instruction::validate`)? -/
def isValid (i : Instruction) : Bool := i.opcode.operandKind == i.operand.kind

/-- The text in listings: the mnemonic and the operand (`Instruction::fmt`). -/
def text (i : Instruction) : String :=
  i.opcode.mnemonic ++ match i.operand with
    | .none => ""
    | .int32 v => " " ++ toString v.toInt
    | .int64 v => " " ++ toString v.toInt
    | .float64 v => " " ++ Decimal.Layout.plain.text v
    | .text s => " " ++ Text.quoted s
    | .argument a => " " ++ toString a.toNat
    | .slot l => " " ++ SlotId.text l
    | .target t => " -> " ++ InstructionId.text t
    | .ty t => " " ++ t.name
    | .member m => " " ++ MemberId.text m

end Instruction

end Interpose
