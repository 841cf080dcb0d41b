/-!
# Opcodes

The instruction set of the stack machine: mnemonics, the operand an opcode carries,
where control goes, and how the evaluation stack changes where that does not depend on
a signature.

Results:
* `mem_all`: `all` lists every opcode.
* `ofKey?_key`: an opcode is found by its key.
-/
namespace Interpose

inductive Opcode
  | nop | ldnull | ldcI4 | ldcI8 | ldcR8 | ldstr | ldarg | starg | ldloc | stloc
  | dup | pop | add | sub | mul | div | rem | neg | ceq | clt | cgt
  | br | brtrue | brfalse | leave | ret | throw | rethrow
  | call | callvirt | newobj | newarr | ldlen | ldelem | stelem | box | unbox
deriving DecidableEq, Inhabited

/-- What an operand holds. -/
inductive OperandKind
  | none | int32 | int64 | float64 | text | argument | slot | target | ty | member
deriving DecidableEq

/-- Where control goes after an instruction. -/
inductive Flow
  | next
  | branch
  /-- To the target, or on to the next instruction. -/
  | condBranch
  /-- Out of a protected region, with an empty stack, to the target. -/
  | leave
  | ret
  | throw
deriving DecidableEq

namespace Opcode

/-- The opcodes in the order of the instruction set. -/
def all : List Opcode :=
  [nop, ldnull, ldcI4, ldcI8, ldcR8, ldstr, ldarg, starg, ldloc, stloc,
    dup, pop, add, sub, mul, div, rem, neg, ceq, clt, cgt,
    br, brtrue, brfalse, leave, ret, throw, rethrow,
    call, callvirt, newobj, newarr, ldlen, ldelem, stelem, box, unbox]

theorem mem_all (op : Opcode) : op ∈ all := by cases op <;> decide

/-- The name in listings (`Opcode::mnemonic`). -/
def mnemonic : Opcode → String
  | nop => "nop" | ldnull => "ldnull" | ldcI4 => "ldc.i4" | ldcI8 => "ldc.i8"
  | ldcR8 => "ldc.r8" | ldstr => "ldstr" | ldarg => "ldarg" | starg => "starg"
  | ldloc => "ldloc" | stloc => "stloc" | dup => "dup" | pop => "pop" | add => "add"
  | sub => "sub" | mul => "mul" | div => "div" | rem => "rem" | neg => "neg"
  | ceq => "ceq" | clt => "clt" | cgt => "cgt" | br => "br" | brtrue => "brtrue"
  | brfalse => "brfalse" | leave => "leave" | ret => "ret" | throw => "throw"
  | rethrow => "rethrow" | call => "call" | callvirt => "callvirt" | newobj => "newobj"
  | newarr => "newarr" | ldlen => "ldlen" | ldelem => "ldelem" | stelem => "stelem"
  | box => "box" | unbox => "unbox"

/-- The name in documents: the mnemonic with `_` for `.`. -/
def key : Opcode → String
  | ldcI4 => "ldc_i4"
  | ldcI8 => "ldc_i8"
  | ldcR8 => "ldc_r8"
  | op => op.mnemonic

/-- The opcode with this key. -/
def ofKey? (s : String) : Option Opcode := all.find? (·.key == s)

theorem ofKey?_key (op : Opcode) : ofKey? op.key = some op := by cases op <;> decide

/-- The operand that the opcode carries (`Opcode::operand_kind`). -/
def operandKind : Opcode → OperandKind
  | ldcI4 => .int32
  | ldcI8 => .int64
  | ldcR8 => .float64
  | ldstr => .text
  | ldarg | starg => .argument
  | ldloc | stloc => .slot
  | br | brtrue | brfalse | leave => .target
  | newarr | box | unbox => .ty
  | call | callvirt | newobj => .member
  | _ => .none

/-- Where control goes (`Opcode::flow`). -/
def flow : Opcode → Flow
  | br => .branch
  | brtrue | brfalse => .condBranch
  | leave => .leave
  | ret => .ret
  | throw | rethrow => .throw
  | _ => .next

/-- Values taken from the stack and then put on it; `none` where a signature decides
(`Opcode::fixed_stack_effect`). -/
def fixedEffect? : Opcode → Option (UInt16 × UInt16)
  | nop | br | leave | rethrow => some (0, 0)
  | ldnull | ldcI4 | ldcI8 | ldcR8 | ldstr | ldarg | ldloc => some (0, 1)
  | starg | stloc | pop | brtrue | brfalse | throw => some (1, 0)
  | dup => some (1, 2)
  | add | sub | mul | div | rem | ceq | clt | cgt | ldelem => some (2, 1)
  | neg | newarr | ldlen | box | unbox => some (1, 1)
  | stelem => some (3, 0)
  | ret | call | callvirt | newobj => none

end Opcode

end Interpose
