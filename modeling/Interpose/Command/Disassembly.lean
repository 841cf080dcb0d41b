import Interpose.Body.Listing
import Interpose.Module
/-!
# Disassembly

The readable text of a module: its libraries and imports, and each method with its
signature, slots, instructions and handlers.
-/
namespace Interpose.Command

/-- A method's signature as the disassembly shows it. -/
def signature (m : Method) : String :=
  let params := m.params.map fun p => p.ty.name ++ " " ++ p.name
  (if m.isStatic then "static " else "") ++ m.returnType.name ++ " " ++ m.name ++
    "(" ++ ", ".intercalate params ++ ")"

/-- An instruction with its target as a position and its member with its signature
(`format_insn`). -/
def instructionText (imports : ImportTable) (b : Body) (i : Instruction) : String :=
  match i.operand with
  | .target t => i.opcode.mnemonic ++ " -> " ++ b.label t
  | .member id =>
    match imports.get? id with
    | some member => i.opcode.mnemonic ++ " " ++ member.text
    | none => i.opcode.mnemonic ++ " <" ++ MemberId.text id ++ "?>"
  | _ => i.text

def slotText (index : Nat) (s : Slot) : String :=
  "    .local [" ++ toString index ++ "] " ++ s.ty.name ++ " " ++ s.name?.getD "" ++
    (if s.synthetic then " (synthetic)" else "") ++ "\n"

def handlerText (b : Body) (h : Handler) : String :=
  "    # try [" ++ b.label h.tryStart ++ ".." ++ b.endLabel h.tryEnd? ++ "]\n" ++
    "    #   " ++ Body.kindText h.kind ++ " -> [" ++ b.label h.handlerStart ++ ".." ++
    b.endLabel h.handlerEnd? ++ "]\n"

/-- The lines of a body. -/
def bodyText (imports : ImportTable) (b : Body) : String :=
  let head := "    # maxstack: " ++ toString b.maxStack.toNat ++ ", locals: " ++
    toString b.locals.size ++ ", code_size: " ++ toString b.size ++ "\n"
  let line (pos : Nat) (i : Instruction) :=
    "    " ++ location pos ++ "  " ++ instructionText imports b i ++ "\n"
  String.join (head :: Body.numbered slotText 0 b.locals.toList ++
    Body.numbered line 0 b.code ++ b.handlers.map (handlerText b))

/-- The lines of a method (`disasm_method`). -/
def methodText (imports : ImportTable) (m : Method) : String :=
  ".method " ++ signature m ++ " \x7b\n" ++
    String.join (m.attributes.map fun a => "    .custom " ++ a ++ "\n") ++
    (match m.body? with
      | some b => bodyText imports b
      | none => "    # (no body - external or abstract)\n") ++ "\x7d\n\n"

/-- The lines of a type. -/
def typeText (imports : ImportTable) (t : TypeDef) : String :=
  "# ============================================\n# Type: " ++ t.name ++ "\n# Methods: " ++
    toString t.methods.length ++ "\n\n" ++ String.join (t.methods.map (methodText imports))

/-- The text of a module (`cmd_disasm`). -/
def disassemble (m : Module) : String :=
  let library (l : Library) :=
    "# Reference: " ++ l.name ++ " (" ++ toString l.types.length ++ " types)\n"
  let member (id : Nat) (r : MemberRef) := "#   [" ++ toString id ++ "] " ++ r.text ++ "\n"
  "# Module: " ++ m.name ++ "\n" ++ (if m.metadataOnly then "# (metadata only)\n" else "") ++
    String.join (m.references.map library) ++
    "# Imports: " ++ toString m.imports.size ++ "\n" ++
    String.join (Body.numbered member 0 m.imports.entries) ++ "\n" ++
    String.join (m.types.map (typeText m.imports))

end Interpose.Command
