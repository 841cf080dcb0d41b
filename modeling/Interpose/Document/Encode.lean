import Interpose.Body.Labelled
import Interpose.Json.Basic
import Interpose.Module
/-!
# Writing documents

Modules and their parts as documents keep them. An operand is left out where there is
none, attributes where there are none, a slot's name where it has none, and its mark
where it was declared; every other member is written.
-/
namespace Interpose.Document

def encodeTy (t : Ty) : Json := .str t.name

/-- Sixteen hexadecimal digits. -/
def hexPattern (bits : UInt64) : String :=
  let ds := Text.hexDigits bits.toNat
  String.ofList (List.replicate (16 - ds.length) '0' ++ ds)

def encodeFloat (x : Binary64) : Json := .str (if x.isNaN then "nan" else hexPattern x.bits)

def encodeInt64 (v : Int64) : Json := .str (toString v.toInt)

def encodeOperand : Operand → Json
  | .none => .str "none"
  | .int32 v => .obj [("i32", .int v.toInt)]
  | .int64 v => .obj [("i64", encodeInt64 v)]
  | .float64 v => .obj [("f64", encodeFloat v)]
  | .text s => .obj [("str", .str s)]
  | .argument a => .obj [("arg", .nat a.toNat)]
  | .slot l => .obj [("local", .nat l.toNat)]
  | .target t => .obj [("target", .nat t)]
  | .ty t => .obj [("type", encodeTy t)]
  | .member m => .obj [("member", .nat m)]

/-- The members of an instruction. -/
def instructionMembers (i : Instruction) : List (String × Json) :=
  ("op", .str i.opcode.key) ::
    match i.operand with
    | .none => []
    | o => [("operand", encodeOperand o)]

def encodeInstruction (i : Instruction) : Json := .obj (instructionMembers i)

def encodeSlot (s : Slot) : Json :=
  .obj (("ty", encodeTy s.ty) ::
    (match s.name? with
      | some name => [("name", .str name)]
      | none => []) ++
    if s.synthetic then [("synthetic", .bool true)] else [])

def encodeHandlerKind : HandlerKind → Json
  | .catchAll => .str "catch_all"
  | .catchClass name => .obj [("catch", .str name)]

def encodeHandler (h : Handler) : Json :=
  .obj [("kind", encodeHandlerKind h.kind),
    ("try_start", .nat h.tryStart),
    ("try_end", .ofOption .nat h.tryEnd?),
    ("handler_start", .nat h.handlerStart),
    ("handler_end", .ofOption .nat h.handlerEnd?)]

def encodeLabelledBody (l : LabelledBody) : Json :=
  .obj [("locals", .list encodeSlot l.locals.toList),
    ("code", .list (fun p => .obj (("label", .nat p.1) :: instructionMembers p.2)) l.code),
    ("handlers", .list encodeHandler l.handlers),
    ("max_stack", .nat l.maxStack.toNat)]

/-- A body. It has no written form if a target or an anchor is outside it. -/
def encodeBody (b : Body) : Except CodeError Json := encodeLabelledBody <$> b.encode

def encodeParameter (p : Parameter) : Json :=
  .obj [("index", .nat p.index.toNat), ("name", .str p.name), ("ty", encodeTy p.ty)]

def encodeMethod (m : Method) : Except CodeError Json := do
  let body ← match m.body? with
    | some b => encodeBody b
    | none => .ok .null
  return .obj ([("name", .str m.name), ("flags", .str m.flags.text),
    ("params", .list encodeParameter m.params), ("return_type", encodeTy m.returnType)] ++
    (if m.attributes.isEmpty then [] else [("attributes", .list .str m.attributes)]) ++
    [("body", body)])

def encodeScope : Scope → Json
  | .module => .str "module"
  | .library name => .obj [("library", .str name)]

def encodeMemberRef (m : MemberRef) : Json :=
  .obj [("scope", encodeScope m.scope), ("owner", .str m.owner), ("name", .str m.name),
    ("params", .list encodeTy m.params), ("return_type", encodeTy m.returnType),
    ("is_static", .bool m.isStatic)]

def encodeSignature (s : Signature) : Json :=
  .obj [("name", .str s.name), ("params", .list encodeTy s.params),
    ("return_type", encodeTy s.returnType), ("is_static", .bool s.isStatic)]

def encodeLibraryType (t : LibraryType) : Json :=
  .obj [("name", .str t.name), ("methods", .list encodeSignature t.methods)]

def encodeLibrary (l : Library) : Json :=
  .obj [("name", .str l.name), ("types", .list encodeLibraryType l.types)]

def encodeTypeDef (t : TypeDef) : Except CodeError Json := do
  let methods ← traverse encodeMethod t.methods
  return .obj [("name", .str t.name), ("methods", .arr methods)]

/-- A module. It has no written form if a body of it has none. -/
def encodeModule (m : Module) : Except CodeError Json := do
  let types ← traverse encodeTypeDef m.types
  return .obj [("name", .str m.name), ("metadata_only", .bool m.metadataOnly),
    ("types", .arr types), ("imports", .list encodeMemberRef m.imports.entries),
    ("references", .list encodeLibrary m.references)]

end Interpose.Document
