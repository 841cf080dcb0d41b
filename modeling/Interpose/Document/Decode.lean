import Interpose.Body.Labelled
import Interpose.Decimal.Reading
import Interpose.Json.Basic
import Interpose.Module
/-!
# Reading documents

Modules and their parts as documents keep them. Members with a default may be absent,
members that are not known are passed over, and a list may be `null` for an empty one.
The members of an object are read in the order of their names; that one is absent which
must be there is found after all that are there have been read.

Results:
* `decodeFlags_blank`: a blank text is no flags.
-/
namespace Interpose

/-- Why a document is refused: its shape, or what it says. -/
inductive DecodeError
  | shape
  | code (cause : CodeError)
deriving DecidableEq

abbrev Decoded (α : Type) := Except DecodeError α

namespace Document

/-! ## Parts of any document -/

def decodeString : Json → Decoded String
  | .str s => .ok s
  | _ => .error .shape

def decodeBool : Json → Decoded Bool
  | .bool b => .ok b
  | _ => .error .shape

/-- A natural number below `limit`. -/
def decodeNat (limit : Nat) : Json → Decoded Nat
  | .int i => if 0 ≤ i ∧ i < limit then .ok i.toNat else .error .shape
  | _ => .error .shape

def decodeUInt16 (j : Json) : Decoded UInt16 := UInt16.ofNat <$> decodeNat 0x10000 j

def decodeUInt32 (j : Json) : Decoded Nat := decodeNat 0x100000000 j

/-- The results of a reader on each item in turn. -/
def decodeItems {α : Type} (dec : Json → Decoded α) : List Json → Decoded (List α)
  | [] => .ok []
  | j :: rest => do
    let a ← dec j
    return a :: (← decodeItems dec rest)

def decodeList {α : Type} (dec : Json → Decoded α) : Json → Decoded (List α)
  | .null => .ok []
  | .arr items => decodeItems dec items
  | _ => .error .shape

/-- A value that may be `null`. -/
def decodeNullable {α : Type} (dec : Json → Decoded α) : Json → Decoded (Option α)
  | .null => .ok none
  | j => some <$> dec j

/-- The members of an object. -/
def decodeObject : Json → Decoded (List (String × Json))
  | .obj members => .ok members
  | _ => .error .shape

/-- A member that may be absent. -/
def decodeMember? {α : Type} (members : List (String × Json)) (key : String)
    (dec : Json → Decoded α) : Decoded (Option α) :=
  match Json.member? members key with
  | none => .ok none
  | some j => some <$> dec j

/-- A member that must be there. -/
def need {α : Type} : Option α → Decoded α
  | some a => .ok a
  | none => .error .shape

/-! ## Instructions -/

def decodeTy (j : Json) : Decoded Ty := do
  match Ty.parse (← decodeString j) with
  | .ok t => .ok t
  | .error name => .error (.code (.invalidType name))

def decodeOpcode (j : Json) : Decoded Opcode := do
  need (Opcode.ofKey? (← decodeString j))

def decodeInt32 : Json → Decoded Int32
  | .int i => if -0x80000000 ≤ i ∧ i < 0x80000000 then .ok (Int32.ofInt i) else .error .shape
  | _ => .error .shape

/-- A 64-bit number, written in decimal between quotes. -/
def decodeInt64 (j : Json) : Decoded Int64 := do
  (Decimal.readInt64 (← decodeString j)).mapError fun _ => .shape

/-- A floating-point number, written as the sixteen hexadecimal digits of its pattern; any
NaN is `nan`. -/
def decodeFloat (j : Json) : Decoded Binary64 := do
  let s ← decodeString j
  if s = "nan" then return .nan
  else
    let ds := s.toList
    let values := ds.filterMap (Decimal.digitValue? 16)
    if ds.length = 16 ∧ values.length = 16 then
      return Binary64.canonical ⟨UInt64.ofNat (values.foldl (fun n d => 16 * n + d) 0)⟩
    else throw .shape

/-- An operand: `none`, or an object of one member that is named for its kind. -/
def decodeOperand : Json → Decoded Operand
  | .str "none" => .ok .none
  | .obj [(kind, j)] =>
    match kind with
    | "i32" => .int32 <$> decodeInt32 j
    | "i64" => .int64 <$> decodeInt64 j
    | "f64" => .float64 <$> decodeFloat j
    | "str" => .text <$> decodeString j
    | "arg" => .argument <$> decodeUInt16 j
    | "local" => .slot <$> decodeUInt16 j
    | "target" => .target <$> decodeUInt32 j
    | "type" => .ty <$> decodeTy j
    | "member" => .member <$> decodeUInt32 j
    | _ => .error .shape
  | _ => .error .shape

def decodeInstruction (j : Json) : Decoded Instruction := do
  let members ← decodeObject j
  let opcode ← decodeMember? members "op" decodeOpcode
  let operand ← decodeMember? members "operand" decodeOperand
  return ⟨← need opcode, operand.getD .none⟩

/-- An instruction with a label. -/
def decodeLabelled (j : Json) : Decoded (Nat × Instruction) := do
  let members ← decodeObject j
  let label ← decodeMember? members "label" decodeUInt32
  let instruction ← decodeInstruction j
  return (← need label, instruction)

/-! ## Bodies -/

def decodeSlot (j : Json) : Decoded Slot := do
  let members ← decodeObject j
  let name ← decodeMember? members "name" (decodeNullable decodeString)
  let synthetic ← decodeMember? members "synthetic" decodeBool
  let ty ← decodeMember? members "ty" decodeTy
  return ⟨← need ty, name.join, synthetic.getD false⟩

def decodeHandlerKind : Json → Decoded HandlerKind
  | .str "catch_all" => .ok .catchAll
  | .obj [("catch", j)] => .catchClass <$> decodeString j
  | _ => .error .shape

/-- A handler; its anchors are labels or ids. -/
def decodeHandler (j : Json) : Decoded Handler := do
  let members ← decodeObject j
  let handlerEnd ← decodeMember? members "handler_end" (decodeNullable decodeUInt32)
  let handlerStart ← decodeMember? members "handler_start" decodeUInt32
  let kind ← decodeMember? members "kind" decodeHandlerKind
  let tryEnd ← decodeMember? members "try_end" (decodeNullable decodeUInt32)
  let tryStart ← decodeMember? members "try_start" decodeUInt32
  return ⟨← need kind, ← need tryStart, tryEnd.join, ← need handlerStart, handlerEnd.join⟩

def decodeBody (j : Json) : Decoded Body := do
  let members ← decodeObject j
  let code ← decodeMember? members "code" (decodeList decodeLabelled)
  let handlers ← decodeMember? members "handlers" (decodeList decodeHandler)
  let locals ← decodeMember? members "locals" (decodeList decodeSlot)
  let maxStack ← decodeMember? members "max_stack" decodeUInt16
  let labelled : LabelledBody :=
    ⟨(locals.getD []).toArray, ← need code, handlers.getD [], maxStack.getD 0⟩
  labelled.decode.mapError .code

/-! ## Methods -/

/-- The flag that a piece of a flag text names. -/
def decodeFlag (piece : List Char) : Decoded MethodFlags :=
  match piece with
  | '0' :: 'x' :: digits =>
    match Decimal.readHex32 digits with
    | .ok bits => .ok ⟨bits⟩
    | .error _ => .error .shape
  | _ => need (MethodFlags.names.lookup (String.ofList piece))

/-- The pieces of a text between bars. -/
def splitBars : List Char → List (List Char)
  | [] => [[]]
  | '|' :: rest => [] :: splitBars rest
  | c :: rest =>
    match splitBars rest with
    | piece :: pieces => (c :: piece) :: pieces
    | [] => [[c]]

/-- Reads flags: names and numbers with bars between them, or a blank text for none. -/
def decodeFlagText (s : String) : Decoded MethodFlags :=
  if s.toList.all Text.isBlank then .ok {}
  else
    (splitBars s.toList).foldlM
      (fun flags piece => do return flags.union (← decodeFlag (Text.trim piece))) {}

theorem decodeFlags_blank {s : String} (h : s.toList.all Text.isBlank = true) :
    decodeFlagText s = .ok {} := by
  simp [decodeFlagText, h]

def decodeFlags (j : Json) : Decoded MethodFlags := do
  decodeFlagText (← decodeString j)

def decodeParameter (j : Json) : Decoded Parameter := do
  let members ← decodeObject j
  let index ← decodeMember? members "index" decodeUInt16
  let name ← decodeMember? members "name" decodeString
  let ty ← decodeMember? members "ty" decodeTy
  return ⟨← need index, ← need name, ← need ty⟩

def decodeMethod (j : Json) : Decoded Method := do
  let members ← decodeObject j
  let attributes ← decodeMember? members "attributes" (decodeList decodeString)
  let body ← decodeMember? members "body" (decodeNullable decodeBody)
  let flags ← decodeMember? members "flags" decodeFlags
  let name ← decodeMember? members "name" decodeString
  let params ← decodeMember? members "params" (decodeList decodeParameter)
  let returnType ← decodeMember? members "return_type" decodeTy
  return ⟨← need name, flags.getD {}, params.getD [], returnType.getD .void,
    attributes.getD [], body.join⟩

/-! ## Members and libraries -/

def decodeScope : Json → Decoded Scope
  | .str "module" => .ok .module
  | .obj [("library", j)] => .library <$> decodeString j
  | _ => .error .shape

def decodeMemberRef (j : Json) : Decoded MemberRef := do
  let members ← decodeObject j
  let isStatic ← decodeMember? members "is_static" decodeBool
  let name ← decodeMember? members "name" decodeString
  let owner ← decodeMember? members "owner" decodeString
  let params ← decodeMember? members "params" (decodeList decodeTy)
  let returnType ← decodeMember? members "return_type" decodeTy
  let scope ← decodeMember? members "scope" decodeScope
  return ⟨← need scope, ← need owner, ← need name, params.getD [], returnType.getD .void,
    isStatic.getD false⟩

def decodeSignature (j : Json) : Decoded Signature := do
  let members ← decodeObject j
  let isStatic ← decodeMember? members "is_static" decodeBool
  let name ← decodeMember? members "name" decodeString
  let params ← decodeMember? members "params" (decodeList decodeTy)
  let returnType ← decodeMember? members "return_type" decodeTy
  return ⟨← need name, params.getD [], returnType.getD .void, isStatic.getD false⟩

def decodeLibraryType (j : Json) : Decoded LibraryType := do
  let members ← decodeObject j
  let methods ← decodeMember? members "methods" (decodeList decodeSignature)
  let name ← decodeMember? members "name" decodeString
  return ⟨← need name, methods.getD []⟩

def decodeLibrary (j : Json) : Decoded Library := do
  let members ← decodeObject j
  let name ← decodeMember? members "name" decodeString
  let types ← decodeMember? members "types" (decodeList decodeLibraryType)
  return ⟨← need name, types.getD []⟩

/-- A descriptor. Its number of parameters may be left out if it is that of the parameter
types. -/
def decodeDescriptor (j : Json) : Decoded Descriptor := do
  let members ← decodeObject j
  let arity ← decodeMember? members "arity" decodeUInt32
  let name ← decodeMember? members "name" decodeString
  let owner ← decodeMember? members "owner" decodeString
  let params ← decodeMember? members "params" (decodeNullable (decodeList decodeTy))
  let params := params.join
  let arity ← need (arity.or (params.map List.length))
  return ⟨← need owner, ← need name, arity, params⟩

/-! ## Modules -/

def decodeTypeDef (j : Json) : Decoded TypeDef := do
  let members ← decodeObject j
  let methods ← decodeMember? members "methods" (decodeList decodeMethod)
  let name ← decodeMember? members "name" decodeString
  return ⟨← need name, methods.getD []⟩

def decodeModule (j : Json) : Decoded Module := do
  let members ← decodeObject j
  let imports ← decodeMember? members "imports" (decodeList decodeMemberRef)
  let metadataOnly ← decodeMember? members "metadata_only" decodeBool
  let name ← decodeMember? members "name" decodeString
  let references ← decodeMember? members "references" (decodeList decodeLibrary)
  let types ← decodeMember? members "types" (decodeList decodeTypeDef)
  return ⟨← need name, metadataOnly.getD false, types.getD [], ⟨imports.getD []⟩,
    references.getD []⟩

end Document

end Interpose
