import Interpose.Text.Blank
import Interpose.Text.Quoted
/-!
# Types

Types as they appear in signatures, local slots and operands, and their names. A
name is read with blanks dropped at either end and before each `[]`; it is written
without them.

Here and in the other modules of the model, a name in parentheses at the end of a
docstring's first sentence is the one that the program has for the definition.

Results:
* `name_array`: an array type is its element's name and `[]`.
-/
namespace Interpose

/-- A type of the stack machine's code (`TypeRef`). -/
inductive Ty
  | void
  | bool
  | int32
  | int64
  | float64
  | string
  /-- The type every value can be boxed to. -/
  | object
  | named (name : String)
  | array (element : Ty)
deriving DecidableEq, Inhabited

namespace Ty

/-- Is a value of this type copied, and so boxed before it is stored as an object
(`TypeRef::is_value_type`)? -/
def isValueType : Ty → Bool
  | bool | int32 | int64 | float64 => true
  | _ => false

def isVoid : Ty → Bool
  | void => true
  | _ => false

/-- The name in signatures and documents (`TypeRef::fmt`). -/
def name : Ty → String
  | void => "void"
  | bool => "bool"
  | int32 => "int32"
  | int64 => "int64"
  | float64 => "float64"
  | string => "string"
  | object => "object"
  | named n => n
  | array element => element.name ++ "[]"

theorem name_array (t : Ty) : (array t).name = t.name ++ "[]" := rfl

/-- The structure of the type, for diagnostics. -/
def inspect : Ty → String
  | void => "Void"
  | bool => "Bool"
  | int32 => "I32"
  | int64 => "I64"
  | float64 => "F64"
  | string => "String"
  | object => "Object"
  | named n => "Class(" ++ Text.quoted n ++ ")"
  | array element => "Array(" ++ element.inspect ++ ")"

/-! ## Reading names -/

/-- The text before a final `[]`. -/
def dropBrackets? (cs : List Char) : Option (List Char) :=
  match cs.reverse with
  | ']' :: '[' :: rest => some rest.reverse
  | _ => none

theorem dropBrackets?_eq_some {cs rest : List Char} (h : dropBrackets? cs = some rest) :
    cs = rest ++ ['[', ']'] := by
  unfold dropBrackets? at h
  split at h
  · next r e =>
    cases h
    simpa using congrArg List.reverse e
  · cases h

theorem length_of_dropBrackets? {cs rest : List Char} (h : dropBrackets? cs = some rest) :
    rest.length < cs.length := by
  simp [dropBrackets?_eq_some h]

/-- The type of a name without a final `[]`: a keyword, or a class name without
brackets and blanks. -/
def ofBase? (s : String) : Option Ty :=
  if s = "void" then some void
  else if s = "bool" then some bool
  else if s = "int32" then some int32
  else if s = "int64" then some int64
  else if s = "float64" then some float64
  else if s = "string" then some string
  else if s = "object" then some object
  else if s.isEmpty || s.toList.any fun c => c == '[' || c == ']' || Text.isBlank c then none
  else some (named s)

/-- Reads a type name; a failure gives the part that is no name. -/
def ofChars (cs : List Char) : Except String Ty :=
  match _h : dropBrackets? (Text.trim cs) with
  | some rest => array <$> ofChars rest
  | none =>
    let base := String.ofList (Text.trim cs)
    match ofBase? base with
    | some t => .ok t
    | none => .error base
termination_by cs.length
decreasing_by exact Nat.lt_of_lt_of_le (length_of_dropBrackets? ‹_›) (Text.length_trim_le cs)

/-- Reads a type name (`TypeRef::from_str`). -/
def parse (s : String) : Except String Ty := ofChars s.toList

/-- The type of an array of boxed values. -/
def objectArray : Ty := array object

end Ty

end Interpose
