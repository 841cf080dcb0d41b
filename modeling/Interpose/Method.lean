import Interpose.Body.Basic
/-!
# Methods

Method definitions: flags and their text, parameters, and the numbering of argument
slots, where the receiver of an instance method comes first. Slots are counted in
sixteen bits and wrap.
-/
namespace Interpose

/-- Method attributes, one per bit. Bits without a name are kept. -/
structure MethodFlags where
  bits : UInt32 := 0
deriving DecidableEq

namespace MethodFlags

def static : MethodFlags := ⟨1⟩
def abstract : MethodFlags := ⟨2⟩
/-- Implemented outside the module. -/
def external : MethodFlags := ⟨4⟩
def constructor : MethodFlags := ⟨8⟩

/-- The flags that have names, in the order in which they are written. -/
def names : List (String × MethodFlags) :=
  [("STATIC", static), ("ABSTRACT", abstract), ("EXTERNAL", external), ("CONSTRUCTOR", constructor)]

/-- Does the first hold every bit of the second? -/
def contains (f g : MethodFlags) : Bool := f.bits &&& g.bits == g.bits

/-- The bits of either. -/
def union (f g : MethodFlags) : MethodFlags := ⟨f.bits ||| g.bits⟩

/-- The bits without a name. -/
def unnamed (f : MethodFlags) : UInt32 := f.bits &&& 0xFFFFFFF0

/-- The names of the flags that are set, then the other bits as one number. -/
def parts (f : MethodFlags) : List String :=
  (names.filter fun n => f.contains n.2).map (·.1) ++
    if f.unnamed = 0 then [] else ["0x" ++ String.ofList (Text.hexDigits f.unnamed.toNat)]

/-- The text in documents; empty for no flags. -/
def text (f : MethodFlags) : String := " | ".intercalate f.parts

/-- The structure of the flags, for diagnostics. -/
def inspect (f : MethodFlags) : String :=
  "MethodFlags(" ++ (if f.bits = 0 then "0x0" else f.text) ++ ")"

end MethodFlags

/-- A declared parameter. -/
structure Parameter where
  /-- The stored place in the declaration. Nothing relies on it. -/
  index : UInt16
  name : String
  ty : Ty
deriving DecidableEq

/-- A method of a type. -/
structure Method where
  name : String
  flags : MethodFlags := {}
  params : List Parameter := []
  returnType : Ty := .void
  /-- Names of the attributes attached to the method. -/
  attributes : List String := []
  body? : Option Body := none

namespace Method

def isStatic (m : Method) : Bool := m.flags.contains .static

/-- Does a call pass a receiver (`MethodDef::has_this`)? -/
def hasThis (m : Method) : Bool := !m.isStatic

/-- The argument slot of the parameter at this place in the declaration (`MethodDef::arg_index`). -/
def slotOf (m : Method) (place : Nat) : UInt16 :=
  UInt16.ofNat place + if m.hasThis then 1 else 0

/-- Number of argument slots, the receiver's included (`MethodDef::arg_count`). -/
def argCount (m : Method) : UInt16 := m.slotOf m.params.length

def paramTypes (m : Method) : List Ty := m.params.map (·.ty)

def hasAttribute (m : Method) (name : String) : Bool := m.attributes.contains name

end Method

end Interpose
