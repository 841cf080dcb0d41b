import Interpose.Instruction
/-!
# Members, imports and libraries

A member reference names a method with its signature and says where it lives. A module
refers to members by their index in its import table, which holds no member twice. A
descriptor is a request for a member by owner, name and number of parameters, narrowed
by exact parameter types where one overload is meant.

Results:
* `find?_add`: an imported member is found under the id it was given.
* `get?_add_of_lt`: importing never changes an entry that was there.
-/
namespace Interpose

/-- Where a referenced member lives. -/
inductive Scope
  | module
  | library (name : String)
deriving DecidableEq

/-- A reference to a method. -/
structure MemberRef where
  scope : Scope
  owner : String
  name : String
  params : List Ty := []
  returnType : Ty := .void
  isStatic : Bool := false
deriving DecidableEq

namespace MemberRef

/-- Does a call pass a receiver before the declared parameters (`MemberRef::has_this`)? -/
def hasThis (m : MemberRef) : Bool := !m.isStatic

def fullName (m : MemberRef) : String := m.owner ++ "::" ++ m.name

/-- The signature as listings show it. -/
def text (m : MemberRef) : String :=
  m.returnType.name ++ " " ++ m.fullName ++ "(" ++
    ", ".intercalate (m.params.map Ty.name) ++ ")"

end MemberRef

/-! ## The import table -/

/-- The members a module refers to, in the order they were imported. -/
structure ImportTable where
  entries : List MemberRef := []
deriving DecidableEq, Inhabited

namespace ImportTable

def size (t : ImportTable) : Nat := t.entries.length

/-- The member with this id (`ImportTable::get`). -/
def get? (t : ImportTable) (id : MemberId) : Option MemberRef := t.entries[id]?

/-- The id of a member, if it is imported (`ImportTable::find`). -/
def find? (t : ImportTable) (m : MemberRef) : Option MemberId := t.entries.findIdx? (· == m)

/-- Imports a member, or finds it if it is there already (`ImportTable::import`). Gives its id and
the table. -/
def add (t : ImportTable) (m : MemberRef) : MemberId × ImportTable :=
  match t.find? m with
  | some id => (id, t)
  | none => (t.size, ⟨t.entries ++ [m]⟩)

/-- Forgets every entry from `size` on (`ImportTable::truncate`). -/
def truncate (t : ImportTable) (size : Nat) : ImportTable := ⟨t.entries.take size⟩

theorem get?_add_of_lt (t : ImportTable) (m : MemberRef) {id : MemberId} (h : id < t.size) :
    (t.add m).2.get? id = t.get? id := by
  simp only [size] at h
  simp only [ImportTable.add]
  split
  · rfl
  · simp [get?, List.getElem?_append_left h]

theorem find?_add (t : ImportTable) (m : MemberRef) :
    (t.add m).2.find? m = some (t.add m).1 := by
  simp only [ImportTable.add]
  split
  · assumption
  · next h =>
    simp only [find?] at h
    simp [find?, size, List.findIdx?_append, h]

end ImportTable

/-! ## Libraries -/

/-- The signature of a method that a library offers. -/
structure Signature where
  name : String
  params : List Ty := []
  returnType : Ty := .void
  isStatic : Bool := false
deriving DecidableEq

/-- A type that a library offers. -/
structure LibraryType where
  name : String
  methods : List Signature := []
deriving DecidableEq

/-- The public surface of a library. -/
structure Library where
  name : String
  types : List LibraryType := []
deriving DecidableEq

/-! ## Descriptors -/

/-- A request for a member. -/
structure Descriptor where
  owner : String
  name : String
  arity : Nat
  /-- The exact parameter types, if one overload is meant. -/
  params? : Option (List Ty) := none
deriving DecidableEq

namespace Descriptor

/-- A request for the overload with exactly these parameters (`SymbolDescriptor::with_params`). -/
def exact (owner name : String) (params : List Ty) : Descriptor :=
  ⟨owner, name, params.length, some params⟩

/-- Is a method with this owner, name and parameters what is asked for
(`SymbolDescriptor::matches`)? -/
def accepts (d : Descriptor) (owner name : String) (params : List Ty) : Bool :=
  d.owner == owner && d.name == name && d.arity == params.length &&
    d.params?.all (· == params)

def text (d : Descriptor) : String := d.owner ++ "::" ++ d.name ++ "/" ++ toString d.arity

end Descriptor

end Interpose
