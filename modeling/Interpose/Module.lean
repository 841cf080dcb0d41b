import Interpose.Member
import Interpose.Method
/-!
# Modules

A module: types with their methods, the members it imports, and the libraries it
refers to. Looking a descriptor up searches the module's own types first and then the
libraries in order.
-/
namespace Interpose

/-- The list with its first element that satisfies `p` changed by `f`. -/
def updateFirst {α : Type} (p : α → Bool) (f : α → α) : List α → List α
  | [] => []
  | a :: rest => if p a then f a :: rest else a :: updateFirst p f rest

/-- A type and its methods, in declaration order. -/
structure TypeDef where
  name : String
  methods : List Method := []

/-- The first method of this name. -/
def TypeDef.method? (t : TypeDef) (name : String) : Option Method :=
  t.methods.find? (·.name == name)

/-- Puts a method in place of the first of its name. -/
def TypeDef.setMethod (t : TypeDef) (d : Method) : TypeDef :=
  { t with methods := updateFirst (·.name == d.name) (fun _ => d) t.methods }

structure Module where
  name : String
  /-- Carries signatures and no code. -/
  metadataOnly : Bool := false
  types : List TypeDef := []
  imports : ImportTable := {}
  references : List Library := []

namespace Module

/-- The first type of this name (`Module::find_type`). -/
def type? (m : Module) (name : String) : Option TypeDef := m.types.find? (·.name == name)

/-- The first method of this name in the first type of this name (`Module::find_method`). -/
def method? (m : Module) (typeName name : String) : Option Method :=
  (m.type? typeName).bind (·.method? name)

/-- Puts a method in place of the one that is found under its name. -/
def setMethod (m : Module) (typeName : String) (d : Method) : Module :=
  { m with types := updateFirst (·.name == typeName) (·.setMethod d) m.types }

/-- The methods with the names of their types, in declaration order. -/
def methods (m : Module) : List (String × Method) :=
  m.types.flatMap fun t => t.methods.map fun d => (t.name, d)

/-- The reference to a method of the module. -/
def refTo (typeName : String) (d : Method) : MemberRef :=
  ⟨.module, typeName, d.name, d.paramTypes, d.returnType, d.isStatic⟩

/-- The member a descriptor names among the module's own methods. -/
def lookupOwn (m : Module) (d : Descriptor) : Option MemberRef :=
  m.types.findSome? fun t =>
    (t.methods.find? fun x => d.accepts t.name x.name x.paramTypes).map (refTo t.name)

/-- The member a descriptor names in a library. -/
def lookupIn (library : Library) (d : Descriptor) : Option MemberRef :=
  library.types.findSome? fun t =>
    (t.methods.find? fun s => d.accepts t.name s.name s.params).map fun s =>
      ⟨.library library.name, t.name, s.name, s.params, s.returnType, s.isStatic⟩

/-- The member a descriptor names: the module's own first, then the libraries' in order
(`Module::lookup`). -/
def lookup (m : Module) (d : Descriptor) : Option MemberRef :=
  (m.lookupOwn d).or (m.references.findSome? (lookupIn · d))

end Module

end Interpose
