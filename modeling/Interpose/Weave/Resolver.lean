import Interpose.Module
/-!
# Resolving descriptors

A resolver imports the members that descriptors name. It remembers each answer, a miss
included, so that a descriptor is searched for once.
-/
namespace Interpose

structure Resolver where
  module : Module
  /-- Answers given so far. -/
  answers : List (Descriptor × Option MemberId) := []

namespace Resolver

/-- The member a descriptor names, without importing it (`ReferenceResolver::find`). -/
def find? (r : Resolver) (d : Descriptor) : Option MemberRef := r.module.lookup d

/-- Looks a descriptor up and imports what it names; remembers the answer. -/
def search (r : Resolver) (d : Descriptor) : Option MemberId × Resolver :=
  match r.module.lookup d with
  | none => (none, { r with answers := (d, none) :: r.answers })
  | some member =>
    let (id, imports) := r.module.imports.add member
    (some id, ⟨{ r.module with imports := imports }, (d, some id) :: r.answers⟩)

/-- The id of the member a descriptor names (`ReferenceResolver::resolve`). -/
def resolve (r : Resolver) (d : Descriptor) : Option MemberId × Resolver :=
  match r.answers.lookup d with
  | some answer => (answer, r)
  | none => r.search d

end Resolver

end Interpose
