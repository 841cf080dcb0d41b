import Interpose.Machine.Run
/-!
# Lookup and dispatch

A lookup goes through every type of the owner's name and takes the first method that the
descriptor accepts. A call goes to the first type of that name alone, and takes the method
of exactly the recorded parameters.

Results:
* `signed?_of_accepted?`: within one type both searches end at one method.
* `dispatch?_of_lookup`: a call looks for what was looked up in the first type of its name.
* `call_of_lookup`: when a call of what was looked up succeeds, and with which method.
* `parted_call`: it fails for a method in a later type of the name.
-/
namespace Interpose

namespace TypeDef

variable {t u : TypeDef} {d : Descriptor} {x : Method}

/-- The first method that the descriptor accepts. -/
def accepted? (t : TypeDef) (d : Descriptor) : Option Method :=
  t.methods.find? fun x => d.accepts t.name x.name x.paramTypes

/-- The first method of this name and exactly these parameters. -/
def signed? (t : TypeDef) (name : String) (params : List Ty) : Option Method :=
  t.methods.find? fun x => x.name == name && x.paramTypes == params

theorem owner_of_accepted? (h : t.accepted? d = some x) : t.name = d.owner := by
  have haccepts := List.find?_some h
  simp only [Descriptor.accepts, Bool.and_eq_true, beq_iff_eq] at haccepts
  exact haccepts.1.1.1.symm

/-- A descriptor tells methods apart by name and parameters alone. -/
theorem signed?_eq_none (h : t.accepted? d = some x) (hname : u.name = t.name)
    (hu : u.accepted? d = none) : u.signed? x.name x.paramTypes = none := by
  have haccepts := List.find?_some h
  rw [accepted?, List.find?_eq_none] at hu
  rw [signed?, List.find?_eq_none]
  intro y hy hsame
  obtain ⟨hn, hp⟩ : y.name = x.name ∧ y.paramTypes = x.paramTypes := by simpa using hsame
  refine hu y hy ?_
  rw [hname, hn, hp]
  exact haccepts

theorem signed?_of_accepted? (h : t.accepted? d = some x) :
    t.signed? x.name x.paramTypes = some x := by
  have haccepts := List.find?_some h
  obtain ⟨-, front, back, hmethods, hfront⟩ := List.find?_eq_some_iff_append.1 h
  rw [signed?, hmethods, List.find?_append]
  -- No method before the accepted one has its name and parameters: it were accepted too.
  have hnone : front.find? (fun y => y.name == x.name && y.paramTypes == x.paramTypes) = none := by
    rw [List.find?_eq_none]
    intro y hy hsame
    obtain ⟨hn, hp⟩ : y.name = x.name ∧ y.paramTypes = x.paramTypes := by simpa using hsame
    have hrejects := hfront y hy
    rw [hn, hp, haccepts] at hrejects
    cases hrejects
  rw [hnone, Option.none_or]
  simp

end TypeDef

namespace Module

variable {m : Module} {d : Descriptor} {r : MemberRef}

/-- The method of the module's own that a lookup names, with the type that declares it. -/
def declaration? (m : Module) (d : Descriptor) : Option (TypeDef × Method) :=
  m.types.findSome? fun t => (t.accepted? d).map (t, ·)

theorem lookupOwn_eq (m : Module) (d : Descriptor) :
    m.lookupOwn d = (m.declaration? d).map fun p => refTo p.1.name p.2 := by
  rw [lookupOwn, declaration?, List.map_findSome?]
  refine congrArg (m.types.findSome? ·) (funext fun t => ?_)
  rw [Function.comp_apply, Option.map_map]
  rfl

theorem scope_of_lookupIn {library : Library} (h : lookupIn library d = some r) :
    r.scope = .library library.name := by
  obtain ⟨t, -, ht⟩ := List.exists_of_findSome?_eq_some h
  obtain ⟨s, -, rfl⟩ := Option.map_eq_some_iff.1 ht
  rfl

/-- What a lookup names in the module itself is a method that it declares. -/
theorem exists_declaration? (h : m.lookup d = some r) (hs : r.scope = .module) :
    ∃ t x, m.declaration? d = some (t, x) ∧ r = refTo t.name x := by
  rw [lookup, Option.or_eq_some_iff] at h
  rcases h with hown | ⟨-, hlibrary⟩
  · rw [lookupOwn_eq] at hown
    obtain ⟨⟨t, x⟩, hd, rfl⟩ := Option.map_eq_some_iff.1 hown
    exact ⟨t, x, hd, rfl⟩
  · obtain ⟨library, -, hl⟩ := List.exists_of_findSome?_eq_some hlibrary
    rw [scope_of_lookupIn hl] at hs
    cases hs

theorem accepted?_of_declaration? {t : TypeDef} {x : Method}
    (h : m.declaration? d = some (t, x)) : t ∈ m.types ∧ t.accepted? d = some x := by
  obtain ⟨u, hu, hx⟩ := List.exists_of_findSome?_eq_some h
  obtain ⟨y, hy, he⟩ := Option.map_eq_some_iff.1 hx
  cases he
  exact ⟨hu, hy⟩

/-- The first type of a name comes before all others in a lookup by that name. -/
theorem declaration?_of_first {first : TypeDef} {x : Method}
    (hfirst : m.type? d.owner = some first) (hx : first.accepted? d = some x) :
    m.declaration? d = some (first, x) := by
  obtain ⟨-, front, back, htypes, hfront⟩ := List.find?_eq_some_iff_append.1 hfirst
  have hnone : front.findSome? (fun t => (t.accepted? d).map (t, ·)) = none := by
    rw [List.findSome?_eq_none_iff]
    intro t ht
    cases haccepted : t.accepted? d with
    | none => rfl
    | some y =>
      have hne := hfront t ht
      rw [TypeDef.owner_of_accepted? haccepted, beq_self_eq_true] at hne
      cases hne
  rw [declaration?, htypes, List.findSome?_append, hnone, Option.none_or, List.findSome?_cons, hx]
  rfl

/-- A call looks in the first type of the owner's name for what the lookup looked for in all
of them. -/
theorem dispatch?_of_lookup (h : m.lookup d = some r) (hs : r.scope = .module) :
    m.dispatch? r = (m.type? d.owner).bind (·.accepted? d) := by
  obtain ⟨t, x, hdecl, rfl⟩ := exists_declaration? h hs
  obtain ⟨-, hx⟩ := accepted?_of_declaration? hdecl
  have howner : t.name = d.owner := TypeDef.owner_of_accepted? hx
  show (m.type? t.name).bind (·.signed? x.name x.paramTypes) = _
  rw [howner]
  cases hfirst : m.type? d.owner with
  | none => rfl
  | some first =>
    have hname : first.name = d.owner := by simpa using List.find?_some hfirst
    simp only [Option.bind_some]
    cases haccepted : first.accepted? d with
    | none => exact TypeDef.signed?_eq_none hx (hname.trans howner.symm) haccepted
    | some y =>
      rw [declaration?_of_first hfirst haccepted] at hdecl
      cases hdecl
      exact TypeDef.signed?_of_accepted? haccepted

end Module

namespace Machine

/-- A member of the module itself that was looked up is a method that the module declares. A
call of it runs that very method if the first type of the owner's name has a method that the
descriptor accepts, and finds none otherwise. -/
theorem call_of_lookup (vm : Machine) {d : Descriptor} {r : MemberRef}
    (h : vm.module.lookup d = some r) (hs : r.scope = .module) :
    ∃ t x first, vm.module.declaration? d = some (t, x) ∧ r = Module.refTo t.name x ∧
      vm.module.type? r.owner = some first ∧
      ((first.accepted? d).isSome = true → first = t ∧ vm.module.dispatch? r = some x ∧
        ∀ w args c callers, vm.call w r args c callers =
          match x.activate r.owner args (callers.length + 1) with
          | .error e => faulted w e
          | .ok a => .running ⟨a, c :: callers, w⟩) ∧
      ((first.accepted? d).isSome = false → vm.module.dispatch? r = none ∧
        ∀ w args c callers, vm.call w r args c callers =
          faulted w (.unknownMethod r.fullName)) := by
  obtain ⟨t, x, hdecl, hr⟩ := Module.exists_declaration? h hs
  obtain ⟨hmem, hx⟩ := Module.accepted?_of_declaration? hdecl
  have howner : r.owner = d.owner := by
    rw [hr]
    exact TypeDef.owner_of_accepted? hx
  have hdispatch := Module.dispatch?_of_lookup h hs
  obtain ⟨first, hfirst⟩ : ∃ first, vm.module.type? d.owner = some first :=
    Option.isSome_iff_exists.1 (List.find?_isSome.2
      ⟨t, hmem, by rw [TypeDef.owner_of_accepted? hx, beq_self_eq_true]⟩)
  rw [hfirst, Option.bind_some] at hdispatch
  refine ⟨t, x, first, hdecl, hr, howner ▸ hfirst, fun hsome => ?_, fun hnone => ?_⟩
  · obtain ⟨y, hy⟩ := Option.isSome_iff_exists.1 hsome
    rw [Module.declaration?_of_first hfirst hy] at hdecl
    cases hdecl
    rw [hy] at hdispatch
    refine ⟨rfl, hdispatch, fun w args c callers => ?_⟩
    cases hactivate : x.activate r.owner args (callers.length + 1) <;>
      simp only [call, hs, hdispatch, hactivate]
  · rw [Option.isSome_eq_false_iff, Option.isNone_iff_eq_none] at hnone
    rw [hnone] at hdispatch
    refine ⟨hdispatch, fun w args c callers => ?_⟩
    rw [call, hs, hdispatch]

/-- A method with two overloads of one signature beside it, of which the first counts. -/
def keyed : Method where
  name := "Get"
  flags := .static
  params := [⟨0, "key", .string⟩]
  returnType := .int32

def pair : TypeDef where
  name := "Pair"
  methods := [{ name := "Get", flags := .static }, keyed, { keyed with returnType := .object }]

theorem pair_call :
    let vm : Machine := { module := { name := "App", types := [⟨"Other", []⟩, pair] } }
    let d : Descriptor := ⟨"Pair", "Get", 1, none⟩
    vm.module.lookup d = some (Module.refTo "Pair" keyed) ∧
      vm.module.dispatch? (Module.refTo "Pair" keyed) = some keyed := by
  intro vm d
  have hlookup : vm.module.lookup d = some (Module.refTo "Pair" keyed) := rfl
  obtain ⟨t, x, first, hdecl, -, hfirst, hfound, -⟩ := call_of_lookup vm hlookup rfl
  obtain rfl : pair = first := Option.some.inj hfirst
  obtain rfl : keyed = x := congrArg Prod.snd (Option.some.inj hdecl)
  exact ⟨hlookup, (hfound rfl).2.1⟩

/-- A type declared in two parts, with its method in the second. -/
def parted : Module where
  name := "App"
  types :=
    [⟨"A", []⟩, ⟨"A", [{ name := "Get", flags := .static, returnType := .int32 }]⟩]

/-- The lookup names a member of the module, and a call of it finds no method. -/
theorem parted_call :
    ∃ r, parted.lookup ⟨"A", "Get", 0, none⟩ = some r ∧ r.scope = .module ∧
      parted.dispatch? r = none ∧
      ∀ w args c callers, Machine.call { module := parted } w r args c callers =
        faulted w (.unknownMethod "A::Get") :=
  ⟨_, rfl, rfl, rfl, fun _ _ _ _ => rfl⟩

end Machine

end Interpose
