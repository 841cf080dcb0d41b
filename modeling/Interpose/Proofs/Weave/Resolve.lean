import Interpose.Machine.Host
import Interpose.Proofs.Imports
import Interpose.Weave.Pass
/-!
# Resolved members

What the ids of a context refer to (`Resolved`). An import table only grows, so an id keeps
its member; where the libraries declare the members as the host offers them (`AsDeclared`),
each id refers to the one member that the host knows under its symbol.

Results:
* `offers_of_asDeclared`: the member of each id, in full (`HookSymbol.member`).
-/
namespace Interpose

/-- The id refers to what the descriptor names in the module. -/
def Names (m : Module) (imports : ImportTable) (d : Descriptor) (id : MemberId) : Prop :=
  ∃ member, m.lookup d = some member ∧ imports.get? id = some member

namespace HookContext

/-- The id of a symbol's member. -/
def id? (c : HookContext) : HookSymbol → Option MemberId
  | .accessor => c.accessor?
  | .init => c.init?.map HookCall.member
  | .onEntry => c.onEntry?.map HookCall.member
  | .onExit => c.onExit?.map HookCall.member
  | .onException => c.onException?.map HookCall.member
  | .currentMethod => c.currentMethod?
  | .join => c.join?
  | .format => c.format?
  | .writeLine => c.writeLine?

theorem mem_insertId {id x : MemberId} {l : List MemberId} :
    x ∈ insertId id l ↔ x = id ∨ x ∈ l := by
  induction l with
  | nil => simp [insertId]
  | cons y rest ih =>
    unfold insertId
    by_cases hlt : id < y
    · simp [hlt]
    · by_cases heq : id = y
      · subst heq
        simp
      · simp only [hlt, heq, if_false, List.mem_cons, ih]
        exact or_left_comm

theorem mem_members {c : HookContext} {s : HookSymbol} {id : MemberId} (h : c.id? s = some id) :
    id ∈ c.members := by
  have mem (l : List MemberId) : id ∈ l.foldr insertId [] ↔ id ∈ l := by
    induction l with
    | nil => rfl
    | cons x rest ih => rw [List.foldr_cons, mem_insertId, ih, List.mem_cons]
  unfold members
  rw [mem, List.mem_filterMap]
  refine ⟨some id, ?_, rfl⟩
  cases s <;> simp only [id?] at h <;> simp [h]

/-! ## What is resolved -/

/-- The id refers to what the symbol's descriptor names. -/
def Means (m : Module) (t : SymbolTable) (imports : ImportTable) (s : HookSymbol)
    (id : MemberId) : Prop :=
  ∃ d, t.descriptor? s = some d ∧ Names m imports d id

/-- How a hook that was found is called. -/
structure Calls (m : Module) (t : SymbolTable) (hasAccessor : Bool) (s : HookSymbol)
    (hook : HookCall) : Prop where
  found : ∃ d member, t.descriptor? s = some d ∧ m.lookup d = some member ∧
    hook.hasThis = member.hasThis
  accessor : hook.hasThis = true → hasAccessor = true

/-- A hook and how it is called. -/
def hook? (c : HookContext) : HookSymbol → Option HookCall
  | .init => c.init?
  | .onEntry => c.onEntry?
  | .onExit => c.onExit?
  | .onException => c.onException?
  | _ => none

/-- What the members of a context are. -/
structure Resolved (m : Module) (t : SymbolTable) (imports : ImportTable) (c : HookContext) :
    Prop where
  means : ∀ s id, c.id? s = some id → Means m t imports s id
  calls : ∀ s hook, c.hook? s = some hook → Calls m t c.accessor?.isSome s hook

end HookContext

/-! ## What the host offers -/

/-- The signatures of a library, each with the type that offers it. -/
def Library.signatures (l : Library) : List (String × Signature) :=
  l.types.flatMap fun t => t.methods.map fun s => (t.name, s)

/-- Does one of the libraries declare this member? -/
def Declared (libraries : List Library) (r : MemberRef) : Prop :=
  (r.owner, ⟨r.name, r.params, r.returnType, r.isStatic⟩) ∈ libraries.flatMap Library.signatures

instance (libraries : List Library) (r : MemberRef) : Decidable (Declared libraries r) :=
  inferInstanceAs (Decidable (_ ∈ _))

/-- The member of a symbol as the host offers it. -/
def HookSymbol.member (dispatcherType library : String) : HookSymbol → MemberRef
  | .accessor => ⟨.library library, dispatcherType, "get_Instance", [], .named dispatcherType, true⟩
  | .init => ⟨.library library, dispatcherType, "Init",
      [.object, .named methodBaseType, .objectArray], .void, false⟩
  | .onEntry => ⟨.library library, dispatcherType, "OnEntry", [], .void, false⟩
  | .onExit => ⟨.library library, dispatcherType, "OnExit", [], .void, false⟩
  | .onException => ⟨.library library, dispatcherType, "OnException", [.named exceptionType],
      .void, false⟩
  | .currentMethod => ⟨.library library, methodBaseType, "GetCurrentMethod", [],
      .named methodBaseType, true⟩
  | .join => ⟨.library library, "System.String", "Join", [.string, .objectArray], .string, true⟩
  | .format => ⟨.library library, "System.String", "Format", [.string, .object], .string, true⟩
  | .writeLine => ⟨.library library, "System.Console", "WriteLine", [.string], .void, true⟩

/-- Under the name of a symbol the host declares one member. -/
theorem eq_member_of_declared {dispatcherType hookLibrary library : String} {s : HookSymbol}
    {d : Descriptor} {r : MemberRef} (hd : (s, d) ∈ (SymbolTable.all dispatcherType).entries)
    (hr : Declared (hostLibraries dispatcherType hookLibrary) r)
    (hscope : r.scope = .library library) (ho : r.owner = d.owner) (hn : r.name = d.name) :
    r = s.member dispatcherType library := by
  obtain ⟨scope, owner, name, params, returnType, isStatic⟩ := r
  obtain rfl : scope = .library library := hscope
  obtain rfl : owner = d.owner := ho
  obtain rfl : name = d.name := hn
  simp only [Declared, hostLibraries, Library.signatures, List.flatMap_cons, List.flatMap_nil,
    List.append_nil, List.map_cons, List.map_nil, List.cons_append, List.nil_append,
    List.mem_cons, List.not_mem_nil, or_false, Prod.mk.injEq, Signature.mk.injEq] at hr
  -- No two members of the table have the same name.
  cases s <;> simp [SymbolTable.all, Descriptor.exact] at hd <;> subst hd <;>
    simp [methodBaseType, exceptionType] at hr <;>
    simp [HookSymbol.member, hr, methodBaseType, exceptionType]

/-- The member that a descriptor names is one that it accepts. -/
theorem Module.accepts_of_lookup {m : Module} {d : Descriptor} {r : MemberRef}
    (h : m.lookup d = some r) : d.accepts r.owner r.name r.params = true := by
  unfold lookup at h
  rcases Option.or_eq_some_iff.1 h with h | ⟨-, h⟩
  · unfold lookupOwn at h
    obtain ⟨t, -, ht⟩ := List.exists_of_findSome?_eq_some h
    obtain ⟨x, hx, rfl⟩ := Option.map_eq_some_iff.1 ht
    exact List.find?_some (p := fun x : Method => d.accepts t.name x.name x.paramTypes) hx
  · obtain ⟨library, -, hl⟩ := List.exists_of_findSome?_eq_some h
    unfold lookupIn at hl
    obtain ⟨t, -, ht⟩ := List.exists_of_findSome?_eq_some hl
    obtain ⟨s, hs, rfl⟩ := Option.map_eq_some_iff.1 ht
    exact List.find?_some (p := fun s : Signature => d.accepts t.name s.name s.params) hs

theorem SymbolTable.mem_of_descriptor? {t : SymbolTable} {s : HookSymbol} {d : Descriptor}
    (h : t.descriptor? s = some d) : (s, d) ∈ t.entries := by
  obtain ⟨⟨s', d'⟩, he, rfl⟩ := Option.map_eq_some_iff.1 h
  have hs := List.find?_some he
  obtain rfl : s' = s := eq_of_beq hs
  exact List.mem_of_find?_eq_some he

theorem SymbolTable.mem_all_of_descriptor? {config : WeaveConfig} {s : HookSymbol}
    {d : Descriptor} (h : (forConfig config).descriptor? s = some d) :
    (s, d) ∈ (all config.dispatcherType).entries :=
  (List.mem_filter.1 (mem_of_descriptor? h)).1

namespace HookContext

/-- Is every member that woven code calls in a library, as these libraries declare it? -/
def AsDeclared (c : HookContext) (imports : ImportTable) (libraries : List Library) : Prop :=
  ∀ id ∈ c.members, ∀ member, imports.get? id = some member →
    (∃ library, member.scope = .library library) ∧ Declared libraries member

theorem asDeclared_iff {c : HookContext} {imports : ImportTable} {libraries : List Library} :
    c.AsDeclared imports libraries ↔ ∀ id ∈ c.members, ∀ member ∈ imports.get? id,
      member.scope ≠ .module ∧ Declared libraries member := by
  have scope (member : MemberRef) :
      (∃ library, member.scope = .library library) ↔ member.scope ≠ .module := by
    cases member.scope <;> simp
  simp only [AsDeclared, scope]
  rfl

instance (c : HookContext) (imports : ImportTable) (libraries : List Library) :
    Decidable (c.AsDeclared imports libraries) :=
  decidable_of_iff _ asDeclared_iff.symm

/-- The members that woven code calls are those that the host offers. -/
structure Offers (c : HookContext) (imports : ImportTable) (dispatcherType : String) : Prop where
  member : ∀ s id, c.id? s = some id →
    ∃ library, imports.get? id = some (s.member dispatcherType library)
  hook : ∀ s hook, c.hook? s = some hook → hook.hasThis = true ∧ c.accessor?.isSome = true

theorem id?_of_hook? {c : HookContext} {s : HookSymbol} {hook : HookCall}
    (h : c.hook? s = some hook) : c.id? s = some hook.member := by
  cases s <;> simp only [hook?, id?] at h ⊢ <;> simp_all

theorem offers_of_asDeclared {m : Module} {config : WeaveConfig} {imports : ImportTable}
    {c : HookContext} {hookLibrary : String} (h : Resolved m (.forConfig config) imports c)
    (hd : c.AsDeclared imports (hostLibraries config.dispatcherType hookLibrary)) :
    c.Offers imports config.dispatcherType := by
  have names (s : HookSymbol) (d : Descriptor) (r : MemberRef) (id : MemberId)
      (hid : c.id? s = some id) (hs : (SymbolTable.forConfig config).descriptor? s = some d)
      (hr : m.lookup d = some r) (hget : imports.get? id = some r) :
      ∃ library, r = s.member config.dispatcherType library := by
    obtain ⟨⟨library, hscope⟩, hdecl⟩ := hd id (mem_members hid) r hget
    have haccepts := Module.accepts_of_lookup hr
    simp only [Descriptor.accepts, Bool.and_eq_true, beq_iff_eq] at haccepts
    obtain ⟨⟨⟨ho, hn⟩, -⟩, -⟩ := haccepts
    exact ⟨library, eq_member_of_declared (SymbolTable.mem_all_of_descriptor? hs) hdecl hscope
      ho.symm hn.symm⟩
  refine ⟨fun s id hid => ?_, fun s hook hh => ?_⟩
  · obtain ⟨d, hs, r, hr, hget⟩ := h.means s id hid
    obtain ⟨library, rfl⟩ := names s d r id hid hs hr hget
    exact ⟨library, hget⟩
  · obtain ⟨⟨d, r, hs, hr, hthis⟩, haccessor⟩ := h.calls s hook hh
    have hid := id?_of_hook? hh
    obtain ⟨d', hs', r', hr', hget⟩ := h.means s hook.member hid
    obtain rfl : d = d' := Option.some.inj (hs.symm.trans hs')
    obtain rfl : r = r' := Option.some.inj (hr.symm.trans hr')
    obtain ⟨library, rfl⟩ := names s d r hook.member hid hs hr hget
    have hhas : hook.hasThis = true := by
      rw [hthis]
      cases s <;> first | rfl | cases hh
    exact ⟨hhas, haccessor hhas⟩

end HookContext

end Interpose
