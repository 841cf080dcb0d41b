import Interpose.Proofs.Weave.Called
/-!
# Usable contexts

Code is emitted from a context without another look at the module. That is safe because of what
holds of every context that was resolved: its ids are those of members the descriptors ask for, a
hook with a receiver comes with the accessor that gives one, and a hook is missing for a reason
that the module or the configuration shows.

Results:
* `Module.isSome_lookup_iff`: a lookup finds a member if there is one to be found.
* `SymbolTable.wanted_eq_none_iff`: why a hook is not called.
* `HookContext.resolve_usable`: a context that was resolved is usable.
-/
namespace Interpose

namespace Module

variable {m : Module} {d : Descriptor}

/-- The module itself or one of its libraries has what the descriptor asks for. -/
def Provides (m : Module) (d : Descriptor) : Prop :=
  (∃ t ∈ m.types, ∃ x ∈ t.methods, d.accepts t.name x.name x.paramTypes = true) ∨
    ∃ l ∈ m.references, ∃ t ∈ l.types, ∃ s ∈ t.methods, d.accepts t.name s.name s.params = true

theorem isSome_lookup_iff : (m.lookup d).isSome = true ↔ m.Provides d := by
  simp only [lookup, lookupOwn, lookupIn, Provides, Option.isSome_or, Bool.or_eq_true,
    List.findSome?_isSome_iff, Option.isSome_map, List.find?_isSome]

theorem lookup_eq_none_iff : m.lookup d = none ↔ ¬ m.Provides d := by
  rw [← isSome_lookup_iff, Bool.not_eq_true, Option.isSome_eq_false_iff, Option.isNone_iff_eq_none]

end Module

namespace SymbolTable

variable {t : SymbolTable} {config : WeaveConfig} {lookup : Descriptor → Option MemberRef}
  {s : HookSymbol} {member : MemberRef}

/-- A configuration drops the symbols that it has no use for, and changes no descriptor. -/
theorem descriptor?_forConfig (config : WeaveConfig) (s : HookSymbol) :
    (forConfig config).descriptor? s =
      if isUsed config s then (all config.dispatcherType).descriptor? s else none := by
  simp only [descriptor?, forConfig, List.find?_filter]
  split
  · next hused =>
    congr 2
    funext e
    by_cases he : e.1 = s
    · simp [he, hused]
    · simp [he]
  · next hunused =>
    rw [Option.map_eq_none_iff, List.find?_eq_none]
    intro e _ he
    obtain ⟨hused, rfl⟩ : isUsed config e.1 = true ∧ e.1 = s := by simpa using he
    exact hunused hused

theorem named_forConfig {d : Descriptor} (hd : (all config.dispatcherType).descriptor? s = some d) :
    (forConfig config).named lookup s = if isUsed config s then lookup d else none := by
  rw [named, descriptor?_forConfig]
  split
  · rw [hd, Option.bind_some]
  · rfl

theorem wantedAccessor_of_hook (hs : s ∈ HookSymbol.hooks) (hm : t.named lookup s = some member)
    (hthis : member.hasThis = true) : t.wantedAccessor lookup = t.named lookup .accessor := by
  refine if_pos (List.any_eq_true.2 ⟨t.named lookup s, ?_, by rw [hm]; exact hthis⟩)
  exact List.mem_map_of_mem (f := t.named lookup) hs

/-- A hook is not called if there is none, or if it needs a receiver and nothing gives one. -/
theorem wanted_eq_none_iff (hs : s ∈ HookSymbol.hooks) :
    t.wanted lookup s = none ↔ t.named lookup s = none ∨
      (t.named lookup s).any MemberRef.hasThis = true ∧ t.named lookup .accessor = none := by
  rw [wanted_hook hs]
  cases hm : t.named lookup s with
  | none => simp [wantedHook, hm]
  | some member =>
    cases hthis : member.hasThis with
    | false => simp [wantedHook, hm, hthis]
    | true => simp [wantedHook, hm, hthis, wantedAccessor_of_hook hs hm hthis]

end SymbolTable

namespace HookContext

/-- Why a hook is not called: it is not declared, it is turned off, or it needs a receiver and
there is no accessor to give one. -/
def Missing (m : Module) (config : WeaveConfig) (s : HookSymbol) : Prop :=
  ∃ d accessor, (SymbolTable.all config.dispatcherType).descriptor? s = some d ∧
    (SymbolTable.all config.dispatcherType).descriptor? .accessor = some accessor ∧
    (¬ m.Provides d ∨ SymbolTable.isUsed config s = false ∨
      (m.lookup d).any MemberRef.hasThis = true ∧ ¬ m.Provides accessor)

/-- What emitting code relies on. -/
structure Usable (m : Module) (config : WeaveConfig) (imports : ImportTable) (c : HookContext) :
    Prop where
  named : ∀ s id, c.id? s = some id → ∃ d member,
    (SymbolTable.forConfig config).descriptor? s = some d ∧ imports.get? id = some member ∧
      d.accepts member.owner member.name member.params = true
  hasThis : ∀ s hook, c.hook? s = some hook → ∃ member,
    imports.get? hook.member = some member ∧ hook.hasThis = member.hasThis
  accessor : ∀ s hook, c.hook? s = some hook → hook.hasThis = true → c.accessor?.isSome = true
  emitted : ∀ s hook, c.hook? s = some hook → ∀ args,
    (c.emitHook (c.hook? s) args).isSome = true
  currentMethod : c.currentMethod?.isSome = true → c.init?.isSome = true
  helpers : ∀ s ∈ HookSymbol.helpers, ∀ s' ∈ HookSymbol.helpers,
    (c.id? s).isSome = (c.id? s').isSome
  missing : ∀ s ∈ HookSymbol.hooks, c.hook? s = none ↔ Missing m config s

variable {m : Module} {config : WeaveConfig} {imports : ImportTable} {c : HookContext}
  {s : HookSymbol}

/-- The hooks that are missing in the context are those that are not wanted. -/
theorem Indexes.hook?_eq_none_iff {wanted : HookSymbol → Option MemberRef}
    (h : c.Indexes imports wanted) (hs : s ∈ HookSymbol.hooks) :
    c.hook? s = none ↔ wanted s = none := by
  rw [← Option.isNone_iff_eq_none, ← Option.isNone_iff_eq_none, ← Option.not_isSome,
    ← Option.not_isSome, c.isSome_hook? hs, (h.ids s).isSome_eq]

/-- A hook that was found is called like the member that it refers to. -/
theorem Indexes.get?_of_hook? {wanted : HookSymbol → Option MemberRef}
    (h : c.Indexes imports wanted) {hook : HookCall} (hh : c.hook? s = some hook) :
    ∃ member, imports.get? hook.member = some member ∧ hook.hasThis = member.hasThis := by
  obtain ⟨member, hwanted, hthis⟩ := h.calls s hook hh
  have hfinds := h.ids s
  rw [hwanted, id?_of_hook? hh] at hfinds
  cases hfinds with
  | some hfind => exact ⟨member, ImportTable.get?_of_find? hfind, hthis⟩

theorem missing_iff (m : Module) (config : WeaveConfig) (hs : s ∈ HookSymbol.hooks) :
    (SymbolTable.forConfig config).wanted m.lookup s = none ↔ Missing m config s := by
  obtain ⟨d, hd⟩ :=
    Option.isSome_iff_exists.1 (SymbolTable.descriptor?_all config.dispatcherType s)
  obtain ⟨accessor, haccessor⟩ :=
    Option.isSome_iff_exists.1 (SymbolTable.descriptor?_all config.dispatcherType .accessor)
  have hgiven : (SymbolTable.forConfig config).named m.lookup .accessor = m.lookup accessor :=
    SymbolTable.named_forConfig haccessor
  rw [SymbolTable.wanted_eq_none_iff hs, SymbolTable.named_forConfig hd, hgiven,
    Module.lookup_eq_none_iff]
  constructor
  · intro h
    refine ⟨d, accessor, hd, haccessor, ?_⟩
    cases hused : SymbolTable.isUsed config s with
    | false => exact .inr (.inl rfl)
    | true =>
      rw [hused, if_pos rfl, Module.lookup_eq_none_iff] at h
      exact h.imp_right .inr
  · rintro ⟨d', accessor', hd', haccessor', h⟩
    obtain rfl := Option.some.inj (hd.symm.trans hd')
    obtain rfl := Option.some.inj (haccessor.symm.trans haccessor')
    cases hused : SymbolTable.isUsed config s with
    | false => exact .inl rfl
    | true =>
      rw [if_pos rfl, Module.lookup_eq_none_iff]
      rw [hused] at h
      exact h.imp_right fun h => h.resolve_left nofun

/-- Whatever a module and its libraries declare and whatever is configured, the context that is
resolved from them is usable. -/
theorem resolve_usable (m : Module) (config : WeaveConfig) :
    let p := (HookContext.resolve (.forConfig config)).run ⟨m, []⟩
    p.1.Usable m config p.2.module.imports := by
  have hindexes := indexes_pass m config
  have hresolved := (m.resolved_pass config).1
  have hthrifty := thrifty_pass m config
  have hhelper (s : HookSymbol) (hs : s ∈ HookSymbol.helpers)
      (h : ((m.pass config).context.id? s).isSome = true) (s' : HookSymbol)
      (hs' : s' ∈ HookSymbol.helpers) : ((m.pass config).context.id? s').isSome = true := by
    rw [(hindexes.ids s).isSome_eq] at h
    rw [(hindexes.ids s').isSome_eq]
    exact (SymbolTable.helpers_of_wanted hs h).2 s' hs'
  show (m.pass config).context.Usable m config (m.pass config).imports
  refine ⟨?named, fun s hook => hindexes.get?_of_hook?, hthrifty.receiver, ?emitted,
    hthrifty.currentMethod, ?helpers, fun s hs => ?missing⟩
  case named =>
    intro s id hid
    obtain ⟨d, hd, member, hlookup, hget⟩ := hresolved.means s id hid
    exact ⟨d, member, hd, hget, Module.accepts_of_lookup hlookup⟩
  case emitted =>
    intro s hook hs args
    obtain ⟨code, hcode, -⟩ := invokes_emitHook (hthrifty.receiver s hook hs) args
    rw [hs, hcode]
    rfl
  case helpers =>
    intro s hs s' hs'
    rw [Bool.eq_iff_iff]
    exact ⟨fun h => hhelper s hs h s' hs', fun h => hhelper s' hs' h s hs⟩
  case missing =>
    rw [hindexes.hook?_eq_none_iff hs, missing_iff m config hs]

end HookContext

end Interpose
