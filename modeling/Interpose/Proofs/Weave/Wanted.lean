import Interpose.Proofs.Lists
import Interpose.Proofs.Weave.Resolve
/-!
# What a pass imports

Which member a symbol stands for, and whether it is wanted, is decided by what the module and
its libraries declare. The import table has no part in it, and neither has what the resolver
remembers. So resolving the hooks of a module comes to importing the wanted members in a fixed
order, and the context holds the ids under which they are found.

Results:
* `imports_resolve`: a resolver answers as if it searched and imported every time.
* `indexes_of_resolve`: a context has the ids of the wanted members; nothing else is imported.
* `Indexes.unique`: there is no other such context.
-/
namespace Interpose

namespace ImportTable

variable {t t' : ImportTable}

/-- The id is that of the member; there is none where there is no member. -/
def Finds (t : ImportTable) : Option MemberRef → Option MemberId → Prop :=
  Option.Rel fun member id => t.find? member = some id

variable {member? : Option MemberRef} {id? id?' : Option MemberId}

theorem Finds.mono (h : t.Finds member? id?) (he : t'.Extends t) : t'.Finds member? id? := by
  cases h with
  | none => exact .none
  | some hf => exact .some (he.find? hf)

theorem Finds.isSome_eq (h : t.Finds member? id?) : id?.isSome = member?.isSome := by
  cases h <;> rfl

theorem Finds.unique (h : t.Finds member? id?) (h' : t.Finds member? id?') : id? = id?' := by
  cases h with
  | none => cases h'; rfl
  | some hf =>
    cases h' with
    | some hf' => rw [← hf, ← hf']

theorem Finds.member_unique {member?' : Option MemberRef} (h : t.Finds member? id?)
    (h' : t.Finds member?' id?) : member? = member?' := by
  cases h with
  | none => cases h'; rfl
  | some hf =>
    cases h' with
    | some hf' => rw [← get?_of_find? hf, ← get?_of_find? hf']

theorem Finds.addAll_eq (h : t.Finds member? id?) : t.addAll member?.toList = t := by
  cases h with
  | none => rfl
  | some hf => exact addAll_eq_self fun m hm => List.mem_singleton.1 hm ▸ mem_of_find? hf

end ImportTable

/-! ## The resolver -/

namespace Resolver

/-- The resolver searches the module, and remembers what a search would give. -/
structure Faithful (m : Module) (r : Resolver) : Prop where
  module : r.module = { m with imports := r.module.imports }
  answers : ∀ d answer, r.answers.lookup d = some answer →
    r.module.imports.Finds (m.lookup d) answer

theorem faithful_start (m : Module) : Faithful m ⟨m, []⟩ := ⟨rfl, fun _ _ h => by cases h⟩

/-- On the way from `r` to `r'` the member was imported, under this id. -/
structure Imports (m : Module) (r : Resolver) (member? : Option MemberRef)
    (id? : Option MemberId) (r' : Resolver) : Prop where
  faithful : r'.Faithful m
  imports : r'.module.imports = r.module.imports.addAll member?.toList
  finds : r'.module.imports.Finds member? id?

variable {m : Module} {r r' : Resolver} {d : Descriptor}

theorem Imports.extends {member? : Option MemberRef} {id? : Option MemberId}
    (h : r.Imports m member? id? r') : r'.module.imports.Extends r.module.imports :=
  h.imports ▸ ImportTable.extends_addAll _ _

/-- What a descriptor names does not depend on what is imported. -/
theorem Faithful.lookup (h : r.Faithful m) (d : Descriptor) : r.module.lookup d = m.lookup d := by
  rw [h.module]
  rfl

theorem imports_none (h : r.Faithful m) : r.Imports m none none r := ⟨h, rfl, .none⟩

/-- What was found is remembered. -/
theorem Faithful.remember {imports : ImportTable} {answer : Option MemberId} (h : r.Faithful m)
    (he : imports.Extends r.module.imports) (hf : imports.Finds (m.lookup d) answer) :
    Faithful m ⟨{ r.module with imports := imports }, (d, answer) :: r.answers⟩ := by
  refine ⟨?_, fun e answer' he' => ?_⟩
  · rw [h.module]
  · rw [List.lookup_cons] at he'
    by_cases hd : e = d
    · subst hd
      simp only [beq_self_eq_true, Option.some.injEq] at he'
      exact he' ▸ hf
    · simp only [beq_eq_false_iff_ne.2 hd] at he'
      exact (h.answers e answer' he').mono he

theorem imports_search (h : r.Faithful m) (d : Descriptor) :
    r.Imports m (m.lookup d) (r.search d).1 (r.search d).2 := by
  unfold search
  rw [h.lookup]
  cases hd : m.lookup d with
  | none =>
    refine ⟨h.remember (.refl _) ?_, rfl, .none⟩
    rw [hd]
    exact .none
  | some member =>
    have hadd := r.module.imports.find?_add member
    refine ⟨h.remember (r.module.imports.extends_add member) ?_, rfl, .some hadd⟩
    rw [hd]
    exact .some hadd

/-- The answer is the same whether it is remembered or searched for. -/
theorem imports_resolve (h : r.Faithful m) (d : Descriptor) :
    r.Imports m (m.lookup d) (r.resolve d).1 (r.resolve d).2 := by
  unfold resolve
  split
  · next answer ha =>
    have hfinds := h.answers d answer ha
    exact ⟨h, hfinds.addAll_eq.symm, hfinds⟩
  · exact imports_search h d

end Resolver

/-! ## Wanted members -/

namespace SymbolTable

variable (t : SymbolTable) (lookup : Descriptor → Option MemberRef)

/-- The member that a symbol stands for. -/
def named (s : HookSymbol) : Option MemberRef := (t.descriptor? s).bind lookup

/-- The accessor, if one of the hooks is called on a dispatcher. -/
def wantedAccessor : Option MemberRef :=
  if [t.named lookup .init, t.named lookup .onEntry, t.named lookup .onExit,
    t.named lookup .onException].any (·.any MemberRef.hasThis) then t.named lookup .accessor
  else none

/-- A hook that can be called. -/
def wantedHook (hasAccessor : Bool) (s : HookSymbol) : Option MemberRef :=
  (t.named lookup s).filter fun member => !(member.hasThis && !hasAccessor)

/-- Are all that is needed to print a call there? -/
def hasHelpers : Bool :=
  [HookSymbol.join, .format, .writeLine].all fun s => (t.named lookup s).isSome

/-- The member that is imported for a symbol. -/
def wanted (s : HookSymbol) : Option MemberRef :=
  let hook := t.wantedHook lookup (t.wantedAccessor lookup).isSome
  match s with
  | .accessor => t.wantedAccessor lookup
  | .init | .onEntry | .onExit | .onException => hook s
  | .currentMethod => if (hook .init).isSome then t.named lookup s else none
  | .join | .format | .writeLine => if t.hasHelpers lookup then t.named lookup s else none

variable {t lookup} {s : HookSymbol} {member : MemberRef} {hasAccessor : Bool}

theorem wantedHook_eq_some_iff : t.wantedHook lookup hasAccessor s = some member ↔
    t.named lookup s = some member ∧ (member.hasThis = true → hasAccessor = true) := by
  rw [wantedHook, Option.filter_eq_some_iff]
  cases member.hasThis <;> cases hasAccessor <;> simp

/-- What is imported for a symbol is what it stands for. -/
theorem named_of_wanted (h : t.wanted lookup s = some member) : t.named lookup s = some member := by
  cases s with
  | accessor =>
    simp only [wanted, wantedAccessor] at h
    split at h
    · exact h
    · cases h
  | init | onEntry | onExit | onException => exact (wantedHook_eq_some_iff.1 h).1
  | currentMethod | join | format | writeLine =>
    simp only [wanted] at h
    split at h
    · exact h
    · cases h

end SymbolTable

/-- The symbols in the order in which their members are imported. -/
def HookSymbol.inOrder : List HookSymbol :=
  [.accessor, .init, .onEntry, .onExit, .onException, .currentMethod, .join, .format, .writeLine]

namespace HookContext

/-- The context has the ids of these members, and calls the hooks accordingly. -/
structure Indexes (imports : ImportTable) (wanted : HookSymbol → Option MemberRef)
    (c : HookContext) : Prop where
  ids : ∀ s, imports.Finds (wanted s) (c.id? s)
  calls : ∀ s hook, c.hook? s = some hook →
    ∃ member, wanted s = some member ∧ hook.hasThis = member.hasThis

/-- A hook is known by its id and by the member it calls. -/
theorem hook?_unique {imports : ImportTable} {wanted : HookSymbol → Option MemberRef}
    {c c' : HookContext} (h : c.Indexes imports wanted) (h' : c'.Indexes imports wanted)
    {s : HookSymbol} {hook hook' : HookCall} (hc : c.hook? s = some hook)
    (hc' : c'.hook? s = some hook') : hook = hook' := by
  obtain ⟨member, hm, hthis⟩ := h.calls s hook hc
  obtain ⟨member', hm', hthis'⟩ := h'.calls s hook' hc'
  obtain rfl := Option.some.inj (hm.symm.trans hm')
  have hid := (h.ids s).unique (h'.ids s)
  rw [id?_of_hook? hc, id?_of_hook? hc', Option.some.injEq] at hid
  cases hook
  cases hook'
  simp_all

theorem Indexes.unique {imports : ImportTable} {wanted : HookSymbol → Option MemberRef}
    {c c' : HookContext} (h : c.Indexes imports wanted) (h' : c'.Indexes imports wanted) :
    c = c' := by
  have hid (s : HookSymbol) : c.id? s = c'.id? s := (h.ids s).unique (h'.ids s)
  have hhook (s : HookSymbol) (hook? hook?' : Option HookCall) (hc : c.hook? s = hook?)
      (hc' : c'.hook? s = hook?') (hm : hook?.map HookCall.member = hook?'.map HookCall.member) :
      hook? = hook?' := by
    cases hook? with
    | none => cases hook?' with
      | none => rfl
      | some hook' => cases hm
    | some hook =>
      cases hook?' with
      | none => cases hm
      | some hook' => rw [hook?_unique h h' hc hc']
  cases c
  cases c'
  simp only [HookContext.mk.injEq]
  exact ⟨hid .accessor, hhook .init _ _ rfl rfl (hid .init),
    hhook .onEntry _ _ rfl rfl (hid .onEntry), hhook .onExit _ _ rfl rfl (hid .onExit),
    hhook .onException _ _ rfl rfl (hid .onException), hid .currentMethod, hid .join, hid .format,
    hid .writeLine⟩

/-- Imports the member of a symbol if it is wanted. -/
def importWhen (wanted : Bool) (t : SymbolTable) (s : HookSymbol) :
    StateM Resolver (Option MemberId) :=
  if wanted then importSymbol t s else pure none

theorem bind_importWhen {α : Type} (wanted : Bool) (t : SymbolTable) (s : HookSymbol)
    (f : Option MemberId → StateM Resolver α) :
    (if wanted = true then importSymbol t s >>= f else pure none >>= f) =
      importWhen wanted t s >>= f := by
  cases wanted <;> rfl

/-- The members that are imported, one after the other. -/
theorem run_resolve (t : SymbolTable) (r : Resolver) :
    (resolve t).run r =
      let find := findSymbol t r
      let p₀ := importWhen ([find .init, find .onEntry, find .onExit, find .onException].any
        (·.any MemberRef.hasThis)) t .accessor r
      let p₁ := importHook t p₀.1.isSome .init (find .init) p₀.2
      let p₂ := importHook t p₀.1.isSome .onEntry (find .onEntry) p₁.2
      let p₃ := importHook t p₀.1.isSome .onExit (find .onExit) p₂.2
      let p₄ := importHook t p₀.1.isSome .onException (find .onException) p₃.2
      let p₅ := importWhen p₁.1.isSome t .currentMethod p₄.2
      let helpers := [HookSymbol.join, .format, .writeLine].all fun s => (find s).isSome
      let p₆ := importWhen helpers t .join p₅.2
      let p₇ := importWhen helpers t .format p₆.2
      let p₈ := importWhen helpers t .writeLine p₇.2
      (⟨p₀.1, p₁.1, p₂.1, p₃.1, p₄.1, p₅.1, p₆.1, p₇.1, p₈.1⟩, p₈.2) := by
  unfold resolve
  dsimp only
  simp only [bind_importWhen]
  rfl

section

variable {m : Module} {t : SymbolTable} {r : Resolver}

theorem imports_importSymbol (h : r.Faithful m) (t : SymbolTable) (s : HookSymbol) :
    r.Imports m (t.named m.lookup s) (importSymbol t s r).1 (importSymbol t s r).2 := by
  unfold importSymbol SymbolTable.named
  cases t.descriptor? s with
  | none => exact Resolver.imports_none h
  | some d => exact Resolver.imports_resolve h d

theorem imports_importWhen (h : r.Faithful m) (wanted : Bool) (t : SymbolTable) (s : HookSymbol) :
    r.Imports m (if wanted then t.named m.lookup s else none) (importWhen wanted t s r).1
      (importWhen wanted t s r).2 := by
  cases wanted with
  | false => exact Resolver.imports_none h
  | true => exact imports_importSymbol h t s

theorem imports_importHook (h : r.Faithful m) (t : SymbolTable) (hasAccessor : Bool)
    (s : HookSymbol) :
    let p := importHook t hasAccessor s (t.named m.lookup s) r
    r.Imports m (t.wantedHook m.lookup hasAccessor s) (p.1.map HookCall.member) p.2 ∧
      ∀ hook, p.1 = some hook → ∃ member,
        t.wantedHook m.lookup hasAccessor s = some member ∧ hook.hasThis = member.hasThis := by
  unfold SymbolTable.wantedHook importHook
  cases hn : t.named m.lookup s with
  | none => exact ⟨Resolver.imports_none h, fun hook hh => by cases hh⟩
  | some member =>
    dsimp only
    by_cases hc : (member.hasThis && !hasAccessor) = true
    · rw [if_pos hc, Option.filter_some, hc]
      exact ⟨Resolver.imports_none h, fun hook hh => by cases hh⟩
    · have hi := imports_importSymbol h t s
      rw [hn] at hi
      rw [if_neg hc, Option.filter_some, Bool.eq_false_iff.2 hc]
      refine ⟨⟨hi.faithful, hi.imports, ?_⟩, fun hook hh => ?_⟩
      · show (importSymbol t s r).2.module.imports.Finds (some member)
          (((importSymbol t s r).1.map _).map _)
        rw [Option.map_map]
        simpa [Function.comp_def] using hi.finds
      · obtain ⟨id, -, rfl⟩ := Option.map_eq_some_iff.1 hh
        exact ⟨member, rfl, rfl⟩

theorem findSymbol_start (m : Module) (t : SymbolTable) (s : HookSymbol) :
    findSymbol t ⟨m, []⟩ s = t.named m.lookup s := rfl

/-- Resolving the hooks of a module imports the wanted members, and nothing else. -/
theorem indexes_of_resolve {c : HookContext} (h : (resolve t).run ⟨m, []⟩ = (c, r)) :
    r.module = { m with
      imports := m.imports.addAll (HookSymbol.inOrder.filterMap (t.wanted m.lookup)) } ∧
      c.Indexes r.module.imports (t.wanted m.lookup) := by
  rw [run_resolve] at h
  simp only [findSymbol_start] at h
  have h₀ := imports_importWhen (Resolver.faithful_start m)
    ([t.named m.lookup .init, t.named m.lookup .onEntry, t.named m.lookup .onExit,
      t.named m.lookup .onException].any (·.any MemberRef.hasThis)) t .accessor
  generalize importWhen _ t .accessor _ = p₀ at h h₀
  have haccessor : p₀.1.isSome = (t.wantedAccessor m.lookup).isSome := h₀.finds.isSome_eq
  rw [haccessor] at h
  obtain ⟨h₁, hcalls₁⟩ := imports_importHook h₀.faithful t (t.wantedAccessor m.lookup).isSome .init
  generalize importHook t _ .init _ p₀.2 = p₁ at h h₁ hcalls₁
  obtain ⟨h₂, hcalls₂⟩ :=
    imports_importHook h₁.faithful t (t.wantedAccessor m.lookup).isSome .onEntry
  generalize importHook t _ .onEntry _ p₁.2 = p₂ at h h₂ hcalls₂
  obtain ⟨h₃, hcalls₃⟩ :=
    imports_importHook h₂.faithful t (t.wantedAccessor m.lookup).isSome .onExit
  generalize importHook t _ .onExit _ p₂.2 = p₃ at h h₃ hcalls₃
  obtain ⟨h₄, hcalls₄⟩ :=
    imports_importHook h₃.faithful t (t.wantedAccessor m.lookup).isSome .onException
  generalize importHook t _ .onException _ p₃.2 = p₄ at h h₄ hcalls₄
  have hinit : p₁.1.isSome =
      (t.wantedHook m.lookup (t.wantedAccessor m.lookup).isSome .init).isSome := by
    rw [← h₁.finds.isSome_eq, Option.isSome_map]
  have hhelpers : ([HookSymbol.join, .format, .writeLine].all fun s =>
      (t.named m.lookup s).isSome) = t.hasHelpers m.lookup := rfl
  rw [hinit, hhelpers] at h
  have h₅ := imports_importWhen h₄.faithful
    (t.wantedHook m.lookup (t.wantedAccessor m.lookup).isSome .init).isSome t .currentMethod
  generalize importWhen _ t .currentMethod p₄.2 = p₅ at h h₅
  have h₆ := imports_importWhen h₅.faithful (t.hasHelpers m.lookup) t .join
  generalize importWhen _ t .join p₅.2 = p₆ at h h₆
  have h₇ := imports_importWhen h₆.faithful (t.hasHelpers m.lookup) t .format
  generalize importWhen _ t .format p₆.2 = p₇ at h h₇
  have h₈ := imports_importWhen h₇.faithful (t.hasHelpers m.lookup) t .writeLine
  generalize importWhen _ t .writeLine p₇.2 = p₈ at h h₈
  cases h
  have e₇ := h₈.extends
  have e₆ := e₇.trans h₇.extends
  have e₅ := e₆.trans h₆.extends
  have e₄ := e₅.trans h₅.extends
  have e₃ := e₄.trans h₄.extends
  have e₂ := e₃.trans h₃.extends
  have e₁ := e₂.trans h₂.extends
  have e₀ := e₁.trans h₁.extends
  refine ⟨?_, ⟨fun s => ?_, fun s hook hh => ?_⟩⟩
  · refine h₈.faithful.module.trans ?_
    simp only [HookSymbol.inOrder, ImportTable.addAll_filterMap_cons, List.filterMap_nil,
      ImportTable.addAll_nil]
    rw [h₈.imports, h₇.imports, h₆.imports, h₅.imports, h₄.imports, h₃.imports, h₂.imports,
      h₁.imports, h₀.imports]
    rfl
  · cases s with
    | accessor => exact h₀.finds.mono e₀
    | init => exact h₁.finds.mono e₁
    | onEntry => exact h₂.finds.mono e₂
    | onExit => exact h₃.finds.mono e₃
    | onException => exact h₄.finds.mono e₄
    | currentMethod => exact h₅.finds.mono e₅
    | join => exact h₆.finds.mono e₆
    | format => exact h₇.finds.mono e₇
    | writeLine => exact h₈.finds
  · cases s with
    | init => exact hcalls₁ hook hh
    | onEntry => exact hcalls₂ hook hh
    | onExit => exact hcalls₃ hook hh
    | onException => exact hcalls₄ hook hh
    | _ => cases hh

/-- Each id of a context refers to what the descriptor of its symbol names. -/
theorem means_of_resolve {c : HookContext} (h : (resolve t).run ⟨m, []⟩ = (c, r)) :
    Resolved m t r.module.imports c ∧ r.module.imports.Extends m.imports := by
  obtain ⟨hmodule, hindexes⟩ := indexes_of_resolve h
  have found (s : HookSymbol) (member : MemberRef) (hw : t.wanted m.lookup s = some member) :
      ∃ d, t.descriptor? s = some d ∧ m.lookup d = some member :=
    Option.bind_eq_some_iff.1 (SymbolTable.named_of_wanted hw)
  refine ⟨⟨fun s id hid => ?_, fun s hook hh => ?_⟩, ?_⟩
  · have hfinds := hindexes.ids s
    rw [hid] at hfinds
    generalize hw : t.wanted m.lookup s = member? at hfinds
    cases hfinds with
    | @some member _ hf =>
      obtain ⟨d, hd, hlookup⟩ := found s member hw
      exact ⟨d, hd, member, hlookup, ImportTable.get?_of_find? hf⟩
  · obtain ⟨member, hw, hthis⟩ := hindexes.calls s hook hh
    obtain ⟨d, hd, hlookup⟩ := found s member hw
    refine ⟨⟨d, member, hd, hlookup, hthis⟩, fun hhas => ?_⟩
    have haccessor : c.accessor?.isSome = (t.wantedAccessor m.lookup).isSome :=
      (hindexes.ids .accessor).isSome_eq
    rw [haccessor]
    cases s with
    | init | onEntry | onExit | onException =>
      exact (SymbolTable.wantedHook_eq_some_iff.1 hw).2 (hthis ▸ hhas)
    | _ => cases hh
  · rw [hmodule]
    exact ImportTable.extends_addAll _ _

end

end HookContext

end Interpose
