import Interpose.Command.Basic
import Interpose.Proofs.Document.Decoded
import Interpose.Proofs.Weave.HookCalls
import Interpose.Proofs.Weave.Wanted
/-!
# Linked modules

Linking adds the libraries that declare what the machine offers, unless there is one of the
same name. In a module that had none and declares none of the types itself, each symbol is
then found as the machine offers it; only if the hooks are configured into the system library
do they take its place. The machine has each of these members, but it asks for the dispatcher
type first, and that may be configured as the type of method descriptions. The dispatcher
type is also written out as the type of the accessor's value, and has to be read back as one.

Results:
* `lookup_linkHost`: the member that a symbol stands for in a linked module.
* `call_ne_fault`: a call of such a member with what it takes.
* `readsBack_linkHost_iff`: when a linked module reads back from its document.
* `linkHost_provides`: the three of a linked module.
-/
namespace Interpose

namespace HookSymbol

/-- Is the symbol's member in the system library? -/
def isSystem : HookSymbol → Bool
  | .currentMethod | .join | .format | .writeLine => true
  | _ => false

/-- The library of the symbol's member, if the hooks are in this one. -/
def library (hookLibrary : String) (s : HookSymbol) : String :=
  if s.isSystem then systemLibrary else hookLibrary

end HookSymbol

namespace Command

/-- The library that declares the hooks. -/
def hooksLibrary (dispatcherType name : String) : Library :=
  (hostLibraries dispatcherType name).head (List.cons_ne_nil _ _)

/-- The library that declares the other members, whatever is configured. -/
def othersLibrary : Library := (hostLibraries "" "").getLast (List.cons_ne_nil _ _)

theorem hostLibraries_eq (dispatcherType hookLibrary : String) :
    hostLibraries dispatcherType hookLibrary =
      [hooksLibrary dispatcherType hookLibrary, othersLibrary] := rfl

variable {c : WeaveConfig} {m : Module} {s : HookSymbol} {d : Descriptor}
  {dispatcherType hookLibrary : String}

/-! ## What is found -/

/-- A module without libraries gets the one with the hooks, and the other if that has another
name. -/
theorem references_linkHost (c : WeaveConfig) (h : m.references = []) :
    (linkHost c m).references = hooksLibrary c.dispatcherType c.hookLibrary ::
      if c.hookLibrary = systemLibrary then [] else [othersLibrary] := by
  have hhooks (name : String) : (hooksLibrary c.dispatcherType name).name = name := rfl
  have hothers : othersLibrary.name = systemLibrary := rfl
  unfold linkHost
  rw [hostLibraries_eq]
  by_cases hsame : c.hookLibrary = systemLibrary <;>
    simp [addLibraries, h, hhooks, hothers, hsame]

theorem linkHost_eq (c : WeaveConfig) (m : Module) :
    linkHost c m = { m with references := (linkHost c m).references } := by
  have added (ls : List Library) (m : Module) :
      addLibraries m ls = { m with references := (addLibraries m ls).references } := by
    induction ls generalizing m with
    | nil => rfl
    | cons l rest ih =>
      rw [addLibraries]
      split
      · exact ih m
      · exact ih _
  exact added _ m

theorem lookupIn_eq_none {l : Library}
    (h : ∀ t ∈ l.types, ∀ x ∈ t.methods, x.name ≠ d.name) : Module.lookupIn l d = none := by
  rw [Module.lookupIn, List.findSome?_eq_none_iff]
  intro t ht
  rw [Option.map_eq_none_iff, List.find?_eq_none]
  intro x hx
  simp [Descriptor.accepts, (h t ht x hx).symm]

theorem lookupIn_hooks (hs : s.isSystem = false)
    (hd : (SymbolTable.all dispatcherType).descriptor? s = some d) :
    Module.lookupIn (hooksLibrary dispatcherType hookLibrary) d =
      some (s.member dispatcherType hookLibrary) := by
  cases s <;> cases hs <;> cases hd <;>
    simp [hooksLibrary, hostLibraries, Module.lookupIn, Descriptor.accepts, Descriptor.exact,
      HookSymbol.member]

/-- No hook has the name of another member. -/
theorem lookupIn_hooks_eq_none (hs : s.isSystem = true)
    (hd : (SymbolTable.all dispatcherType).descriptor? s = some d) :
    Module.lookupIn (hooksLibrary dispatcherType hookLibrary) d = none := by
  have hnames : ∀ name ∈ ["get_Instance", "Init", "OnEntry", "OnExit", "OnException"],
      name ≠ d.name := by
    cases s <;> cases hs <;> cases hd <;> decide
  refine lookupIn_eq_none fun t ht x hx => hnames x.name ?_
  obtain rfl := List.mem_singleton.1 ht
  exact List.mem_map_of_mem (f := Signature.name) hx

theorem lookupIn_others (hs : s.isSystem = true)
    (hd : (SymbolTable.all dispatcherType).descriptor? s = some d) :
    Module.lookupIn othersLibrary d = some (s.member dispatcherType systemLibrary) := by
  -- the member does not depend on the dispatcher type, so this can be evaluated
  have hmember : s.member dispatcherType systemLibrary = s.member "" systemLibrary := by
    cases s <;> cases hs <;> rfl
  rw [hmember]
  cases s <;> cases hs <;> cases hd <;> decide +kernel

theorem lookupOwn_eq_none (h : ∀ t ∈ m.types, t.name ≠ d.owner) : m.lookupOwn d = none := by
  rw [Module.lookupOwn, List.findSome?_eq_none_iff]
  intro t ht
  rw [Option.map_eq_none_iff, List.find?_eq_none]
  intro x _
  simp [Descriptor.accepts, (h t ht).symm]

/-- In a linked module a symbol stands for what the machine offers under its name. -/
theorem lookup_linkHost (hrefs : m.references = []) (htypes : ∀ t ∈ m.types, t.name ≠ d.owner)
    (hd : (SymbolTable.all c.dispatcherType).descriptor? s = some d)
    (hs : s.isSystem = true → c.hookLibrary ≠ systemLibrary) :
    (linkHost c m).lookup d = some (s.member c.dispatcherType (s.library c.hookLibrary)) := by
  have hown : (linkHost c m).lookupOwn d = none := by
    rw [linkHost_eq]
    exact lookupOwn_eq_none htypes
  rw [Module.lookup, hown, Option.none_or, references_linkHost c hrefs, List.findSome?_cons,
    HookSymbol.library]
  cases hsystem : s.isSystem with
  | true =>
    rw [lookupIn_hooks_eq_none hsystem hd, if_neg (hs hsystem)]
    exact List.findSome?_singleton.trans (lookupIn_others hsystem hd)
  | false =>
    rw [lookupIn_hooks hsystem hd]
    rfl

end Command

/-! ## What is called -/

/-- The arguments of a call: as many as the member takes, its receiver included, and a text or
no value where it takes a text. -/
structure MemberRef.Takes (r : MemberRef) (args : List Value) : Prop where
  count : args.length = r.params.length + if r.hasThis then 1 else 0
  texts : ∀ k, r.params[k]? = some .string → ∀ v,
    args[k + if r.hasThis then 1 else 0]? = some v → v = .null ∨ ∃ text, v = .text text

namespace Host

variable {host : Host} {w : World} {member : MemberRef} {args : List Value} {current : Value}
  {s : HookSymbol} {library : String}

theorem ok_ne_fault {v : Value} {f : MachineFault} :
    (.ok v : Except Trap Value) ≠ .error (.fault f) := by
  intro he
  cases he

theorem raise_ne_fault {e : Raise} {f : MachineFault} :
    (.error (.raise e) : Except Trap Value) ≠ .error (.fault f) := by
  intro he
  cases he

/-- A hook is only called on the dispatcher. -/
theorem call_of_receiver {v : Value} (ho : member.owner = host.dispatcherType)
    (hn : member.name ≠ "get_Instance") (hv : v ≠ .dispatcher) :
    host.call w member (v :: args) current = (.error (.raise .nullReference), w) := by
  rw [call, if_pos ho]
  unfold callHook
  rw [if_neg hn]
  cases v with
  | dispatcher => exact absurd rfl hv
  | _ => rfl

/-- What a hook takes besides the dispatcher is what it announces. -/
theorem announced_of_takes {v : Value} {rest : List Value} (hs : s.isSystem = false)
    (hne : s ≠ .accessor) (ht : (s.member host.dispatcherType library).Takes (v :: rest)) :
    ∃ a, Machine.Announced w.heap s rest a := by
  have hcount := ht.count
  cases s with
  | accessor => exact absurd rfl hne
  | currentMethod | join | format | writeLine => cases hs
  | init =>
    obtain ⟨receiver, method, array, rfl⟩ := List.length_eq_three.1 (Nat.succ.inj hcount)
    exact ⟨_, .init receiver method array⟩
  | onEntry =>
    obtain rfl := List.length_eq_zero_iff.1 (Nat.succ.inj hcount)
    exact ⟨_, .onEntry⟩
  | onExit =>
    obtain rfl := List.length_eq_zero_iff.1 (Nat.succ.inj hcount)
    exact ⟨_, .onExit⟩
  | onException =>
    obtain ⟨v, rfl⟩ := List.length_eq_one_iff.1 (Nat.succ.inj hcount)
    exact ⟨_, .onException v⟩

/-- A hook announces its call, or raises an exception for want of the dispatcher. -/
theorem call_hook_ne_fault (hs : s.isSystem = false)
    (ht : (s.member host.dispatcherType library).Takes args) (f : MachineFault) :
    (host.call w (s.member host.dispatcherType library) args current).1 ≠ .error (.fault f) := by
  cases s with
  | currentMethod | join | format | writeLine => cases hs
  | accessor =>
    rw [call_getInstance _ _ _ _ _ rfl rfl]
    exact ok_ne_fault
  | init | onEntry | onExit | onException =>
    cases args with
    | nil => cases ht.count
    | cons v rest =>
      by_cases hv : v = .dispatcher
      · subst hv
        obtain ⟨a, ha⟩ := announced_of_takes hs (by decide) ht
        obtain ⟨w', hcall, -⟩ := Machine.call_hook ha host library current
        rw [hcall]
        exact ok_ne_fault
      · rw [call_of_receiver rfl (by simp [HookSymbol.member]) hv]
        exact raise_ne_fault

/-- A member that takes a text first raises an exception where it is taken for a hook. -/
theorem call_of_text {rest : List Ty} (ho : member.owner = host.dispatcherType)
    (hn : member.name ≠ "get_Instance") (hp : member.params = .string :: rest)
    (hthis : member.hasThis = false) (ht : member.Takes args) :
    host.call w member args current = (.error (.raise .nullReference), w) := by
  obtain ⟨hcount, htexts⟩ := ht
  cases args with
  | nil => simp [hp, hthis] at hcount
  | cons v args =>
    have hv := htexts 0 (by rw [hp]; rfl) v (by rw [hthis]; rfl)
    have hne : v ≠ .dispatcher := by
      rintro rfl
      rcases hv with hv | ⟨text, hv⟩ <;> cases hv
    exact call_of_receiver ho hn hne

theorem callJoin_ne_fault (w : World) (args : List Value) (f : MachineFault) :
    callJoin w args ≠ .error (.fault f) := by
  unfold callJoin
  split
  · exact raise_ne_fault
  · exact ok_ne_fault

theorem callFormat_ne_fault (w : World) (args : List Value) (f : MachineFault) :
    callFormat w args ≠ .error (.fault f) := by
  unfold callFormat
  split
  · exact ok_ne_fault
  · exact raise_ne_fault

/-- A call of a member that the machine offers, with what the member takes, reaches it, unless
the dispatcher type is that of method descriptions: there a member without a receiver is taken
for a hook. -/
theorem call_ne_fault (hs : s = .currentMethod → host.dispatcherType ≠ methodBaseType)
    (ht : (s.member host.dispatcherType library).Takes args) (f : MachineFault) :
    (host.call w (s.member host.dispatcherType library) args current).1 ≠ .error (.fault f) := by
  cases s with
  | accessor | init | onEntry | onExit | onException => exact call_hook_ne_fault rfl ht f
  | currentMethod => simp [call, HookSymbol.member, (hs rfl).symm]
  | join =>
    by_cases ho : "System.String" = host.dispatcherType
    · rw [call_of_text ho (by simp [HookSymbol.member]) rfl rfl ht]
      exact raise_ne_fault
    · simp only [call, HookSymbol.member, ho]
      exact callJoin_ne_fault w args f
  | format =>
    by_cases ho : "System.String" = host.dispatcherType
    · rw [call_of_text ho (by simp [HookSymbol.member]) rfl rfl ht]
      exact raise_ne_fault
    · simp only [call, HookSymbol.member, ho]
      exact callFormat_ne_fault w args f
  | writeLine =>
    by_cases ho : "System.Console" = host.dispatcherType
    · rw [call_of_text ho (by simp [HookSymbol.member]) rfl rfl ht]
      exact raise_ne_fault
    · simp only [call, HookSymbol.member, ho]
      exact ok_ne_fault

end Host

/-! ## What is read back -/

theorem Signature.storable_iff {s : Signature} :
    s.Storable ↔ (∀ t ∈ s.params, t.WellNamed) ∧ s.returnType.WellNamed :=
  ⟨fun h => ⟨h.params, h.returnType⟩, fun h => ⟨h.1, h.2⟩⟩

namespace Command

variable {c : WeaveConfig} {m : Module} {dispatcherType hookLibrary : String}

/-- The accessor gives a value of the dispatcher type. -/
theorem wellNamed_of_storable (h : (hooksLibrary dispatcherType hookLibrary).Storable) :
    (Ty.named dispatcherType).WellNamed :=
  (h _ List.mem_cons_self _ List.mem_cons_self).returnType

theorem storable_hostLibraries (hookLibrary : String) (h : (Ty.named dispatcherType).WellNamed) :
    ∀ l ∈ hostLibraries dispatcherType hookLibrary, l.Storable := by
  have hmethod : (Ty.named methodBaseType).WellNamed := by decide
  have hexception : (Ty.named exceptionType).WellNamed := by decide
  have hvoid : Ty.void.WellNamed := trivial
  have hstring : Ty.string.WellNamed := trivial
  have hobject : Ty.object.WellNamed := trivial
  have hobjects : Ty.objectArray.WellNamed := trivial
  simp [hostLibraries, Library.Storable, Signature.storable_iff, h, hmethod, hexception, hvoid,
    hstring, hobject, hobjects]

theorem mem_of_mem_linkHost (hrefs : m.references = []) {l : Library}
    (h : l ∈ (linkHost c m).references) : l ∈ hostLibraries c.dispatcherType c.hookLibrary := by
  rw [references_linkHost c hrefs] at h
  rw [hostLibraries_eq]
  split at h
  · exact List.mem_cons.2 ((List.mem_cons.1 h).imp_right fun h => by cases h)
  · exact h

/-- A linked module reads back if the module did and the dispatcher type is the name of a
class, and only then. -/
theorem readsBack_linkHost_iff (hrefs : m.references = []) :
    (linkHost c m).ReadsBack ↔ m.ReadsBack ∧ (Ty.named c.dispatcherType).WellNamed := by
  have htypes : (linkHost c m).types = m.types := by rw [linkHost_eq]
  have himports : (linkHost c m).imports = m.imports := by rw [linkHost_eq]
  rw [Document.readsBack_iff, Document.readsBack_iff, Document.renumbered_eq_self_iff,
    Document.renumbered_eq_self_iff, Module.Addressable, Module.Addressable, htypes]
  constructor
  · rintro ⟨⟨hmethods, himported, hlibraries⟩, haddressable, hsame⟩
    rw [htypes] at hmethods
    rw [himports] at himported
    rw [references_linkHost c hrefs] at hlibraries
    have hnone : ∀ l ∈ m.references, l.Storable := by
      rw [hrefs]
      exact List.forall_mem_nil _
    exact ⟨⟨⟨hmethods, himported, hnone⟩, haddressable, hsame⟩,
      wellNamed_of_storable (hlibraries _ List.mem_cons_self)⟩
  · rintro ⟨⟨⟨hmethods, himported, -⟩, haddressable, hsame⟩, hname⟩
    have hlibraries := storable_hostLibraries c.hookLibrary hname
    refine ⟨⟨?_, ?_, fun l hl => hlibraries l (mem_of_mem_linkHost hrefs hl)⟩, haddressable, hsame⟩
    · rwa [htypes]
    · rwa [himports]

/-! ## What linking provides -/

/-- Let a module refer to no library and declare none of the types that the symbols belong to.
Once it is linked, each symbol resolves to the member that the machine offers, those of the
system library unless the hooks are configured to be there. A call of that member with what it
takes is no fault, except for the running method's description when hooks are called on that
type. And it reads back from its own document if, and only if, it did before and the dispatcher
type is the name of a class. -/
theorem linkHost_provides (c : WeaveConfig) (m : Module) (hrefs : m.references = [])
    (htypes : ∀ t ∈ m.types, ∀ e ∈ (SymbolTable.all c.dispatcherType).entries,
      t.name ≠ e.2.owner) :
    (∀ s d, (SymbolTable.all c.dispatcherType).descriptor? s = some d →
      (s.isSystem = true → c.hookLibrary ≠ systemLibrary) →
        let p := Resolver.resolve ⟨linkHost c m, []⟩ d
        ∃ id, p.1 = some id ∧ p.2.module.imports.get? id =
          some (s.member c.dispatcherType (s.library c.hookLibrary))) ∧
    (∀ (s : HookSymbol) (host : Host) (w : World) (args : List Value) (current : Value)
      (f : MachineFault), host.dispatcherType = c.dispatcherType →
      (s = .currentMethod → c.dispatcherType ≠ methodBaseType) →
      (s.member c.dispatcherType (s.library c.hookLibrary)).Takes args →
        (host.call w (s.member c.dispatcherType (s.library c.hookLibrary)) args current).1 ≠
          .error (.fault f)) ∧
    ((linkHost c m).ReadsBack ↔ m.ReadsBack ∧ (Ty.named c.dispatcherType).WellNamed) := by
  refine ⟨fun s d hd hs => ?_, fun s host w args current f hhost hs ht => ?_,
    readsBack_linkHost_iff hrefs⟩
  · have howner : ∀ t ∈ m.types, t.name ≠ d.owner := fun t ht =>
      htypes t ht (s, d) (SymbolTable.mem_of_descriptor? hd)
    have hfinds := (Resolver.imports_resolve (Resolver.faithful_start (linkHost c m)) d).finds
    rw [lookup_linkHost hrefs howner hd hs] at hfinds
    intro p
    change p.2.module.imports.Finds _ p.1 at hfinds
    cases hid : p.1 with
    | none =>
      rw [hid] at hfinds
      cases hfinds
    | some id =>
      rw [hid] at hfinds
      cases hfinds with
      | some hfind => exact ⟨id, rfl, ImportTable.get?_of_find? hfind⟩
  · rw [← hhost] at hs ht ⊢
    exact Host.call_ne_fault hs ht f

/-- A module with nothing in it, linked as usual. -/
theorem linkHost_provides_bare :
    let m : Module := { name := "App" }
    let member := HookSymbol.writeLine.member defaultDispatcherType systemLibrary
    (∃ id, (Resolver.resolve ⟨linkHost {} m, []⟩
      (.exact "System.Console" "WriteLine" [.string])).1 = some id) ∧
    (∀ f, (Host.call {} {} member [.text "Hello"] .null).1 ≠ .error (.fault f)) ∧
    (linkHost {} m).ReadsBack := by
  intro m member
  obtain ⟨hresolves, hcalls, hreads⟩ := linkHost_provides {} m rfl (fun _ ht => by cases ht)
  obtain ⟨id, hid, -⟩ := hresolves .writeLine _ rfl (by decide)
  have htakes : member.Takes [.text "Hello"] := by
    refine ⟨rfl, fun k hk v hv => ?_⟩
    cases k with
    | zero => exact .inr ⟨"Hello", (Option.some.inj hv).symm⟩
    | succ k => cases hk
  have hback : m.ReadsBack :=
    Document.readsBack_iff_exists.2 ⟨.obj [("name", .str "App")], rfl⟩
  exact ⟨⟨id, hid⟩, fun f => hcalls .writeLine {} {} _ .null f rfl nofun htakes,
    hreads.2 ⟨hback, by decide⟩⟩

/-- A dispatcher type whose name has a blank is not read back; hooks on the type of method
descriptions hide the running method's description; and hooks in a library of the system
library's name hide all that is there. -/
theorem linkHost_lacks :
    (Module.ReadsBack { name := "App" } ∧
      ¬ (linkHost { dispatcherType := "A B" } { name := "App" }).ReadsBack) ∧
    (HookSymbol.currentMethod.member methodBaseType systemLibrary).Takes [] ∧
    (Host.call { dispatcherType := methodBaseType } {}
      (HookSymbol.currentMethod.member methodBaseType systemLibrary) [] .null).1 =
        .error (.fault (.unresolvedCall "System.Reflection.MethodBase::GetCurrentMethod")) ∧
    (linkHost { hookLibrary := systemLibrary } { name := "App" }).lookup
      (.exact "System.Console" "WriteLine" [.string]) = none := by
  refine ⟨⟨?_, ?_⟩, ⟨rfl, fun k hk => by cases hk⟩, by decide +kernel, by decide +kernel⟩
  · exact Document.readsBack_iff_exists.2 ⟨.obj [("name", .str "App")], rfl⟩
  · rw [readsBack_linkHost_iff rfl]
    exact fun h => absurd h.2 (by decide)

end Command

end Interpose
