import Interpose.Proofs.Weave.Account
import Interpose.Proofs.Weave.Geometry
/-!
# Imports and calls

What a pass imports is decided once for the module, and what it calls is decided for each method
from other conditions. They come to the same: each member of the context is called by the code
around every woven body, and that code names no other member.

Results:
* `Describes.emitted`, `Describes.emitted_cases`: what weaving emits is the code around a body, the
  anchor, and what stands in the place of returns.
* `WovenBody.utters_of_emitted`: it names members of the context, types that are boxed, and the
  exit.
* `thrifty_pass`: a context has a member only if there is a use for it.
* `WovenBody.invokes_of_id`: each member of the context is called.
* `id?_of_new`: what a pass appended to the imports is in the context.
* `weaveInPlace_imports`: what a pass imports is called in every method it weaves.
-/
namespace Interpose

/-- An instruction that weaving put into a body. -/
def Emitted (b woven : Body) (i : Instruction) : Prop :=
  ∃ id, (id, i) ∈ woven.stream ∧ (id, i) ∉ b.stream

/-- One of the instructions calls the member. -/
def Invokes (code : List Instruction) (id : MemberId) : Prop :=
  .call id ∈ code ∨ .callvirt id ∈ code

theorem Invokes.mono {code code' : List Instruction} {id : MemberId} (h : Invokes code id)
    (hs : code ⊆ code') : Invokes code' id :=
  h.imp (hs ·) (hs ·)

/-! ## Emitted instructions -/

theorem mem_of_mem_number {n : Nat} {code : List Instruction} {id : InstructionId}
    {i : Instruction} (h : (id, i) ∈ Body.number n code) : n ≤ id ∧ i ∈ code := by
  constructor
  · have hid := List.mem_map_of_mem (f := Prod.fst) h
    rw [Body.map_fst_number, List.mem_range'_1] at hid
    exact hid.1
  · have hi := List.mem_map_of_mem (f := Prod.snd) h
    rwa [Body.map_snd_number] at hi

theorem exists_mem_number {code : List Instruction} {i : Instruction} (h : i ∈ code) (n : Nat) :
    ∃ id, n ≤ id ∧ (id, i) ∈ Body.number n code := by
  rw [← Body.map_snd_number n code] at h
  obtain ⟨⟨id, i⟩, hmem, rfl⟩ := List.mem_map.1 h
  exact ⟨id, (mem_of_mem_number hmem).1, hmem⟩

/-- Retiring the returns of a stream brings in stores, and leaves for the exit. -/
theorem mem_of_mem_retire {exit : InstructionId} {result? : Option SlotId} {fresh : Nat}
    {l : List (InstructionId × Instruction)} {id : InstructionId} {i : Instruction}
    (h : (id, i) ∈ retire exit result? fresh l) :
    (id, i) ∈ l ∨ i = .leave exit ∨ ∃ slot, i = .stloc slot := by
  induction l generalizing fresh with
  | nil => cases h
  | cons x rest ih =>
    obtain ⟨id', i'⟩ := x
    rw [retire, List.mem_append] at h
    rcases h with h | h
    · unfold retired leaving at h
      split at h
      · cases result? with
        | none =>
          cases List.mem_singleton.1 h
          exact .inr (.inl rfl)
        | some slot =>
          rcases List.mem_pair.1 h with h | h
          · cases h
            exact .inr (.inr ⟨slot, rfl⟩)
          · cases h
            exact .inr (.inl rfl)
      · rw [List.mem_singleton.1 h]
        exact .inl List.mem_cons_self
    · exact (ih h).imp_left (List.mem_cons_of_mem _)

namespace Layout

variable {L : Layout} {woven : Body} {i : Instruction}

/-- The code around the original stream, the anchor apart. -/
def added (L : Layout) : List Instruction := L.prologue ++ L.epilogue

theorem Describes.emitted (h : L.Describes woven) (hi : i ∈ L.added) :
    Emitted L.body woven i := by
  have hfresh {id : InstructionId} (hid : L.body.size ≤ id) : (id, i) ∉ L.body.stream := by
    intro hmem
    have hold : id ∈ L.body.ids := List.mem_map_of_mem (f := Prod.fst) hmem
    exact Nat.not_lt.2 hid ((L.body.mem_ids id).1 hold)
  rcases List.mem_append.1 hi with hi | hi
  · obtain ⟨id, hid, hmem⟩ := exists_mem_number hi (L.body.size + 1)
    refine ⟨id, ?_, hfresh (by omega)⟩
    rw [h.stream]
    exact List.mem_append_left _ (List.mem_append_left _ (List.mem_cons_of_mem _ hmem))
  · obtain ⟨id, hid, hmem⟩ := exists_mem_number hi L.fallthrough
    refine ⟨id, ?_, hfresh (by simp only [fallthrough] at hid; omega)⟩
    rw [h.stream]
    exact List.mem_append_right _ hmem

theorem Describes.emitted_cases (h : L.Describes woven) (hi : Emitted L.body woven i) :
    i ∈ L.added ∨ i = .plain .nop ∨ i = .leave L.exit ∨ ∃ slot, i = .stloc slot := by
  obtain ⟨id, hmem, hnot⟩ := hi
  rw [h.stream, Layout.stream, front, List.mem_append, List.mem_append, List.mem_cons] at hmem
  rcases hmem with ((hmem | hmem) | hmem) | hmem
  · exact .inr (.inl (Prod.mk.inj hmem).2)
  · exact .inl (List.mem_append_left _ (mem_of_mem_number hmem).2)
  · rcases mem_of_mem_retire hmem with hold | hretired
    · exact absurd hold hnot
    · exact .inr (.inr hretired)
  · exact .inl (List.mem_append_right _ (mem_of_mem_number hmem).2)

end Layout

/-! ## What emitted code names -/

namespace WovenBody

variable {c : HookContext} {config : WeaveConfig} {capture : Capture} {name : String}
  {returnType : Ty} {hooks : WovenHooks} {L : Layout} {array exception : SlotId} {i : Instruction}

/-- The code around a woven body leaves for the exit, or has an operand of announcements. -/
theorem utters_of_added (h : WovenBody c config capture name returnType hooks L array exception)
    (hi : i ∈ L.added) : i.operand = .target L.exit ∨ c.Utters capture i.operand := by
  have hreturn : c.Speaks capture L.guard.onReturn := by
    rw [h.onReturn]
    split
    · exact HookContext.speaks_exitCode
    · exact HookContext.speaks_nil
  have hexception : c.Speaks capture L.guard.onException := by
    rw [h.onException]
    exact (HookContext.speaks_exceptionCode config exception).append HookContext.speaks_exitCode
  rw [Layout.added, h.prologue, Layout.Describes.epilogue_eq, Layout.keep] at hi
  simp only [List.mem_append, List.mem_cons, List.not_mem_nil, or_false, List.cons_append,
    Option.mem_toList, Option.map_eq_some_iff] at hi
  rcases hi with hi | rfl | rfl | (hi | rfl) | rfl | hi | ⟨slot, -, rfl⟩ | rfl
  · exact .inr (HookContext.speaks_announceCode config name array i hi).utters
  · exact .inl rfl
  · refine .inr ?_
    cases L.guard.exception? <;> trivial
  · exact .inr (hexception i hi).utters
  · exact .inr trivial
  · exact .inl rfl
  · exact .inr (hreturn i hi).utters
  · exact .inr trivial
  · exact .inr trivial

/-- So does all that weaving emits. -/
theorem utters_of_emitted (h : WovenBody c config capture name returnType hooks L array exception)
    {woven : Body} (hd : L.Describes woven) (hi : Emitted L.body woven i) :
    i.operand = .target L.exit ∨ c.Utters capture i.operand := by
  rcases hd.emitted_cases hi with hi | rfl | rfl | ⟨slot, rfl⟩
  · exact h.utters_of_added hi
  · exact .inr trivial
  · exact .inl rfl
  · exact .inr trivial

end WovenBody

/-! ## Members that are imported -/

/-- The hooks among the symbols. -/
def HookSymbol.hooks : List HookSymbol := [.init, .onEntry, .onExit, .onException]

/-- The symbols that tracing needs. -/
def HookSymbol.helpers : List HookSymbol := [.join, .format, .writeLine]

namespace SymbolTable

variable {config : WeaveConfig} {lookup : Descriptor → Option MemberRef} {s : HookSymbol}
  {member : MemberRef} {t : SymbolTable}

theorem isUsed_of_named (h : (forConfig config).named lookup s = some member) :
    isUsed config s = true := by
  obtain ⟨d, hd, -⟩ := Option.bind_eq_some_iff.1 h
  exact (List.mem_filter.1 (mem_of_descriptor? hd)).2

theorem wanted_hook (hs : s ∈ HookSymbol.hooks) :
    t.wanted lookup s = t.wantedHook lookup (t.wantedAccessor lookup).isSome s := by
  simp only [HookSymbol.hooks, List.mem_cons, List.not_mem_nil, or_false] at hs
  rcases hs with rfl | rfl | rfl | rfl <;> rfl

/-- The accessor is wanted for a hook that is wanted too. -/
theorem exists_hook_of_accessor (h : (t.wantedAccessor lookup).isSome = true) :
    ∃ s ∈ HookSymbol.hooks, ∃ member, t.wanted lookup s = some member ∧
      member.hasThis = true := by
  have hany : (HookSymbol.hooks.map (t.named lookup)).any (·.any MemberRef.hasThis) = true := by
    unfold wantedAccessor at h
    split at h
    · assumption
    · cases h
  obtain ⟨member?, hmem, hthis⟩ := List.any_eq_true.1 hany
  obtain ⟨s, hs, rfl⟩ := List.mem_map.1 hmem
  obtain ⟨member, hmember, hthis⟩ := (Option.any_eq_true _ _).1 hthis
  refine ⟨s, hs, member, ?_, hthis⟩
  rw [wanted_hook hs, wantedHook_eq_some_iff]
  exact ⟨hmember, fun _ => h⟩

/-- A helper of tracing is wanted if all of them are there and tracing is on. -/
theorem helpers_of_wanted (hs : s ∈ HookSymbol.helpers)
    (h : ((forConfig config).wanted lookup s).isSome = true) :
    config.traceArguments = true ∧ ∀ s' ∈ HookSymbol.helpers,
      ((forConfig config).wanted lookup s').isSome = true := by
  have hwanted (s' : HookSymbol) (hs' : s' ∈ HookSymbol.helpers) :
      (forConfig config).wanted lookup s' =
        if (forConfig config).hasHelpers lookup then (forConfig config).named lookup s'
        else none := by
    simp only [HookSymbol.helpers, List.mem_cons, List.not_mem_nil, or_false] at hs'
    rcases hs' with rfl | rfl | rfl <;> rfl
  have hused : isUsed config s = config.traceArguments := by
    simp only [HookSymbol.helpers, List.mem_cons, List.not_mem_nil, or_false] at hs
    rcases hs with rfl | rfl | rfl <;> rfl
  rw [hwanted s hs] at h
  split at h
  · next hhelpers =>
    obtain ⟨member, hmember⟩ := Option.isSome_iff_exists.1 h
    refine ⟨hused.symm.trans (isUsed_of_named hmember), fun s' hs' => ?_⟩
    rw [hwanted s' hs', if_pos hhelpers]
    exact List.all_eq_true.1 hhelpers s' hs'
  · cases h

end SymbolTable

namespace HookContext

/-- The context has a member only if there is a use for it. -/
structure Thrifty (c : HookContext) (config : WeaveConfig) : Prop where
  receiver : ∀ s hook, c.hook? s = some hook → hook.hasThis = true → c.accessor?.isSome = true
  accessor : c.accessor?.isSome = true → ∃ s hook, c.hook? s = some hook ∧ hook.hasThis = true
  onException : c.onException?.isSome = true → config.notifyException = true
  currentMethod : c.currentMethod?.isSome = true → c.init?.isSome = true
  helpers : ∀ s ∈ HookSymbol.helpers, (c.id? s).isSome = true → c.traces config = true

theorem isSome_hook? (c : HookContext) {s : HookSymbol} (hs : s ∈ HookSymbol.hooks) :
    (c.hook? s).isSome = (c.id? s).isSome := by
  simp only [HookSymbol.hooks, List.mem_cons, List.not_mem_nil, or_false] at hs
  rcases hs with rfl | rfl | rfl | rfl <;> simp [hook?, id?]

theorem thrifty_pass (m : Module) (config : WeaveConfig) :
    (m.pass config).context.Thrifty config := by
  have hindexes := indexes_pass m config
  have hresolved := (m.resolved_pass config).1
  generalize (m.pass config).context = c at hindexes hresolved
  have hsome (s : HookSymbol) :
      (c.id? s).isSome = ((SymbolTable.forConfig config).wanted m.lookup s).isSome :=
    (hindexes.ids s).isSome_eq
  refine ⟨?receiver, ?accessor, ?onException, ?currentMethod, ?helpers⟩
  case receiver =>
    intro s hook hs
    exact (hresolved.calls s hook hs).accessor
  case accessor =>
    intro h
    obtain ⟨s, hs, member, hwanted, hthis⟩ :=
      SymbolTable.exists_hook_of_accessor ((hsome .accessor).symm.trans h)
    have hhook : (c.hook? s).isSome = true := by
      rw [c.isSome_hook? hs, hsome, hwanted]
      rfl
    obtain ⟨hook, hhook⟩ := Option.isSome_iff_exists.1 hhook
    obtain ⟨member', hwanted', hsame⟩ := hindexes.calls s hook hhook
    obtain rfl := Option.some.inj (hwanted.symm.trans hwanted')
    exact ⟨s, hook, hhook, hsame.trans hthis⟩
  case onException =>
    intro h
    have hwanted := hsome .onException
    rw [← c.isSome_hook? (by decide), hook?, h] at hwanted
    obtain ⟨member, hmember⟩ := Option.isSome_iff_exists.1 hwanted.symm
    exact SymbolTable.isUsed_of_named (SymbolTable.named_of_wanted hmember)
  case currentMethod =>
    intro h
    have hwanted := (hsome .currentMethod).symm.trans h
    have hinit : ((SymbolTable.forConfig config).wanted m.lookup .init).isSome = true := by
      simp only [SymbolTable.wanted] at hwanted ⊢
      split at hwanted
      · assumption
      · cases hwanted
    rw [← hsome, ← c.isSome_hook? (by decide)] at hinit
    exact hinit
  case helpers =>
    intro s hs h
    obtain ⟨htrace, hall⟩ := SymbolTable.helpers_of_wanted hs ((hsome s).symm.trans h)
    have hjoin := (hsome .join).trans (hall .join (by decide))
    have hformat := (hsome .format).trans (hall .format (by decide))
    have hwriteLine := (hsome .writeLine).trans (hall .writeLine (by decide))
    simp only [id?] at hjoin hformat hwriteLine
    simp only [traces, canTrace, htrace, hjoin, hformat, hwriteLine, Bool.and_self]

end HookContext

/-! ## Members that are called -/

/-- A hook that is called is called with its arguments, on the accessor if it has a receiver. -/
theorem HookContext.invokes_emitHook {c : HookContext} {hook : HookCall}
    (hreceiver : hook.hasThis = true → c.accessor?.isSome = true) (args : List Instruction) :
    ∃ code, c.emitHook (some hook) args = some code ∧ args ⊆ code ∧
      Invokes code hook.member ∧
      (hook.hasThis = true → ∀ get, c.accessor? = some get → Invokes code get) := by
  cases hthis : hook.hasThis with
  | false =>
    refine ⟨args ++ [.call hook.member], by simp [emitHook, hthis], List.subset_append_left ..,
      .inl (by simp), fun h => ?_⟩
    cases h
  | true =>
    obtain ⟨get, hget⟩ := Option.isSome_iff_exists.1 (hreceiver hthis)
    refine ⟨.call get :: args ++ [.callvirt hook.member], by simp [emitHook, hthis, hget], ?_,
      .inr (by simp), fun _ get' hget' => .inl ?_⟩
    · intro i hi
      simp [hi]
    · obtain rfl := Option.some.inj (hget.symm.trans hget')
      simp

namespace WovenBody

variable {c : HookContext} {config : WeaveConfig} {capture : Capture} {name : String}
  {returnType : Ty} {hooks : WovenHooks} {L : Layout} {array exception : SlotId}
  (h : WovenBody c config capture name returnType hooks L array exception)

include h

theorem announceCode_subset : c.announceCode config capture name array ⊆ L.added := by
  rw [← h.prologue]
  exact List.subset_append_left ..

theorem onException_subset : c.exceptionCode config exception ++ c.exitCode ⊆ L.added := by
  rw [← h.onException]
  intro i hi
  simp [Layout.added, Layout.epilogue, Guard.epilogue, hi]

theorem initCode_subset (hinit : c.init?.isSome = true) :
    (c.initCode? array).getD [] ⊆ L.added := by
  refine fun i hi => h.announceCode_subset ?_
  have hcaptures : c.captures config = true := by simp [HookContext.captures, hinit]
  simp [HookContext.announceCode, hcaptures, hi]

theorem traceCode_subset (htraces : c.traces config = true) :
    (c.traceCode? name array).getD [] ⊆ L.added := by
  refine fun i hi => h.announceCode_subset ?_
  have hcaptures : c.captures config = true := by simp [HookContext.captures, htraces]
  simp [HookContext.announceCode, hcaptures, htraces, hi]

theorem entryCode_subset : (c.emitHook c.onEntry? []).getD [] ⊆ L.added :=
  fun _ hi => h.announceCode_subset (List.mem_append_right _ hi)

theorem exitCode_subset : c.exitCode ⊆ L.added :=
  fun _ hi => h.onException_subset (List.mem_append_right _ hi)

theorem exceptionCode_subset : c.exceptionCode config exception ⊆ L.added :=
  fun _ hi => h.onException_subset (List.mem_append_left _ hi)

/-- Every hook of the context is called. -/
theorem emitHook_subset (ht : c.Thrifty config) {s : HookSymbol} {hook : HookCall}
    (hs : c.hook? s = some hook) :
    ∃ args, (c.emitHook (some hook) args).getD [] ⊆ L.added := by
  cases s with
  | init =>
    have hcode := h.initCode_subset (by rw [show c.init? = some hook from hs]; rfl)
    exact ⟨_, by rwa [HookContext.initCode?, show c.init? = some hook from hs] at hcode⟩
  | onEntry =>
    have hcode := h.entryCode_subset
    exact ⟨[], by rwa [show c.onEntry? = some hook from hs] at hcode⟩
  | onExit =>
    have hcode := h.exitCode_subset
    exact ⟨[], by rwa [HookContext.exitCode, show c.onExit? = some hook from hs] at hcode⟩
  | onException =>
    have hcode := h.exceptionCode_subset
    have hsome : c.onException? = some hook := hs
    have hnotify := ht.onException (by rw [hsome]; rfl)
    rw [HookContext.exceptionCode, hsome, hnotify] at hcode
    exact ⟨_, hcode⟩
  | _ => cases hs

theorem invokes_helper (ht : c.Thrifty config) {s : HookSymbol} {id : MemberId}
    (hs : s ∈ HookSymbol.helpers) (hid : c.id? s = some id) :
    Invokes L.added id := by
  have htraces := ht.helpers s hs (by rw [hid]; rfl)
  have hcode := h.traceCode_subset htraces
  simp only [HookContext.traces, HookContext.canTrace, Bool.and_eq_true] at htraces
  obtain ⟨-, ⟨hjoin, hformat⟩, hwriteLine⟩ := htraces
  obtain ⟨join, hjoin⟩ := Option.isSome_iff_exists.1 hjoin
  obtain ⟨format, hformat⟩ := Option.isSome_iff_exists.1 hformat
  obtain ⟨writeLine, hwriteLine⟩ := Option.isSome_iff_exists.1 hwriteLine
  have htrace : c.traceCode? name array = some [.ldstr ("DEBUG: " ++ name ++ "(\x7b0\x7d)"),
      .ldstr ",", .ldloc array, .call join, .call format, .call writeLine] := by
    rw [HookContext.traceCode?, hjoin, hformat, hwriteLine]
    rfl
  rw [htrace, Option.getD_some] at hcode
  simp only [HookSymbol.helpers, List.mem_cons, List.not_mem_nil, or_false] at hs
  rcases hs with rfl | rfl | rfl
  · obtain rfl := Option.some.inj (hjoin.symm.trans hid)
    exact .inl (hcode (by simp))
  · obtain rfl := Option.some.inj (hformat.symm.trans hid)
    exact .inl (hcode (by simp))
  · obtain rfl := Option.some.inj (hwriteLine.symm.trans hid)
    exact .inl (hcode (by simp))

/-- Every member of the context is called. -/
theorem invokes_of_id (ht : c.Thrifty config) {s : HookSymbol} {id : MemberId}
    (hid : c.id? s = some id) : Invokes L.added id := by
  have hcalled (s : HookSymbol) (hook : HookCall) (hs : c.hook? s = some hook) :
      Invokes L.added hook.member ∧
        (hook.hasThis = true → ∀ get, c.accessor? = some get → Invokes L.added get) := by
    obtain ⟨args, hcode⟩ := h.emitHook_subset ht hs
    obtain ⟨code, hemit, -, hmember, hget⟩ :=
      HookContext.invokes_emitHook (ht.receiver s hook hs) args
    rw [hemit] at hcode
    exact ⟨hmember.mono hcode, fun hthis get hsome => (hget hthis get hsome).mono hcode⟩
  have hhook (hs : s ∈ HookSymbol.hooks) : Invokes L.added id := by
    have hsome := c.isSome_hook? hs
    rw [hid] at hsome
    obtain ⟨call, hcall⟩ := Option.isSome_iff_exists.1 hsome
    obtain rfl := Option.some.inj ((HookContext.id?_of_hook? hcall).symm.trans hid)
    exact (hcalled s call hcall).1
  cases s with
  | init | onEntry | onExit | onException => exact hhook (by decide)
  | accessor =>
    obtain ⟨s, call, hcall, hthis⟩ := ht.accessor (by rw [show c.accessor? = some id from hid]; rfl)
    exact (hcalled s call hcall).2 hthis id hid
  | currentMethod =>
    have hget : c.currentMethod? = some id := hid
    have hinit := ht.currentMethod (by rw [hget]; rfl)
    obtain ⟨call, hcall⟩ := Option.isSome_iff_exists.1 hinit
    have hcode := h.initCode_subset hinit
    obtain ⟨code, hemit, hargs, -⟩ := HookContext.invokes_emitHook (ht.receiver .init call hcall)
      [.plain .ldnull, .call id, .ldloc array]
    rw [HookContext.initCode?, hget, hcall, hemit] at hcode
    exact .inl (hcode (hargs (by simp)))
  | join | format | writeLine => exact h.invokes_helper ht (by decide) hid

end WovenBody

/-! ## What a pass imports -/

namespace ImportTable

variable {t t' : ImportTable} {added : List MemberRef} {id : MemberId} {member : MemberRef}

theorem added_of_get? (hentries : t'.entries = t.entries ++ added) (hid : t.size ≤ id)
    (hget : t'.get? id = some member) : added[id - t.size]? = some member := by
  rw [get?, hentries, List.getElem?_append_right hid] at hget
  exact hget

/-- An entry that was appended is found where it is. -/
theorem find?_of_new (hentries : t'.entries = t.entries ++ added) (hnodup : added.Nodup)
    (hnew : ∀ x ∈ added, x ∉ t.entries) (hid : t.size ≤ id) (hget : t'.get? id = some member) :
    t'.find? member = some id := by
  have hadded := added_of_get? hentries hid hget
  obtain ⟨id', hfind⟩ := exists_find?_of_mem (List.mem_of_getElem? hget)
  have hget' := get?_of_find? hfind
  have hid' : t.size ≤ id' := by
    by_contra hlt
    rw [get?, hentries, List.getElem?_append_left (Nat.not_le.1 hlt)] at hget'
    exact hnew member (List.mem_of_getElem? hadded) (List.mem_of_getElem? hget')
  have hadded' := added_of_get? hentries hid' hget'
  have hlt := (List.getElem?_eq_some_iff.1 hadded').1
  have hsame := (List.getElem?_inj hlt hnodup).1 (hadded'.trans hadded.symm)
  rw [hfind, ← Nat.sub_add_cancel hid', hsame, Nat.sub_add_cancel hid]

end ImportTable

section

variable {m : Module} {config : WeaveConfig}

/-- Every import that a pass appended is the member of a symbol. -/
theorem id?_of_new {id : MemberId} (hold : m.imports.size ≤ id)
    (hnew : id < (m.pass config).imports.size) : ∃ s, (m.pass config).context.id? s = some id := by
  obtain ⟨added, hentries, hnodup, hadded⟩ := m.imports.entries_addAll
    (HookSymbol.inOrder.filterMap ((SymbolTable.forConfig config).wanted m.lookup))
  rw [← imports_pass] at hentries
  obtain ⟨member, hget⟩ : ∃ member, (m.pass config).imports.get? id = some member :=
    ⟨_, List.getElem?_eq_getElem hnew⟩
  have hmem := List.mem_of_getElem? (ImportTable.added_of_get? hentries hold hget)
  have hfind := ImportTable.find?_of_new hentries hnodup (fun x hx => (hadded x hx).2) hold hget
  obtain ⟨s, -, hs⟩ := List.mem_filterMap.1 (hadded member hmem).1
  have hfinds := (indexes_pass m config).ids s
  rw [hs] at hfinds
  exact ⟨s, hfinds.unique (.some hfind)⟩

/-- The members of the context are imported. -/
theorem lt_size_of_id? {s : HookSymbol} {id : MemberId}
    (h : (m.pass config).context.id? s = some id) : id < (m.pass config).imports.size := by
  have hfinds := (indexes_pass m config).ids s
  rw [h] at hfinds
  rcases rel_cases hfinds with ⟨-, hnone⟩ | ⟨member, id', -, hid, hfind⟩
  · cases hnone
  · cases hid
    exact ImportTable.lt_size_of_get? (ImportTable.get?_of_find? hfind)

/-- What a pass appended is new, and each entry is appended once. -/
theorem exists_added (m : Module) (config : WeaveConfig) :
    ∃ added, (m.woven config).imports.entries = m.imports.entries ++ added ∧ added.Nodup ∧
      ∀ member ∈ added, member ∉ m.imports.entries := by
  rw [Module.woven]
  dsimp only
  split
  · exact ⟨[], (List.append_nil _).symm, .nil, fun _ hm => absurd hm List.not_mem_nil⟩
  · obtain ⟨added, hentries, hnodup, hadded⟩ := m.imports.entries_addAll
      (HookSymbol.inOrder.filterMap ((SymbolTable.forConfig config).wanted m.lookup))
    rw [imports_pass]
    exact ⟨added, hentries, hnodup, fun member hm => (hadded member hm).2⟩

/-- The code that a pass puts into a method calls what the pass imported, and names nothing but
members of the context. -/
theorem emitted_of_visit {typeName : String} {d d' : Method} {hooks : WovenHooks}
    (h : (m.pass config).visit typeName d = (.ok hooks, d')) : ∃ b woven,
      d.body? = some b ∧ d'.body? = some woven ∧
      (∀ id, m.imports.size ≤ id → id < (m.pass config).imports.size →
        Emitted b woven (.call id) ∨ Emitted b woven (.callvirt id)) ∧
      ∀ i, Emitted b woven i → ∀ id, i.member? = some id →
        ∃ s, (m.pass config).context.id? s = some id := by
  obtain ⟨L, array, exception, woven, maxStack, hw⟩ :=
    WeavePass.wovenMethod_of_instrument (WeavePass.visit_eq_ok h).2
  have hdescribes := hw.describes.withMaxStack maxStack
  refine ⟨L.body, _, hw.body, by rw [hw.method], fun id hold hnew => ?_, fun i hi id hid => ?_⟩
  · obtain ⟨s, hs⟩ := id?_of_new hold hnew
    exact (hw.parts.invokes_of_id (HookContext.thrifty_pass m config) hs).imp
      hdescribes.emitted hdescribes.emitted
  · have hutters := hw.parts.utters_of_emitted hdescribes hi
    rw [Instruction.operand_of_member? hid] at hutters
    exact hutters.resolve_left nofun

end

/-- What a pass imports is new, and is called by what the pass puts into every method it weaves.
Nothing else is named there. -/
theorem weaveInPlace_imports (config : WeaveConfig) (stopped : Bool) (m : Module) :
    match (Module.weaveInPlace config stopped).run m with
    | (.error _, m') => m'.imports = m.imports
    | (.ok report, m') => ∃ added visits,
        m'.imports.entries = m.imports.entries ++ added ∧ added.Nodup ∧
        (∀ member ∈ added, member ∉ m.imports.entries) ∧
        Ledger stopped m report m' visits ∧
        ∀ v ∈ visits, ∀ hooks, v.verdict = .ok hooks → ∃ b woven,
          v.before.body? = some b ∧ v.after.body? = some woven ∧
          (∀ id, m.imports.size ≤ id → id < m'.imports.size →
            Emitted b woven (.call id) ∨ Emitted b woven (.callvirt id)) ∧
          ∀ i, Emitted b woven i → ∀ id, i.member? = some id → id < m'.imports.size := by
  rw [run_weaveInPlace_eq]
  by_cases hmeta : m.metadataOnly = true
  · rw [if_pos hmeta]
  · rw [if_neg hmeta]
    cases stopped with
    | true =>
      exact ⟨[], [], (List.append_nil _).symm, .nil, fun _ hm => absurd hm List.not_mem_nil,
        ledger_of_stopped m, fun _ hv => absurd hv List.not_mem_nil⟩
    | false =>
      obtain ⟨added, hentries, hnodup, hnew⟩ := exists_added m config
      refine ⟨added, m.visits config, hentries, hnodup, hnew, ledger_of_pass m config, ?_⟩
      intro v hv hooks hok
      have himports := imports_woven hv hok
      obtain ⟨b, woven, hb, hwoven, hcalled, hnamed⟩ := emitted_of_visit (visit_of_ok hv hok)
      rw [himports]
      refine ⟨b, woven, hb, hwoven, hcalled, fun i hi id hid => ?_⟩
      obtain ⟨s, hs⟩ := hnamed i hi id hid
      exact lt_size_of_id? hs

end Interpose
