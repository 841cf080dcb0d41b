import Interpose.Proofs.Document.Decoded
import Interpose.Proofs.Weave.Called
/-!
# Woven modules are saved

What a pass puts into a module can be written and read like what was there: it leaves for ids of the
body it is in, boxes values of types that the method names, declares slots of such types, and
imports members as the module and its libraries declare them. So a module that was read is still in
good order after a pass.

Results:
* `WovenMethod.references`, `WovenMethod.storable`: a woven method is in good order.
* `Storable.weaveInPlace`: so is what a pass leaves of a module.
* `saved_of_weaveInPlace`: a module that was read and woven is written, and reads back.
-/
namespace Interpose

/-! ## Bodies -/

theorem mem_code_or_emitted (b : Body) {woven : Body} {i : Instruction} (hi : i ∈ woven.code) :
    i ∈ b.code ∨ Emitted b woven i := by
  obtain ⟨⟨id, i⟩, hmem, rfl⟩ := List.mem_map.1 hi
  by_cases hold : (id, i) ∈ b.stream
  · exact .inl (List.mem_map_of_mem hold)
  · exact .inr ⟨id, hmem, hold⟩

theorem Handler.mem_anchors_close {x : Handler} {stop id : InstructionId}
    (h : id ∈ (x.close stop).anchors) : id ∈ x.anchors ∨ id = stop := by
  simp only [anchors, close, Option.toList_some, List.mem_cons, List.mem_append,
    Option.mem_toList, List.not_mem_nil, or_false] at h ⊢
  have hend {stop? : Option InstructionId} (he : id = stop?.getD stop) :
      stop? = some id ∨ id = stop := by
    cases stop? with
    | none => exact .inr he
    | some e => exact .inl (congrArg some he.symm)
  rcases h with rfl | he | rfl | he
  · exact .inl (.inl rfl)
  · exact (hend he).imp_left fun he => .inr (.inl he)
  · exact .inl (.inr (.inr (.inl rfl)))
  · exact (hend he).imp_left fun he => .inr (.inr (.inr he))

namespace Layout.Describes

variable {L : Layout} {woven : Body} (h : L.Describes woven)

include h

theorem mem_ids_of_body {id : InstructionId} (hid : id ∈ L.body.ids) : id ∈ woven.ids := by
  obtain ⟨pos, hpos⟩ := Body.anchor_isOk.2 hid
  exact Body.anchor_isOk.1 ⟨_, h.anchor_shift hpos⟩

theorem mem_ids_anchor : L.body.size ∈ woven.ids :=
  Body.anchor_isOk.1 ⟨_, Body.anchor_eq_ok.2 h.anchor.1⟩

theorem mem_ids_epilogue {k : Nat} (hk : k ≤ 4 + L.guard.onException.length) :
    L.fallthrough + k ∈ woven.ids :=
  Body.anchor_isOk.1 ⟨_, h.anchor_fallthrough hk⟩

theorem mem_ids_exit : L.exit ∈ woven.ids :=
  Body.anchor_isOk.1 ⟨_, Body.anchor_eq_ok.2 h.position?_exit⟩

/-- The guard names ids of the woven body, and so do the handlers that were there. -/
theorem mem_ids_of_handler (hb : ∀ id ∈ L.body.references, id ∈ L.body.ids) {x : Handler}
    (hx : x ∈ woven.handlers) {id : InstructionId} (hid : id ∈ x.anchors) : id ∈ woven.ids := by
  rw [h.handlers, Layout.handlers, List.mem_append, List.mem_map, List.mem_singleton] at hx
  rcases hx with ⟨y, hy, rfl⟩ | rfl
  · rcases Handler.mem_anchors_close hid with hid | rfl
    · exact h.mem_ids_of_body (hb id (mem_references.2 (.inr ⟨y, hy, hid⟩)))
    · exact h.mem_ids_epilogue (Nat.zero_le _)
  · simp only [Layout.handler, Handler.anchors, Option.toList_some, List.mem_cons,
      List.mem_append, List.not_mem_nil, or_false] at hid
    rcases hid with rfl | rfl | rfl | rfl
    · exact h.mem_ids_anchor
    · exact h.mem_ids_epilogue (by omega)
    · exact h.mem_ids_epilogue (by omega)
    · exact h.mem_ids_exit

end Layout.Describes

/-- The types of the captured arguments are those of parameters. -/
theorem exists_param_of_boxed {d : Method} {a : CapturedArgument}
    (ha : a ∈ (Capture.ofMethod d).arguments) {t : Ty} (ht : a.boxed? = some t) :
    ∃ p ∈ d.params, p.ty = t := by
  obtain ⟨i, p, hp, rfl⟩ := Capture.exists_param_of_mem ha
  dsimp only at ht
  split at ht
  · exact ⟨p, List.mem_of_getElem? hp, Option.some.inj ht⟩
  · cases ht

namespace HookContext

variable {c : HookContext} {capture : Capture}

theorem Utters.storable {o : Operand} (h : c.Utters capture o)
    (hboxed : ∀ a ∈ capture.arguments, ∀ t, a.boxed? = some t → t.WellNamed) : o.Storable := by
  cases o with
  | float64 x => exact h.elim
  | ty t =>
    rcases h with rfl | ⟨a, ha, ht⟩
    · trivial
    · exact hboxed a ha t ht
  | _ => trivial

/-- The types of the declared slots have names that mean them. -/
theorem wellNamed_slots (c : HookContext) (config : WeaveConfig) {returnType : Ty}
    (h : returnType.WellNamed) : ∀ s ∈ c.slots config returnType, s.ty.WellNamed := by
  have hone {wanted : Bool} {slot s : Slot} (ht : slot.ty.WellNamed)
      (hs : s ∈ if wanted then [slot] else []) : s.ty.WellNamed := by
    split at hs
    · exact List.mem_singleton.1 hs ▸ ht
    · cases hs
  intro s hs
  rw [slots, List.mem_append, List.mem_append] at hs
  rcases hs with (hs | hs) | hs
  · have hobjects : Ty.objectArray.WellNamed := trivial
    exact hone hobjects hs
  · have hexception : (Ty.named exceptionType).WellNamed := by decide
    exact hone hexception hs
  · split at hs
    · cases hs
    · exact List.mem_singleton.1 hs ▸ h

end HookContext

namespace WovenMethod

variable {p : WeavePass} {d d' : Method} {hooks : WovenHooks} {L : Layout}
  {array exception : SlotId} {woven : Body} {maxStack : UInt16}

/-- A woven body names ids in it only. -/
theorem references (hw : WovenMethod p d hooks d' L array exception woven maxStack)
    (hb : ∀ id ∈ L.body.references, id ∈ L.body.ids) : ∀ id ∈ woven.references, id ∈ woven.ids := by
  intro id hid
  rcases mem_references.1 hid with ⟨i, hi, ht⟩ | ⟨x, hx, ha⟩
  · rcases mem_code_or_emitted L.body hi with hold | hemitted
    · exact hw.describes.mem_ids_of_body (hb id (mem_references.2 (.inl ⟨i, hold, ht⟩)))
    · have hutters := hw.parts.utters_of_emitted hw.describes hemitted
      rw [Instruction.operand_of_target? ht] at hutters
      cases hutters.resolve_right fun hutters => hutters
      exact hw.describes.mem_ids_exit
  · exact hw.describes.mem_ids_of_handler hb hx ha

/-- A woven method is in good order. -/
theorem storable (hw : WovenMethod p d hooks d' L array exception woven maxStack)
    (hd : d.Storable) : d'.Storable := by
  have hb := hd.body L.body hw.body
  rw [hw.method]
  refine ⟨hd.params, hd.returnType, fun b hb' => ?_⟩
  cases hb'
  refine ⟨fun s hs => ?_, hw.references hb.references, fun i hi => ?_⟩
  · have hs : s ∈ woven.locals.toList := hs
    rw [hw.describes.locals, hw.parts.slots, List.mem_append] at hs
    exact hs.elim (hb.slots s) (HookContext.wellNamed_slots _ _ hd.returnType s)
  · rcases mem_code_or_emitted L.body hi with hold | hemitted
    · exact hb.operands i hold
    · rcases hw.parts.utters_of_emitted hw.describes hemitted with htarget | hutters
      · rw [htarget]
        trivial
      · refine hutters.storable fun a ha t ht => ?_
        obtain ⟨q, hq, rfl⟩ := exists_param_of_boxed ha ht
        exact hd.params q hq

end WovenMethod

/-! ## Modules -/

namespace Module

variable {m : Module} {descriptor : Descriptor} {r : MemberRef}

/-- A member that is found has the types it was declared with. -/
theorem Storable.lookup (h : m.Storable) (hr : m.lookup descriptor = some r) : r.Storable := by
  rcases Option.or_eq_some_iff.1 hr with hown | ⟨-, hr⟩
  · obtain ⟨t, ht, hfind⟩ := List.exists_of_findSome?_eq_some hown
    obtain ⟨d, hd, rfl⟩ := Option.map_eq_some_iff.1 hfind
    have hmethod := h.methods t ht d (List.mem_of_find?_eq_some hd)
    refine ⟨fun ty hty => ?_, hmethod.returnType⟩
    obtain ⟨q, hq, rfl⟩ := List.mem_map.1 hty
    exact hmethod.params q hq
  · obtain ⟨l, hl, hr⟩ := List.exists_of_findSome?_eq_some hr
    obtain ⟨t, ht, hfind⟩ := List.exists_of_findSome?_eq_some hr
    obtain ⟨s, hs, rfl⟩ := Option.map_eq_some_iff.1 hfind
    have hsignature := h.references l hl t ht s (List.mem_of_find?_eq_some hs)
    exact ⟨hsignature.params, hsignature.returnType⟩

/-- What a pass imports was looked up. -/
theorem mem_imports_woven {config : WeaveConfig} (hr : r ∈ (m.woven config).imports.entries) :
    r ∈ m.imports.entries ∨ ∃ descriptor, m.lookup descriptor = some r := by
  rw [woven] at hr
  dsimp only at hr
  split at hr
  · exact .inl hr
  · rw [imports_pass] at hr
    obtain ⟨added, hentries, -, hadded⟩ := m.imports.entries_addAll
      (HookSymbol.inOrder.filterMap ((SymbolTable.forConfig config).wanted m.lookup))
    rw [hentries, List.mem_append] at hr
    refine hr.imp_right fun hr => ?_
    obtain ⟨s, -, hs⟩ := List.mem_filterMap.1 (hadded r hr).1
    obtain ⟨descriptor, -, hlookup⟩ := Option.bind_eq_some_iff.1 (SymbolTable.named_of_wanted hs)
    exact ⟨descriptor, hlookup⟩

/-- A module is in good order, whatever was woven in it. -/
theorem Storable.woven (h : m.Storable) (config : WeaveConfig) : (m.woven config).Storable := by
  refine ⟨fun t' ht' d' hd' => ?_, fun r hr => ?_, h.references⟩
  · obtain ⟨t, ht, rfl⟩ := List.mem_map.1 ht'
    obtain ⟨d, hd, rfl⟩ := List.mem_map.1 hd'
    have hmethod := h.methods t ht d hd
    rcases (m.pass config).visit_cases t.name d with ⟨reason, hv⟩ |
      ⟨hooks, d', hv, L, array, exception, woven, maxStack, hw⟩
    · simpa only [WeavePass.visitOf, hv] using hmethod
    · simpa only [WeavePass.visitOf, hv] using hw.storable hmethod
  · rcases mem_imports_woven hr with hold | ⟨descriptor, hlookup⟩
    · exact h.imports r hold
    · exact h.lookup hlookup

/-- A pass leaves a module in good order. -/
theorem Storable.weaveInPlace (h : m.Storable) (config : WeaveConfig) (stopped : Bool) :
    ((weaveInPlace config stopped).run m).2.Storable := by
  rw [run_weaveInPlace_eq]
  split
  · exact h
  · split
    · exact h
    · exact h.woven config

end Module

namespace Document

/-- A module that was read and woven, whatever came of that, is written without an error. What is
written reads back as that module with positions for the ids of instructions, and that module is
written the same. Ids have 32 bits in documents: a module reads back if they are enough for it, as
they are for one that was read. Its constants that are NaN are the one NaN, since they were read. -/
theorem saved_of_weaveInPlace {j : Json} {m : Module} (h : decodeModule j = .ok m)
    (config : WeaveConfig) (stopped : Bool) :
    let m' := ((Module.weaveInPlace config stopped).run m).2
    m.Addressable ∧ ∃ j', encodeModule m' = .ok j' ∧ encodeModule m'.renumbered = .ok j' ∧
      (decodeModule j' = .ok m'.renumbered ↔ m'.Addressable) := by
  obtain ⟨hstorable, haddressable⟩ := storable_of_decodeModule h
  have hwoven := hstorable.weaveInPlace config stopped
  exact ⟨haddressable, _, encodeModule_eq hwoven, encodeModule_renumbered hwoven,
    decodeModule_moduleDocument_iff hwoven⟩

/-- The document of a module with one hook, and one method, which gives back a NaN. -/
def till : Json :=
  .obj [("name", .str "Shop"),
    ("references", .arr [.obj [("name", .str defaultHookLibrary), ("types", .arr [.obj
      [("name", .str defaultDispatcherType), ("methods", .arr [.obj
        [("name", .str "OnEntry"), ("is_static", .bool true)]])]])]]),
    ("types", .arr [.obj [("name", .str "Till"), ("methods", .arr [.obj
      [("name", .str "Total"), ("flags", .str "STATIC | 0x8000"), ("return_type", .str "float64"),
        ("body", .obj [("code", .arr [
          .obj [("label", .int 7), ("op", .str "ldc_r8"), ("operand", .obj [("f64", .str "nan")])],
          .obj [("label", .int 3), ("op", .str "ret")]])])]])]])]

/-- The method is woven, and the module reads back. -/
theorem till_saved : ∃ m m' report j', decodeModule till = .ok m ∧
    (Module.weaveInPlace {} false).run m = (.ok report, m') ∧
    report.instrumented.map (·.1) = ["Till::Total"] ∧ m'.imports.size = 1 ∧
    encodeModule m' = .ok j' ∧ decodeModule j' = .ok m'.renumbered ∧
    encodeModule m'.renumbered = .ok j' := by
  have h : ((decodeModule till).toOption.any fun m =>
      let r := (Module.weaveInPlace {} false).run m
      r.1.toOption.any (fun report => report.instrumented.map (·.1) == ["Till::Total"]) &&
        decide (r.2.imports.size = 1) && decide r.2.Addressable) = true := by decide +kernel
  obtain ⟨m, hm, h⟩ := (Option.any_eq_true _ _).1 h
  simp only [Bool.and_eq_true, decide_eq_true_eq] at h
  obtain ⟨⟨hreport, himports⟩, haddressable⟩ := h
  obtain ⟨report, hok, hreport⟩ := (Option.any_eq_true _ _).1 hreport
  have hm := toOption_eq_some.1 hm
  obtain ⟨-, j', hwritten, hagain, hread⟩ := saved_of_weaveInPlace hm {} false
  exact ⟨m, _, report, j', hm, Prod.ext (toOption_eq_some.1 hok) rfl, eq_of_beq hreport, himports,
    hwritten, hread.2 haddressable, hagain⟩

end Document

end Interpose
