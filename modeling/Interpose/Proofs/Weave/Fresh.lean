import Interpose.Proofs.Document.Decoded
import Interpose.Proofs.Verify.Balance
import Interpose.Proofs.Weave.Moved
import Interpose.Proofs.Weave.Pass
import Interpose.Proofs.Weave.Success
/-!
# Names that weaving adds

What reading a module checks of the names in its code, and what weaving then makes of those
it does not check. Targets are checked, so no original instruction leads to an added one.
Slots and imports are not, and weaving adds the next ones: a name that is missing by no more
than that is there afterwards, and the verifier, which looks at the woven body alone, lets it
pass. A name that is missing by more keeps its method from being woven.

Results:
* `not_stale_of_verify`: reachable code of a body that verifies names what is there.
* `WovenMethod.not_stale`: in a method that was woven it names nothing beyond what is there
  afterwards.
* `fresh_names`: what becomes of methods with names that are not there.
* `stale_slot_bound`: a method that reads a slot it never declared is woven.
-/
namespace Interpose

/-- Reachable code, returns apart, names a slot or an import beyond so many. -/
def VerifyContext.Stale (c : VerifyContext) (slots members : Nat) : Prop :=
  ∃ pos i, c.Reaches pos ∧ c.code[pos]? = some i ∧ i.opcode ≠ .ret ∧
    ((∃ slot, i.operand = .slot slot ∧ slots ≤ slot.toNat) ∨
      ∃ id, i.operand = .member id ∧ members ≤ id)

/-- Where a walk ends, reachable code names nothing that is not there. -/
theorem Walk.not_stale {c : VerifyContext} {w : Walk} (hs : Sound c w) (hn : w.work = []) :
    ¬ c.Stale c.body.locals.size c.imports.size := by
  rintro ⟨pos, i, hp, hi, -, hstale⟩
  obtain ⟨e, he⟩ := hs.exists_depth hn hp
  obtain ⟨j, p, q, l, hsettled⟩ := hs.settled pos e he (by rw [hn]; exact List.not_mem_nil)
  obtain rfl := Option.some.inj (hi.symm.trans hsettled.code)
  obtain ⟨-, -, hslot, hmember⟩ := checkOperand_eq_ok_iff.1 hsettled.operand
  rcases hstale with ⟨slot, ho, hle⟩ | ⟨id, ho, hle⟩
  · exact Nat.not_le.2 (hslot slot ho) hle
  · exact Nat.not_le.2 (hmember id ho) hle

/-- Reachable code of a body that verifies names nothing that is not there. -/
theorem not_stale_of_verify {d : Method} {b : Body} {imports : ImportTable} {k : UInt16}
    {rs : List Region} (hv : verifyBody d b imports = .ok k) (hrs : b.regions = .ok rs) :
    ¬ (VerifyContext.of d b imports rs).Stale b.locals.size imports.size := by
  obtain ⟨w, hw, -⟩ := verifyBody_eq_ok_iff.1 hv
  obtain ⟨rs', hformed, hs, hn⟩ := sound_of_verifyWalk hw
  obtain rfl : rs' = rs := Except.ok.inj (hformed.regions.symm.trans hrs)
  exact Walk.not_stale hs hn

/-- What was out of reach of the names stays so in the woven body. -/
theorem Layout.Moves.stale_shift {L : Layout} {c c' : VerifyContext} (h : L.Moves c c')
    {slots members : Nat} (hstale : c.Stale slots members) : c'.Stale slots members := by
  obtain ⟨pos, i, hp, hi, hr, hnames⟩ := hstale
  exact ⟨L.shift pos, i, h.reaches_shift hp, h.code_shift hi hr, hr, hnames⟩

namespace WovenMethod

variable {p : WeavePass} {d d' : Method} {hooks : WovenHooks} {L : Layout}
  {array exception : SlotId} {woven : Body} {maxStack : UInt16}

theorem size_locals (h : WovenMethod p d hooks d' L array exception woven maxStack) :
    woven.locals.size = L.body.locals.size + p.context.slotCount p.config d.returnType := by
  rw [h.describes.size_locals, h.parts.slots, HookContext.length_slots]

/-- Reachable code of a method that was woven names nothing beyond what is there afterwards. -/
theorem not_stale (h : WovenMethod p d hooks d' L array exception woven maxStack)
    {imports : ImportTable} (he : p.imports.Extends imports) {rs : List Region}
    (hrs : L.body.regions = .ok rs) :
    ¬ (VerifyContext.of d L.body imports rs).Stale woven.locals.size p.imports.size := by
  intro hstale
  have hstraight : Straight L.prologue := by
    rw [h.parts.prologue]
    exact p.context.straight_announceCode _ _ _ _
  have hmoves := L.moves_of_describes (m := d) ⟨h.parts.nonempty, rfl, hrs⟩ h.describes he hstraight
  exact not_stale_of_verify h.verified hmoves.woven.regions (hmoves.stale_shift hstale)

end WovenMethod

/-- A method that nothing else speaks against is left alone for what the verifier finds. -/
theorem WeavePass.visit_eq_verification {p : WeavePass} {typeName : String} {d : Method} {b : Body}
    (hselects : p.config.selects typeName d.name = true)
    (howner : typeName ≠ p.config.dispatcherType) (htarget : (typeName, d.name) ∉ p.hookTargets)
    (hcheck : checkBody d = .ok b) (hattribute : d.hasAttribute instrumentedAttribute = false)
    (hlocals : b.locals.size ≤ 65533)
    (hnot : ∀ hooks d', p.visit typeName d ≠ (.ok hooks, d')) :
    ∃ cause, p.visit typeName d = (.error (.verification cause), d) := by
  obtain ⟨hooks, woven, hweave⟩ := weave_isOk (checkBody_eq_ok hcheck).2 hlocals p.context p.config
    (.ofMethod d) d.name d.returnType
  have hinstrument : p.context.instrument p.config p.imports d =
      (verifyBody d woven p.imports).mapError .verification >>= fun maxStack =>
        .ok (hooks, { d with
          attributes := d.attributes ++ [instrumentedAttribute]
          body? := some { woven with maxStack := maxStack } }) := by
    unfold HookContext.instrument
    rw [hcheck, hattribute]
    show ((p.context.weave p.config (.ofMethod d) d.name d.returnType b).mapError
      SkipReason.edit >>= _) = _
    rw [hweave]
    rfl
  have hothers : ¬ (typeName == p.config.dispatcherType ||
      p.hookTargets.contains (typeName, d.name)) = true := by
    simp [howner, htarget]
  cases hv : verifyBody d woven p.imports with
  | error cause =>
    rw [hv] at hinstrument
    refine ⟨cause, ?_⟩
    unfold visit
    rw [hselects, if_neg (by decide), if_neg hothers, hinstrument]
    rfl
  | ok k =>
    rw [hv] at hinstrument
    refine absurd ?_ (hnot hooks { d with
      attributes := d.attributes ++ [instrumentedAttribute]
      body? := some { woven with maxStack := k } })
    unfold visit
    rw [hselects, if_neg (by decide), if_neg hothers, hinstrument]
    rfl

/-- What control reaches does not depend on the imports. -/
theorem VerifyContext.Stale.imports {d : Method} {b : Body} {imports imports' : ImportTable}
    {rs : List Region} {slots members : Nat}
    (h : (VerifyContext.of d b imports rs).Stale slots members) :
    (VerifyContext.of d b imports' rs).Stale slots members := by
  obtain ⟨pos, i, hp, hi, hr, hnames⟩ := h
  refine ⟨pos, i, ?_, hi, hr, hnames⟩
  clear hi hr hnames
  induction hp with
  | entry ht => exact .entry ht
  | edge _ hi he ih =>
    refine .edge ih hi ?_
    cases he with
    | next hf => exact .next hf
    | target hf ht => exact .target hf ht

theorem VerifyContext.Stale.mono {c : VerifyContext} {slots slots' members members' : Nat}
    (h : c.Stale slots members) (hs : slots' ≤ slots) (hm : members' ≤ members) :
    c.Stale slots' members' := by
  obtain ⟨pos, i, hp, hi, hr, hnames⟩ := h
  refine ⟨pos, i, hp, hi, hr, ?_⟩
  rcases hnames with ⟨slot, ho, hle⟩ | ⟨id, ho, hle⟩
  · exact .inl ⟨slot, ho, Nat.le_trans hs hle⟩
  · exact .inr ⟨id, ho, Nat.le_trans hm hle⟩

/-- The document of a module whose one method gives back the slot with this number, and
declares none. -/
def lender (slot : Int) : Json :=
  .obj [("name", .str "App"), ("types", .arr [.obj [("name", .str "A"), ("methods", .arr [.obj
    [("name", .str "Get"), ("flags", .str "STATIC"), ("return_type", .str "int32"),
      ("body", .obj [("code", .arr [
        .obj [("label", .int 0), ("op", .str "ldloc"), ("operand", .obj [("local", .int slot)])],
        .obj [("label", .int 1), ("op", .str "ret")]])])]])]])]

/-- The method of a module that is read, where checking each of its methods finds one. -/
theorem exists_of_read {j : Json} {f : Module → TypeDef → Method → Body → Bool}
    (h : ((Document.decodeModule j).toOption.any fun m => m.types.any fun t =>
      t.methods.any fun d => d.body?.any fun b => f m t d b) = true) :
    ∃ m t d b, Document.decodeModule j = .ok m ∧ t ∈ m.types ∧ d ∈ t.methods ∧
      d.body? = some b ∧ f m t d b = true := by
  obtain ⟨m, hm, h⟩ := (Option.any_eq_true _ _).1 h
  obtain ⟨t, ht, h⟩ := List.any_eq_true.1 h
  obtain ⟨d, hd, h⟩ := List.any_eq_true.1 h
  obtain ⟨b, hb, h⟩ := (Option.any_eq_true _ _).1 h
  exact ⟨m, t, d, b, toOption_eq_some.1 hm, ht, hd, hb, h⟩

/-- Code that starts with reading a slot reaches it. -/
theorem stale_of_ldloc {d : Method} {b : Body} {imports : ImportTable} {slot : SlotId}
    {rest : List (InstructionId × Instruction)} (hs : b.stream = (0, .ldloc slot) :: rest)
    {slots members : Nat} (hle : slots ≤ slot.toNat) :
    (VerifyContext.of d b imports []).Stale slots members := by
  refine ⟨0, .ldloc slot, .entry (t := (0, 0)) List.mem_cons_self, ?_, Opcode.noConfusion,
    .inl ⟨slot, rfl, hle⟩⟩
  show b.code.toArray[0]? = _
  rw [List.getElem?_toArray, Body.code, hs]
  rfl

/-- A body with no handlers has no regions. -/
theorem Body.regions_of_handlers {b : Body} (h : b.handlers = []) : b.regions = .ok [] := by
  rw [Body.regions, h]
  rfl

/-- What weaving makes of the names in a module that was read. In a method that was woven,
no original instruction leads to an added one, the slots are the declared ones and those that
weaving needs, and reachable original code names none that is not there now, nor an import.
A method whose reachable code does name one is left as it was and stays invalid; where
nothing else speaks against it, the verifier's finding is the reason. -/
theorem fresh_names {j : Json} {m m' : Module} {config : WeaveConfig} {stopped : Bool}
    {report : WeaveReport} (hj : Document.decodeModule j = .ok m)
    (hw : m.weave config stopped = .ok (report, m')) (hc : report.cancelled = false)
    {t : TypeDef} (ht : t ∈ m.types) {d : Method} (hd : d ∈ t.methods) {b : Body}
    (hb : d.body? = some b) {rs : List Region} (hrs : b.regions = .ok rs) :
    (∀ hooks d', (m.pass config).visit t.name d = (.ok hooks, d') →
      ∃ woven, d'.body? = some woven ∧ m'.imports = (m.pass config).imports ∧
        woven.locals.size =
          b.locals.size + (m.pass config).context.slotCount config d.returnType ∧
        (∀ e ∈ woven.stream, e ∈ b.stream → ∀ id, e.2.target? = some id → id ∈ b.ids) ∧
        ¬ (VerifyContext.of d b m.imports rs).Stale woven.locals.size m'.imports.size) ∧
    ((VerifyContext.of d b m.imports rs).Stale
        (b.locals.size + (m.pass config).context.slotCount config d.returnType)
        (m.pass config).imports.size →
      (∃ reason, (m.pass config).visit t.name d = (.error reason, d)) ∧
      (∀ k, verifyBody d b m'.imports ≠ .ok k) ∧
      (config.selects t.name d.name = true → t.name ≠ config.dispatcherType →
        (t.name, d.name) ∉ (m.pass config).hookTargets → checkBody d = .ok b →
        d.hasAttribute instrumentedAttribute = false → b.locals.size ≤ 65533 →
        ∃ cause, (m.pass config).visit t.name d = (.error (.verification cause), d))) := by
  obtain ⟨hweaves, -⟩ := weaves_of_weave hw hc
  have hclosed := Document.closed_of_decodeModule hj ht hd hb
  have hextends := (m.resolved_pass config).2
  have hwoven (hooks : WovenHooks) (d' : Method)
      (hv : (m.pass config).visit t.name d = (.ok hooks, d')) :
      ∃ L array exception woven maxStack, L.body = b ∧
        WovenMethod (m.pass config) d hooks d' L array exception woven maxStack := by
    rcases (m.pass config).visit_cases t.name d with ⟨reason, hv'⟩ | ⟨hooks', d'', hv', hex⟩
    · rw [hv'] at hv
      cases hv
    · rw [hv'] at hv
      cases hv
      obtain ⟨L, array, exception, woven, maxStack, hm⟩ := hex
      exact ⟨L, array, exception, woven, maxStack, Option.some.inj (hm.body.symm.trans hb), hm⟩
  constructor
  · intro hooks d' hv
    obtain ⟨L, array, exception, woven, maxStack, rfl, hm⟩ := hwoven hooks d' hv
    have himports := hweaves.instrumented t ht d hd hooks d' hv
    refine ⟨{ woven with maxStack := maxStack }, by rw [hm.method], himports, hm.size_locals,
      ?_, ?_⟩
    · intro e _ he id hid
      rw [Body.mem_ids]
      exact hclosed.targets e.2 (List.mem_map_of_mem he) id hid
    · rw [himports]
      exact hm.not_stale hextends hrs
  · intro hstale
    have hnot (hooks : WovenHooks) (d' : Method) :
        (m.pass config).visit t.name d ≠ (.ok hooks, d') := by
      intro hv
      obtain ⟨L, array, exception, woven, maxStack, rfl, hm⟩ := hwoven hooks d' hv
      exact hm.not_stale hextends hrs (hstale.mono (Nat.le_of_eq hm.size_locals) (Nat.le_refl _))
    refine ⟨?_, fun k hk => ?_, fun hselects howner htarget hcheck hattribute hlocals =>
      WeavePass.visit_eq_verification hselects howner htarget hcheck hattribute hlocals hnot⟩
    · rcases (m.pass config).visit_cases t.name d with hv | ⟨hooks, d', hv, -⟩
      · exact hv
      · exact absurd hv (hnot hooks d')
    · exact not_stale_of_verify hk hrs
        (hstale.imports.mono (Nat.le_add_right _ _) hweaves.within.size_le)

/-- A slot that stands beyond what weaving adds keeps a method from being woven, and one that
weaving declares is there afterwards. -/
theorem lender_fresh_names :
    (∃ (m m' : Module) (report : WeaveReport) (t : TypeDef) (d : Method) (b : Body)
        (cause : CodeError),
      Document.decodeModule (lender 5) = .ok m ∧ m.weave {} false = .ok (report, m') ∧
      t ∈ m.types ∧ d ∈ t.methods ∧ d.body? = some b ∧ (0, .ldloc 5) ∈ b.stream ∧
      b.locals.size + (m.pass {}).context.slotCount {} d.returnType = 1 ∧
      (m.pass {}).visit t.name d = (.error (.verification cause), d) ∧
      ∀ k, verifyBody d b m'.imports ≠ .ok k) ∧
    ∃ (m m' : Module) (report : WeaveReport) (t : TypeDef) (d d' : Method) (b woven : Body)
        (hooks : WovenHooks),
      Document.decodeModule (lender 0) = .ok m ∧ m.weave {} false = .ok (report, m') ∧
      t ∈ m.types ∧ d ∈ t.methods ∧ d.body? = some b ∧
      (m.pass {}).visit t.name d = (.ok hooks, d') ∧ d'.body? = some woven ∧
      woven.locals.size = b.locals.size + 1 ∧
      ¬ (VerifyContext.of d b m.imports []).Stale woven.locals.size m'.imports.size := by
  constructor
  · have h : ((Document.decodeModule (lender 5)).toOption.any fun m => m.types.any fun t =>
        t.methods.any fun d => d.body?.any fun b =>
          (m.weave {} false).toOption.any (fun (r : WeaveReport × Module) => !r.1.cancelled) &&
          decide (b.stream = [(0, .ldloc 5), (1, .plain .ret)]) && decide (b.handlers = []) &&
          decide (b.locals.size = 0) &&
          decide ((m.pass {}).context.slotCount {} d.returnType = 1) &&
          WeaveConfig.selects {} t.name d.name &&
          decide (t.name ≠ WeaveConfig.dispatcherType {}) &&
          decide ((t.name, d.name) ∉ (m.pass {}).hookTargets) &&
          (checkBody d).toOption.isSome && !d.hasAttribute instrumentedAttribute) = true := by
      decide +kernel
    obtain ⟨m, t, d, b, hj, ht, hd, hb, h⟩ := exists_of_read h
    simp only [Bool.and_eq_true, decide_eq_true_eq, Bool.not_eq_true'] at h
    obtain ⟨⟨⟨⟨⟨⟨⟨⟨⟨hweave, hstream⟩, hhandlers⟩, hlocals⟩, hslots⟩, hselects⟩, howner⟩,
      htarget⟩, hcheck⟩, hattribute⟩ := h
    obtain ⟨⟨report, m'⟩, hw, hc⟩ := (Option.any_eq_true _ _).1 hweave
    have hw := toOption_eq_some.1 hw
    have hregions := Body.regions_of_handlers hhandlers
    have hstale : (VerifyContext.of d b m.imports []).Stale
        (b.locals.size + (m.pass {}).context.slotCount {} d.returnType)
        (m.pass {}).imports.size := by
      refine stale_of_ldloc hstream ?_
      rw [hlocals, hslots]
      decide
    obtain ⟨-, hinvalid, hfound⟩ :=
      (fresh_names hj hw (by simpa using hc) ht hd hb hregions).2 hstale
    obtain ⟨b', hchecked⟩ := Option.isSome_iff_exists.1 hcheck
    have hchecked := toOption_eq_some.1 hchecked
    obtain rfl : b = b' := Option.some.inj (hb.symm.trans (checkBody_eq_ok hchecked).1)
    obtain ⟨cause, hv⟩ :=
      hfound hselects howner htarget hchecked hattribute (by rw [hlocals]; decide)
    exact ⟨m, m', report, t, d, b, cause, hj, hw, ht, hd, hb, by rw [hstream]; decide,
      by rw [hlocals, hslots], hv, hinvalid⟩
  · have h : ((Document.decodeModule (lender 0)).toOption.any fun m => m.types.any fun t =>
        t.methods.any fun d => d.body?.any fun b =>
          (m.weave {} false).toOption.any (fun (r : WeaveReport × Module) => !r.1.cancelled) &&
          decide (b.handlers = []) && ((m.pass {}).visit t.name d).1.toOption.isSome &&
          decide ((m.pass {}).context.slotCount {} d.returnType = 1)) = true := by
      decide +kernel
    obtain ⟨m, t, d, b, hj, ht, hd, hb, h⟩ := exists_of_read h
    simp only [Bool.and_eq_true, decide_eq_true_eq] at h
    obtain ⟨⟨⟨hweave, hhandlers⟩, hvisit⟩, hslots⟩ := h
    obtain ⟨⟨report, m'⟩, hw, hc⟩ := (Option.any_eq_true _ _).1 hweave
    obtain ⟨hooks, hhooks⟩ := Option.isSome_iff_exists.1 hvisit
    have hw := toOption_eq_some.1 hw
    have hv : (m.pass {}).visit t.name d = (.ok hooks, ((m.pass {}).visit t.name d).2) :=
      Prod.ext (toOption_eq_some.1 hhooks) rfl
    obtain ⟨woven, hbody, -, hsize, -, hfresh⟩ :=
      (fresh_names hj hw (by simpa using hc) ht hd hb
        (Body.regions_of_handlers hhandlers)).1 hooks _ hv
    exact ⟨m, m', report, t, d, _, b, woven, hooks, hj, hw, ht, hd, hb, hv, hbody,
      by rw [hsize, hslots], hfresh⟩

/-- A method that gives back its first slot and declares none does not verify. It is woven
nevertheless: the slot for its result is the first one. -/
theorem stale_slot_bound :
    ∃ (m m' : Module) (report : WeaveReport) (t : TypeDef) (d d' : Method) (b woven : Body)
      (hooks : WovenHooks),
      Document.decodeModule (lender 0) = .ok m ∧ m.weave {} false = .ok (report, m') ∧
      report.cancelled = false ∧ t ∈ m.types ∧ d ∈ t.methods ∧ d.body? = some b ∧
      b.regions = .ok [] ∧
      (VerifyContext.of d b m.imports []).Stale b.locals.size m.imports.size ∧
      verifyBody d b m.imports = .error (.unknownSlot 0) ∧
      (m.pass {}).visit t.name d = (.ok hooks, d') ∧ d'.body? = some woven ∧
      (0, .ldloc 0) ∈ b.stream ∧ (0, .ldloc 0) ∈ woven.stream ∧
      b.locals.size = 0 ∧ woven.locals.size = 1 := by
  have h : ((Document.decodeModule (lender 0)).toOption.any fun m => m.types.any fun t =>
      t.methods.any fun d => d.body?.any fun b =>
        (m.weave {} false).toOption.any (fun (r : WeaveReport × Module) => !r.1.cancelled) &&
        decide (b.stream = [(0, .ldloc 0), (1, .plain .ret)]) && decide (b.handlers = []) &&
        decide (verifyBody d b m.imports = .error (.unknownSlot 0)) &&
        ((m.pass {}).visit t.name d).1.toOption.isSome &&
        decide (b.locals.size = 0) &&
        ((m.pass {}).visit t.name d).2.body?.any (fun (woven : Body) =>
          decide (((0, .ldloc 0) : InstructionId × Instruction) ∈ woven.stream) &&
          decide (woven.locals.size = 1))) = true := by decide +kernel
  obtain ⟨m, t, d, b, hj, ht, hd, hb, h⟩ := exists_of_read h
  simp only [Bool.and_eq_true, decide_eq_true_eq] at h
  obtain ⟨⟨⟨⟨⟨⟨hweave, hstream⟩, hhandlers⟩, hverify⟩, hvisit⟩, hlocals⟩, hwoven⟩ := h
  obtain ⟨⟨report, m'⟩, hw, hc⟩ := (Option.any_eq_true _ _).1 hweave
  obtain ⟨hooks, hhooks⟩ := Option.isSome_iff_exists.1 hvisit
  obtain ⟨woven, hbody, hadded⟩ := (Option.any_eq_true _ _).1 hwoven
  simp only [Bool.and_eq_true, decide_eq_true_eq] at hadded
  refine ⟨m, m', report, t, d, ((m.pass {}).visit t.name d).2, b, woven, hooks, hj,
    toOption_eq_some.1 hw, by simpa using hc, ht, hd, hb, Body.regions_of_handlers hhandlers, ?_,
    hverify, ?_, hbody, ?_, hadded.1, hlocals, hadded.2⟩
  · refine stale_of_ldloc hstream ?_
    rw [hlocals]
    exact Nat.zero_le _
  · exact Prod.ext (toOption_eq_some.1 hhooks) rfl
  · rw [hstream]
    exact List.mem_cons_self

end Interpose
