import Interpose.Machine.Run
import Interpose.Proofs.Verify.Invariant
import Interpose.Proofs.Weave.InPlace
import Interpose.Proofs.Weave.Layout
/-!
# Woven modules

What a pass makes of a module. Types and methods stay where they are and keep their
names and signatures; a method either stays as it was or gets a woven body, and then the
module has the imports of the pass.

Results:
* `weaves_of_weave`: a module that was woven, method by method.
* `visit_cases`: what becomes of one method.
* `mem_instrumented_iff`: the report names the methods that were woven.
-/
namespace Interpose

theorem Module.resolved_pass (m : Module) (config : WeaveConfig) :
    HookContext.Resolved m (.forConfig config) (m.pass config).imports (m.pass config).context ∧
      (m.pass config).imports.Extends m.imports :=
  HookContext.means_of_resolve rfl

theorem imports_pass (m : Module) (config : WeaveConfig) : (m.pass config).imports =
    m.imports.addAll (HookSymbol.inOrder.filterMap
      ((SymbolTable.forConfig config).wanted m.lookup)) :=
  congrArg Module.imports (HookContext.indexes_of_resolve (m := m) (t := .forConfig config) rfl).1

theorem indexes_pass (m : Module) (config : WeaveConfig) :
    (m.pass config).context.Indexes (m.pass config).imports
      ((SymbolTable.forConfig config).wanted m.lookup) :=
  (HookContext.indexes_of_resolve (m := m) rfl).2

/-- How a method was woven. -/
structure WovenMethod (p : WeavePass) (d : Method) (hooks : WovenHooks) (d' : Method) (L : Layout)
    (array exception : SlotId) (woven : Body) (maxStack : UInt16) : Prop where
  body : d.body? = some L.body
  describes : L.Describes woven
  parts : WovenBody p.context p.config (.ofMethod d) d.name d.returnType hooks L array exception
  verified : verifyBody d woven p.imports = .ok maxStack
  method : d' = { d with
    attributes := d.attributes ++ [instrumentedAttribute]
    body? := some { woven with maxStack := maxStack } }

theorem Layout.Describes.withMaxStack {L : Layout} {woven : Body} (h : L.Describes woven)
    (maxStack : UInt16) : L.Describes { woven with maxStack := maxStack } :=
  ⟨h.stream, h.handlers, h.locals⟩

namespace WeavePass

variable {p : WeavePass} {typeName : String} {d d' : Method} {hooks : WovenHooks}

theorem wovenMethod_of_instrument
    (h : p.context.instrument p.config p.imports d = .ok (hooks, d')) :
    ∃ L array exception woven maxStack,
      WovenMethod p d hooks d' L array exception woven maxStack := by
  unfold HookContext.instrument at h
  obtain ⟨b, hb, h⟩ := bind_eq_ok.1 h
  obtain ⟨hbody, -⟩ := checkBody_eq_ok hb
  split at h
  · cases h
  · obtain ⟨⟨hooks', woven⟩, hw, h⟩ := bind_eq_ok.1 h
    obtain ⟨maxStack, hk, h⟩ := bind_eq_ok.1 h
    cases h
    obtain ⟨L, array, exception, rfl, hdesc, hparts⟩ := layout_of_weave (mapError_eq_ok.1 hw)
    exact ⟨L, array, exception, woven, maxStack, hbody, hdesc, hparts, mapError_eq_ok.1 hk, rfl⟩

/-- A method is left as it was, or it gets a woven body. -/
theorem visit_cases (p : WeavePass) (typeName : String) (d : Method) :
    (∃ reason, p.visit typeName d = (.error reason, d)) ∨
      ∃ hooks d', p.visit typeName d = (.ok hooks, d') ∧
        ∃ L array exception woven maxStack,
          WovenMethod p d hooks d' L array exception woven maxStack := by
  unfold visit
  by_cases hselects : (!p.config.selects typeName d.name) = true
  · rw [if_pos hselects]
    exact .inl ⟨_, rfl⟩
  · rw [if_neg hselects]
    split
    · exact .inl ⟨_, rfl⟩
    · cases hi : p.context.instrument p.config p.imports d with
      | error reason => exact .inl ⟨reason, rfl⟩
      | ok r =>
        obtain ⟨hooks, d'⟩ := r
        exact .inr ⟨hooks, d', rfl, wovenMethod_of_instrument hi⟩

/-- What a method becomes. -/
def visited (p : WeavePass) (typeName : String) (d : Method) : Method := (p.visit typeName d).2

/-- The signature of a method stays as it was. -/
theorem visited_signature (p : WeavePass) (typeName : String) (d : Method) :
    (p.visited typeName d).name = d.name ∧ (p.visited typeName d).params = d.params ∧
      (p.visited typeName d).flags = d.flags ∧
      (p.visited typeName d).returnType = d.returnType := by
  unfold visited
  rcases p.visit_cases typeName d with ⟨reason, hv⟩ | ⟨hooks, d', hv, _, _, _, _, _, hm⟩
  · rw [hv]
    exact ⟨rfl, rfl, rfl, rfl⟩
  · rw [hv, hm.method]
    exact ⟨rfl, rfl, rfl, rfl⟩

theorem visitType_methods (p : WeavePass) (t : TypeDef) :
    (p.visitType t).2.methods = t.methods.map (p.visited t.name) := by
  simp only [visitType, List.map_map]
  rfl

/-! ## Reports -/

theorem mem_report {path : String} {l : List (String × Verdict)} :
    (path, hooks) ∈ (report l).instrumented ↔ (path, .ok hooks) ∈ l := by
  induction l with
  | nil => simp [report]
  | cons x rest ih =>
    obtain ⟨path', verdict⟩ := x
    cases verdict with
    | ok hooks' => simp [report, ih]
    | error reason => simp [report, ih]

theorem mem_visitType {path : String} {verdict : Verdict} {t : TypeDef} :
    (path, verdict) ∈ (p.visitType t).1 ↔
      ∃ d ∈ t.methods, path = t.name ++ "::" ++ d.name ∧ verdict = (p.visit t.name d).1 := by
  simp only [visitType_verdicts, List.mem_map, Prod.mk.injEq]
  refine ⟨fun ⟨d, hd, hp, hv⟩ => ⟨d, hd, hp.symm, hv.symm⟩, fun ⟨d, hd, hp, hv⟩ => ?_⟩
  exact ⟨d, hd, hp.symm, hv.symm⟩

end WeavePass

/-! ## Modules -/

/-- What a pass makes of a module. -/
structure WeavePass.Weaves (p : WeavePass) (m m' : Module) : Prop where
  types : m'.types = m.types.map fun t => (p.visitType t).2
  imports : m'.imports.Extends m.imports
  within : p.imports.Extends m'.imports
  instrumented : ∀ t ∈ m.types, ∀ d ∈ t.methods, ∀ hooks d',
    p.visit t.name d = (.ok hooks, d') → m'.imports = p.imports

variable {m m' : Module} {config : WeaveConfig} {stopped : Bool} {report : WeaveReport}

/-- A module that was woven is what the pass leaves. -/
theorem weave_eq_ok_iff : m.weave config stopped = .ok (report, m') ↔
    (Module.weaveInPlace config stopped).run m = (.ok report, m') := by
  rw [Module.weave]
  split
  · next r left hrun =>
    rw [hrun]
    constructor
    · intro h
      cases h
      rfl
    · intro h
      cases h
      rfl
  · next e left hrun =>
    rw [hrun]
    constructor
    · intro h
      cases h
    · intro h
      cases h

/-- A pass that is stopped in a module without methods has nothing left to visit. -/
theorem weaves_self (p : WeavePass) (himports : p.imports.Extends m.imports)
    (h : m.methods = []) :
    p.Weaves m m ∧ WeavePass.report (m.types.flatMap fun t => (p.visitType t).1) = {} := by
  have hempty : ∀ t ∈ m.types, t.methods = [] := by
    intro t ht
    simpa using List.flatMap_eq_nil_iff.1 h t ht
  have hsame : ∀ t ∈ m.types, p.visitType t = ([], t) := fun t ht =>
    WeavePass.visitType_of_empty (hempty t ht)
  refine ⟨⟨?_, .refl _, himports, fun t ht d hd => ?_⟩, ?_⟩
  · rw [List.map_congr_left fun t ht => congrArg Prod.snd (hsame t ht), List.map_id']
  · rw [hempty t ht] at hd
    cases hd
  · rw [List.flatMap_congr fun t ht => congrArg Prod.fst (hsame t ht)]
    have hnone (ts : List TypeDef) :
        ts.flatMap (fun _ => ([] : List (String × Verdict))) = [] := by simp
    rw [hnone]
    rfl

theorem weaves_of_weave (h : m.weave config stopped = .ok (report, m'))
    (hc : report.cancelled = false) :
    (m.pass config).Weaves m m' ∧ report =
      WeavePass.report (m.types.flatMap fun t => ((m.pass config).visitType t).1) := by
  rw [weave_eq_ok_iff, run_weaveInPlace] at h
  have hextends := (m.resolved_pass config).2
  split at h
  · cases h
  · split at h
    · cases h
      obtain ⟨hweaves, hreport⟩ := weaves_self (m.pass config) hextends (by simpa using hc)
      exact ⟨hweaves, by rw [hreport]; exact congrArg (WeaveReport.mk [] []) hc⟩
    · cases h
      refine ⟨⟨rfl, ?_, ?_, fun t ht d hd hooks d' hv => ?_⟩, rfl⟩
      · show ImportTable.Extends (if _ then _ else (m.pass config).imports) m.imports
        split
        · exact .refl _
        · exact hextends
      · show (m.pass config).imports.Extends (if _ then _ else (m.pass config).imports)
        split
        · exact hextends
        · exact .refl _
      · have hmem : (t.name ++ "::" ++ d.name, hooks) ∈ (WeavePass.report
            (m.types.flatMap fun t => ((m.pass config).visitType t).1)).instrumented := by
          rw [WeavePass.mem_report, List.mem_flatMap]
          exact ⟨t, ht, WeavePass.mem_visitType.2 ⟨d, hd, rfl, by rw [hv]⟩⟩
        show (if _ then _ else (m.pass config).imports) = _
        rw [if_neg]
        intro hempty
        exact absurd (List.isEmpty_iff.1 hempty ▸ hmem) List.not_mem_nil

/-- The report names the methods that were woven. -/
theorem mem_instrumented_iff (h : m.weave config stopped = .ok (report, m'))
    (hc : report.cancelled = false) {path : String} {hooks : WovenHooks} :
    (path, hooks) ∈ report.instrumented ↔
      ∃ t ∈ m.types, ∃ d ∈ t.methods, path = t.name ++ "::" ++ d.name ∧
        ∃ d', (m.pass config).visit t.name d = (.ok hooks, d') := by
  rw [(weaves_of_weave h hc).2, WeavePass.mem_report, List.mem_flatMap]
  refine ⟨fun ⟨t, ht, hp⟩ => ?_, fun ⟨t, ht, d, hd, hp, d', hv⟩ => ?_⟩
  · obtain ⟨d, hd, hp, hv⟩ := WeavePass.mem_visitType.1 hp
    exact ⟨t, ht, d, hd, hp, _, Prod.ext hv.symm rfl⟩
  · exact ⟨t, ht, WeavePass.mem_visitType.2 ⟨d, hd, hp, by rw [hv]⟩⟩

namespace WeavePass.Weaves

variable {p : WeavePass}

theorem type? (h : p.Weaves m m') (name : String) :
    m'.type? name = (m.type? name).map fun t => (p.visitType t).2 := by
  unfold Module.type?
  rw [h.types, List.find?_map]
  rfl

theorem method? (p : WeavePass) (t : TypeDef) (name : String) :
    (p.visitType t).2.method? name = (t.method? name).map (p.visited t.name) := by
  unfold TypeDef.method?
  rw [visitType_methods, List.find?_map]
  congr 2
  funext d
  exact congrArg (· == name) (p.visited_signature t.name d).1

/-- The same reference means the woven form of the same method. -/
theorem dispatch? (h : p.Weaves m m') (member : MemberRef) :
    m'.dispatch? member = (m.dispatch? member).map (p.visited member.owner) := by
  unfold Module.dispatch?
  rw [h.type? member.owner]
  cases ht : m.type? member.owner with
  | none => rfl
  | some t =>
    have hname : t.name = member.owner := eq_of_beq (List.find?_some (p := fun t : TypeDef =>
      t.name == member.owner) ht)
    rw [Option.map_some, Option.bind_some, Option.bind_some, visitType_methods, hname,
      List.find?_map]
    congr 2
    funext d
    obtain ⟨hn, hp, -⟩ := p.visited_signature member.owner d
    simp only [Function.comp_apply, Method.paramTypes, hn, hp]

end WeavePass.Weaves

end Interpose
