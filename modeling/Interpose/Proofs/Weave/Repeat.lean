import Interpose.Proofs.Weave.Account
/-!
# Passes after passes

Weaving changes no name and no signature, so the symbols of a woven module stand for the same
members, and what a second pass imports is there already or is imported as it would have been
in the module as it was. So both passes have the same context and the same imports, and each
method is judged as if the other pass had not been, unless the other pass wove it.

Results:
* `lookup_woven`: a descriptor names the same member in a woven module.
* `pass_woven`: a pass over a woven module is the pass over the module as it was.
* `visit_woven`: a woven method is not woven again.
* `weave_again`: a second pass leaves the module as it is.
* `selections_commute`: passes that select different methods can be run in either order.
-/
namespace Interpose

/-! ## Symbols -/

variable {m : Module} {a b : WeaveConfig}

/-- A descriptor names the same member in a woven module. -/
theorem lookup_woven (m : Module) (a : WeaveConfig) : (m.woven a).lookup = m.lookup := by
  have hrefTo (typeName : String) (d : Method) :
      Module.refTo typeName ((m.pass a).visitOf (typeName, d)).after =
        Module.refTo typeName d := by
    obtain ⟨hn, hp, hf, hr⟩ := (m.pass a).after_signature (typeName, d)
    simp only [Module.refTo, Method.paramTypes, Method.isStatic, hn, hp, hf, hr]
  have haccepts (x : Descriptor) (typeName : String) (d : Method) :
      (x.accepts typeName ((m.pass a).visitOf (typeName, d)).after.name
        ((m.pass a).visitOf (typeName, d)).after.paramTypes) =
        x.accepts typeName d.name d.paramTypes := by
    obtain ⟨hn, hp, -⟩ := (m.pass a).after_signature (typeName, d)
    simp only [Method.paramTypes, hn, hp]
  funext x
  have hown : (m.woven a).lookupOwn x = m.lookupOwn x := by
    simp only [Module.lookupOwn, Module.woven, List.findSome?_map]
    congr 1
    funext t
    simp only [Function.comp_apply, List.find?_map, Option.map_map, Function.comp_def, haccepts,
      hrefTo]
  rw [Module.lookup, hown]
  rfl

/-! ## Second visits -/

theorem checkBody_of_flags {d d' : Method} {b b' : Body} (h : checkBody d = .ok b)
    (hflags : d'.flags = d.flags) (hbody : d'.body? = some b') (hne : b'.stream ≠ []) :
    checkBody d' = .ok b' := by
  by_cases habstract : d.flags.contains .abstract = true
  · rw [checkBody, if_pos habstract] at h
    cases h
  · by_cases hexternal : d.flags.contains .external = true
    · rw [checkBody, if_neg habstract, if_pos hexternal] at h
      cases h
    · rw [checkBody, hflags, if_neg habstract, if_neg hexternal, hbody]
      exact if_neg (by simpa using hne)

namespace WeavePass

variable {p q : WeavePass} {typeName : String} {d d' : Method} {hooks : WovenHooks}

/-- A woven method is not woven again. -/
theorem instrument_woven (h : p.context.instrument p.config p.imports d = .ok (hooks, d'))
    (c : HookContext) (config : WeaveConfig) (imports : ImportTable) :
    c.instrument config imports d' = .error .alreadyInstrumented := by
  obtain ⟨b, hb, -⟩ := bind_eq_ok.1 (show (checkBody d >>= _) = _ from h)
  obtain ⟨L, array, exception, woven, maxStack, hw⟩ := wovenMethod_of_instrument h
  have hflags : d'.flags = d.flags := by rw [hw.method]
  have hbody : d'.body? = some { woven with maxStack := maxStack } := by rw [hw.method]
  have hmark : d'.hasAttribute instrumentedAttribute = true := by
    simp [hw.method, Method.hasAttribute]
  have hne : woven.stream ≠ [] := by
    rw [hw.describes.stream]
    exact List.cons_ne_nil _ _
  exact HookContext.instrument_of_attribute (checkBody_of_flags hb hflags hbody hne) hmark

/-- A pass skips what it wove before for that very reason. -/
theorem visit_again (h : p.visit typeName d = (.ok hooks, d')) :
    p.visit typeName d' = (.error .alreadyInstrumented, d') := by
  obtain ⟨hrefusal, hinstrument⟩ := visit_eq_ok h
  rw [visit_eq, (wovenInto_of_visit h).name, hrefusal, instrument_woven hinstrument]

/-- Any other pass skips it too. -/
theorem visit_woven (h : p.visit typeName d = (.ok hooks, d')) (q : WeavePass) :
    ∃ reason, q.visit typeName d' = (.error reason, d') := by
  rw [visit_eq, instrument_woven (visit_eq_ok h).2]
  cases q.refusal? typeName d'.name with
  | none => exact ⟨.alreadyInstrumented, rfl⟩
  | some reason => exact ⟨reason, rfl⟩

theorem hasAttribute_of_visit (h : p.visit typeName d = (.ok hooks, d')) :
    d'.hasAttribute instrumentedAttribute = true := by
  rw [Method.hasAttribute, (wovenInto_of_visit h).attributes]
  simp

/-- A method is marked in the end if one of the passes marks it. -/
theorem hasAttribute_visit_visit (p q : WeavePass) (typeName : String) (d : Method) :
    (q.visit typeName (p.visit typeName d).2).2.hasAttribute instrumentedAttribute =
      ((p.visit typeName d).2.hasAttribute instrumentedAttribute ||
        (q.visit typeName d).2.hasAttribute instrumentedAttribute) := by
  rcases p.visit_cases typeName d with ⟨r, hp⟩ | ⟨hooks, d', hp, -⟩
  · rcases q.visit_cases typeName d with ⟨r', hq⟩ | ⟨hooks', d', hq, -⟩
    · simp only [hp, hq, Bool.or_self]
    · simp only [hp, hq, hasAttribute_of_visit hq, Bool.or_true]
  · obtain ⟨r, hagain⟩ := visit_woven hp q
    simp only [hp, hagain, hasAttribute_of_visit hp, Bool.true_or]

/-- Two passes that weave alike can visit a method in either order. -/
theorem visit_comm (halike : ∀ d, q.context.instrument q.config q.imports d =
      p.context.instrument p.config p.imports d) (typeName : String) (d : Method) :
    (q.visit typeName (p.visit typeName d).2).2 = (p.visit typeName (q.visit typeName d).2).2 := by
  -- whichever pass weaves the method first, the other one finds it marked
  rcases p.visit_cases typeName d with ⟨r, hp⟩ | ⟨hooks, d₁, hp, -⟩
  · rcases q.visit_cases typeName d with ⟨r', hq⟩ | ⟨hooks', d₂, hq, -⟩
    · rw [hp, hq, hp]
    · obtain ⟨r', hagain⟩ := visit_woven hq p
      rw [hp, hq, hagain]
  · obtain ⟨r, hagain⟩ := visit_woven hp q
    rcases q.visit_cases typeName d with ⟨r', hq⟩ | ⟨hooks', d₂, hq, -⟩
    · rw [hp, hq, hagain, hp]
    · have hsame : d₁ = d₂ := by
        have h₁ := (visit_eq_ok hp).2
        have h₂ := (visit_eq_ok hq).2
        rw [halike, h₁] at h₂
        cases h₂
        rfl
      obtain ⟨r', hagain'⟩ := visit_woven hq p
      rw [hp, hq, hagain, hagain', hsame]

end WeavePass

/-! ## Passes over woven modules -/

/-- What a pass has fixed depends on the members that its symbols stand for. It makes no
difference whether they are imported already. -/
theorem pass_eq {m' : Module} (hsymbols : SymbolTable.forConfig b = SymbolTable.forConfig a)
    (hlookup : m'.lookup = m.lookup)
    (himports : m'.imports = m.imports ∨ m'.imports = (m.pass a).imports) :
    m'.pass b = { m.pass a with config := b } := by
  have himports' : (m'.pass b).imports = (m.pass a).imports := by
    rw [imports_pass, hsymbols, hlookup]
    rcases himports with hold | hnew
    · rw [hold, ← imports_pass]
    · rw [hnew]
      refine ImportTable.addAll_eq_self fun x hx => ?_
      rw [imports_pass]
      exact ImportTable.mem_addAll hx m.imports
  -- the ids of the wanted members are all there is to a context
  have hcontext : (m'.pass b).context = (m.pass a).context := by
    have hindexes := indexes_pass m' b
    rw [himports', hsymbols, hlookup] at hindexes
    exact hindexes.unique (indexes_pass m a)
  calc m'.pass b
      = ⟨b, (m'.pass b).context, (m'.pass b).imports,
          hookTargets (m'.pass b).imports (m'.pass b).context.members⟩ := rfl
    _ = { m.pass a with config := b } := by
        rw [himports', hcontext]
        rfl

theorem pass_select (hsymbols : SymbolTable.forConfig b = SymbolTable.forConfig a) (m : Module) :
    m.pass b = { m.pass a with config := b } :=
  pass_eq hsymbols rfl (.inl rfl)

/-- A pass over a woven module is the pass over the module as it was. -/
theorem pass_woven (hsymbols : SymbolTable.forConfig b = SymbolTable.forConfig a) (m : Module) :
    (m.woven a).pass b = m.pass b := by
  rw [pass_select hsymbols m]
  refine pass_eq hsymbols (lookup_woven m a) ?_
  rw [Module.woven]
  dsimp only
  split
  · exact .inl rfl
  · exact .inr rfl

theorem visits_woven (hsymbols : SymbolTable.forConfig b = SymbolTable.forConfig a) (m : Module) :
    (m.woven a).visits b =
      (m.visits a).map fun v => (m.pass b).visitOf (v.typeName, v.after) := by
  rw [Module.visits, pass_woven hsymbols, Module.methods_woven, List.map_map]
  rfl

theorem instrumented_eq_nil_iff : (m.reportOf a).instrumented = [] ↔
    ∀ v ∈ m.visits a, ∃ reason, v.verdict = .error reason := by
  rw [(ledger_of_pass m a).instrumented, List.filterMap_eq_nil_iff]
  refine forall₂_congr fun v hv => ?_
  rw [Visit.instrumented?]
  cases v.verdict with
  | ok hooks => simp
  | error reason => simp

/-- A pass that weaves nothing changes nothing. -/
theorem woven_eq_self (h : (m.reportOf a).instrumented = []) : m.woven a = m := by
  have hafter (t : TypeDef) (ht : t ∈ m.types) (d : Method) (hd : d ∈ t.methods) :
      ((m.pass a).visitOf (t.name, d)).after = d := by
    have hv : (m.pass a).visitOf (t.name, d) ∈ m.visits a :=
      List.mem_map_of_mem (List.mem_flatMap.2 ⟨t, ht, List.mem_map_of_mem hd⟩)
    obtain ⟨reason, hreason⟩ := instrumented_eq_nil_iff.1 h _ hv
    have hkeeps := visits_keep m a _ hv
    rw [Visit.Keeps, hreason] at hkeeps
    exact hkeeps
  have htype (t : TypeDef) (ht : t ∈ m.types) : { t with
      methods := t.methods.map fun d => ((m.pass a).visitOf (t.name, d)).after } = t := by
    rw [List.map_congr_left (hafter t ht), List.map_id']
  rw [Module.woven, List.map_congr_left htype, List.map_id', if_pos (List.isEmpty_iff.2 h)]

/-! ## The same pass again -/

namespace Visit

/-- Why a method is skipped by the pass that visited it before. -/
def nextReason (v : Visit) : SkipReason :=
  match v.verdict with
  | .ok _ => .alreadyInstrumented
  | .error reason => reason

/-- The next visit to a method by the same pass. -/
def next (v : Visit) : Visit := ⟨v.typeName, v.after, .error v.nextReason, v.after⟩

end Visit

theorem visitOf_again (p : WeavePass) (x : String × Method) :
    p.visitOf (x.1, (p.visitOf x).after) = (p.visitOf x).next := by
  obtain ⟨typeName, d⟩ := x
  rcases p.visit_cases typeName d with ⟨reason, hv⟩ | ⟨hooks, d', hv, -⟩
  · simp only [WeavePass.visitOf, Visit.next, Visit.nextReason, hv]
  · simp only [WeavePass.visitOf, Visit.next, Visit.nextReason, hv, WeavePass.visit_again hv]

theorem visits_again (m : Module) (config : WeaveConfig) :
    (m.woven config).visits config = (m.visits config).map Visit.next := by
  rw [visits_woven rfl, Module.visits, List.map_map, List.map_map]
  exact List.map_congr_left fun x _ => visitOf_again (m.pass config) x

/-- A second pass with the same configuration weaves nothing. It skips what the first pass wove
as instrumented, and everything else for the reasons of the first pass. -/
theorem weave_again (config : WeaveConfig) {m : Module} (hcode : m.metadataOnly = false) :
    ∃ first m' again visits,
      (Module.weaveInPlace config false).run m = (.ok first, m') ∧
      (Module.weaveInPlace config false).run m' = (.ok again, m') ∧
      Ledger false m first m' visits ∧
      again.instrumented = [] ∧ again.cancelled = false ∧
      again.skipped = visits.map fun v => (v.path, v.nextReason) := by
  have hrun (m : Module) (hcode : m.metadataOnly = false) :
      (Module.weaveInPlace config false).run m = (.ok (m.reportOf config), m.woven config) := by
    rw [run_weaveInPlace_eq, hcode]
    rfl
  have hnothing : ((m.woven config).reportOf config).instrumented = [] := by
    rw [instrumented_eq_nil_iff, visits_again]
    intro v hv
    obtain ⟨v', -, rfl⟩ := List.mem_map.1 hv
    exact ⟨v'.nextReason, rfl⟩
  have hagain := hrun (m.woven config) hcode
  rw [woven_eq_self hnothing] at hagain
  refine ⟨_, _, _, _, hrun m hcode, hagain, ledger_of_pass m config, hnothing,
    WeavePass.report_cancelled _, ?_⟩
  have hnext : ∀ v ∈ m.visits config, v.next.skipped? = some (v.path, v.nextReason) := by
    intro v hv
    obtain ⟨x, -, rfl⟩ := List.mem_map.1 hv
    have hname := ((m.pass config).after_signature x).1
    exact congrArg (fun name => some (x.1 ++ "::" ++ name, _)) hname
  calc ((m.woven config).reportOf config).skipped
      = (m.visits config).filterMap fun v => v.next.skipped? := by
        rw [(ledger_of_pass (m.woven config) config).skipped, visits_again, List.filterMap_map]
        rfl
    _ = (m.visits config).map fun v => (v.path, v.nextReason) := by
        rw [List.filterMap_congr hnext]
        exact congrFun List.filterMap_eq_map (m.visits config)

/-- A module with a method that is woven and three that are skipped, each at another stage. -/
def depot : Module where
  name := "Depot"
  types := [⟨"Desk", [
    { name := "Audit", flags := .abstract },
    { name := "Stamp", flags := .static, params := [⟨0, "letter", .int32⟩], returnType := .int32
      body? := some (.ofList [.ldarg 0, .plain .ret]) },
    { name := "Jam", flags := .static, body? := some (.ofList [.plain .pop, .plain .ret]) },
    { name := "Sweep", flags := .static, body? := some (.ofList [.plain .ret]) }]⟩]
  references := hostLibraries defaultDispatcherType defaultHookLibrary

/-- A configuration that leaves one method alone. -/
def quiet : WeaveConfig where
  excludeMethods := ["Desk::Sweep"]

/-- The method that was woven is skipped now, and the other ones are skipped again. -/
theorem depot_weave_again : ∃ first m' again,
    (Module.weaveInPlace quiet false).run depot = (.ok first, m') ∧
    first.instrumented = [("Desk::Stamp", ⟨true, true, true, true, false⟩)] ∧
    (Module.weaveInPlace quiet false).run m' = (.ok again, m') ∧
    again.instrumented = [] ∧
    again.skipped = [("Desk::Audit", .malformedBody "abstract method"),
      ("Desk::Stamp", .alreadyInstrumented),
      ("Desk::Jam", .verification (.stackUnderflow 11 .pop 1 0)), ("Desk::Sweep", .excluded)] := by
  have hwoven : ((Module.weaveInPlace quiet false).run depot).1.toOption.map (·.instrumented) =
      some [("Desk::Stamp", ⟨true, true, true, true, false⟩)] := by
    decide +kernel
  have hskipped : ((Module.weaveInPlace quiet false).run
      ((Module.weaveInPlace quiet false).run depot).2).1.toOption.map (·.skipped) =
      some [("Desk::Audit", .malformedBody "abstract method"),
        ("Desk::Stamp", .alreadyInstrumented),
        ("Desk::Jam", .verification (.stackUnderflow 11 .pop 1 0)), ("Desk::Sweep", .excluded)] := by
    decide +kernel
  obtain ⟨first, m', again, visits, hfirst, hagain, -, hnothing, -⟩ :=
    weave_again quiet (m := depot) rfl
  rw [hfirst] at hwoven hskipped
  rw [hagain] at hskipped
  exact ⟨first, m', again, hfirst, Option.some.inj hwoven, hagain, hnothing,
    Option.some.inj hskipped⟩

/-! ## Passes with different selections -/

section

variable (hsymbols : SymbolTable.forConfig b = SymbolTable.forConfig a)

include hsymbols

/-- What a pass has no use for, it has no use for after another pass either. -/
theorem nothing_after (h : (m.reportOf a).instrumented = []) :
    ((m.woven b).reportOf a).instrumented = [] := by
  rw [instrumented_eq_nil_iff] at h ⊢
  rw [visits_woven hsymbols.symm]
  intro v hv
  obtain ⟨v', hv', rfl⟩ := List.mem_map.1 hv
  obtain ⟨⟨typeName, d⟩, hd, rfl⟩ := List.mem_map.1 hv'
  rcases (m.pass b).visit_cases typeName d with ⟨reason, hb⟩ | ⟨hooks, d', hb, -⟩
  · simp only [WeavePass.visitOf, hb]
    exact h _ (List.mem_map_of_mem hd)
  · obtain ⟨reason, ha⟩ := WeavePass.visit_woven hb (m.pass a)
    simp only [WeavePass.visitOf, hb, ha]
    exact ⟨reason, rfl⟩

theorem types_woven_woven (m : Module) : ((m.woven a).woven b).types =
    m.types.map fun t => { t with methods := t.methods.map fun d =>
      ((m.pass b).visitOf (t.name, ((m.pass a).visitOf (t.name, d)).after)).after } := by
  have hpass := pass_woven hsymbols m
  simp only [Module.woven, List.map_map] at hpass ⊢
  rw [hpass]
  simp only [Function.comp_def, List.map_map]

/-- If both passes weave something, both orders end with the same imports. -/
theorem imports_woven_woven (ha : (m.reportOf a).instrumented ≠ []) :
    ((m.woven a).woven b).imports = (m.pass b).imports := by
  have hfirst : (m.woven a).imports = (m.pass b).imports := by
    rw [pass_select hsymbols m]
    exact if_neg fun hempty => ha (List.isEmpty_iff.1 hempty)
  have hpass := pass_woven hsymbols m
  generalize m.woven a = m₁ at hfirst hpass ⊢
  rw [Module.woven]
  dsimp only
  split
  · exact hfirst
  · rw [hpass]

/-- Passes over the same symbols that weave alike can be run in either order. -/
theorem woven_comm (halike : ∀ d, (m.pass b).context.instrument b (m.pass b).imports d =
      (m.pass a).context.instrument a (m.pass a).imports d) :
    (m.woven a).woven b = (m.woven b).woven a := by
  -- a pass that weaves nothing does not keep its imports, so it is looked at on its own
  by_cases ha : (m.reportOf a).instrumented = []
  · rw [woven_eq_self ha, woven_eq_self (nothing_after hsymbols ha)]
  · by_cases hb : (m.reportOf b).instrumented = []
    · rw [woven_eq_self hb, woven_eq_self (nothing_after hsymbols.symm hb)]
    · have htypes : ((m.woven a).woven b).types = ((m.woven b).woven a).types := by
        rw [types_woven_woven hsymbols, types_woven_woven hsymbols.symm]
        have hcomm (t : TypeDef) (d : Method) := WeavePass.visit_comm halike t.name d
        simp only [WeavePass.visitOf, hcomm]
      have himports : ((m.woven a).woven b).imports = ((m.woven b).woven a).imports := by
        rw [imports_woven_woven hsymbols ha, imports_woven_woven hsymbols.symm hb,
          pass_select hsymbols m]
      calc (m.woven a).woven b
          = { m with
              types := ((m.woven a).woven b).types
              imports := ((m.woven a).woven b).imports } := rfl
        _ = { m with
              types := ((m.woven b).woven a).types
              imports := ((m.woven b).woven a).imports } := by rw [htypes, himports]
        _ = (m.woven b).woven a := rfl

end

/-- What a pass that is not stopped leaves of a module. -/
def Module.left (m : Module) (config : WeaveConfig) : Module :=
  ((Module.weaveInPlace config false).run m).2

theorem left_eq (m : Module) (config : WeaveConfig) :
    m.left config = if m.metadataOnly then m else m.woven config := by
  rw [Module.left, run_weaveInPlace_eq]
  cases m.metadataOnly <;> rfl

/-- Which methods are marked as woven, in the order of declaration. -/
def Module.marks (m : Module) : List Bool :=
  m.methods.map fun x => x.2.hasAttribute instrumentedAttribute

theorem instrument_select (c : HookContext) (a : WeaveConfig) (included excluded : List String)
    (imports : ImportTable) (d : Method) :
    c.instrument { a with includeTypes := included, excludeMethods := excluded } imports d =
      c.instrument a imports d := rfl

theorem marks_woven (m : Module) (config : WeaveConfig) : (m.woven config).marks =
    (m.visits config).map fun v => v.after.hasAttribute instrumentedAttribute := by
  rw [Module.marks, Module.methods_woven, List.map_map]
  rfl

/-- Passes that differ in the methods they select can be run in either order. Together they mark
what one of them marks. -/
theorem selections_commute (a : WeaveConfig) (included excluded : List String) (m : Module) :
    let b := { a with includeTypes := included, excludeMethods := excluded }
    (m.left a).left b = (m.left b).left a ∧
      ((m.left a).left b).marks = List.zipWith (· || ·) (m.left a).marks (m.left b).marks := by
  intro b
  have hsymbols : SymbolTable.forConfig b = SymbolTable.forConfig a := rfl
  by_cases hmeta : m.metadataOnly = true
  · have hsame (config : WeaveConfig) : m.left config = m := by rw [left_eq, if_pos hmeta]
    simp only [hsame, List.zipWith_self, Bool.or_self, List.map_id', and_self]
  · have hwoven (config : WeaveConfig) : m.left config = m.woven config := by
      rw [left_eq, if_neg hmeta]
    have htwice (config config' : WeaveConfig) :
        (m.woven config).left config' = (m.woven config).woven config' := by
      rw [left_eq]
      exact if_neg hmeta
    rw [hwoven, hwoven, htwice, htwice]
    refine ⟨woven_comm hsymbols fun d => ?_, ?_⟩
    · rw [pass_select hsymbols m]
      exact instrument_select _ a included excluded _ d
    · rw [marks_woven, marks_woven, marks_woven, visits_woven hsymbols, Module.visits,
        Module.visits]
      simp only [List.map_map, List.zipWith_map, List.zipWith_self]
      refine List.map_congr_left fun x _ => ?_
      exact WeavePass.hasAttribute_visit_visit (m.pass a) (m.pass b) x.1 x.2

end Interpose
