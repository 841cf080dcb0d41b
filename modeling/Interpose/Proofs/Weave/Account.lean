import Interpose.Proofs.Weave.Pass
/-!
# The account of a pass

A ledger has one line for each method that a pass visited, in the order of declaration: the
method as it was, the verdict on it, and the method as it is left. The report is what the
verdicts of the ledger come to, and a line whose verdict is a reason for skipping has the same
method on both sides, whatever that reason is.

Results:
* `ledger_of_pass`: the visits of a pass are its ledger.
* `visit_keeps`: what the verdict on a method says about what is left of it.
* `weaveInPlace_account`: a report is an exact account of the module that is left.
-/
namespace Interpose

/-- A method that a pass visited. -/
structure Visit where
  typeName : String
  before : Method
  verdict : Verdict
  after : Method

namespace Visit

def path (v : Visit) : String := v.typeName ++ "::" ++ v.before.name

/-- The entry for a method that was woven. -/
def instrumented? (v : Visit) : Option (String × WovenHooks) :=
  match v.verdict with
  | .ok hooks => some (v.path, hooks)
  | .error _ => none

/-- The entry for a method that was skipped. -/
def skipped? (v : Visit) : Option (String × SkipReason) :=
  match v.verdict with
  | .ok _ => none
  | .error reason => some (v.path, reason)

end Visit

/-- The second method is a woven form of the first one, for a module with these imports. -/
structure Method.WovenInto (imports : ImportTable) (d d' : Method) : Prop where
  name : d'.name = d.name
  flags : d'.flags = d.flags
  params : d'.params = d.params
  returnType : d'.returnType = d.returnType
  unmarked : instrumentedAttribute ∉ d.attributes
  attributes : d'.attributes = d.attributes ++ [instrumentedAttribute]
  verified : ∃ b, d'.body? = some b ∧ verifyBody d' b imports = .ok b.maxStack

/-- What is left of a method is what the verdict says. -/
def Visit.Keeps (imports : ImportTable) (v : Visit) : Prop :=
  match v.verdict with
  | .ok _ => v.before.WovenInto imports v.after
  | .error _ => v.after = v.before

/-- The visits between a module and what a pass leaves of it. The pass visits every method,
unless it is stopped. -/
structure Ledger (stopped : Bool) (m : Module) (report : WeaveReport) (m' : Module)
    (visits : List Visit) : Prop where
  before : visits.map (fun v => (v.typeName, v.before)) = if stopped then [] else m.methods
  after : visits.map (fun v => (v.typeName, v.after)) = if stopped then [] else m'.methods
  instrumented : report.instrumented = visits.filterMap Visit.instrumented?
  skipped : report.skipped = visits.filterMap Visit.skipped?

/-- The types of a module and the methods in them, by name. -/
def Module.outline (m : Module) : List (String × List String) :=
  m.types.map fun t => (t.name, t.methods.map (·.name))

/-- A report on a pass, and what the pass left, account for each other. -/
structure Account (stopped : Bool) (m : Module) (report : WeaveReport) (m' : Module) : Prop where
  ledger : ∃ visits, Ledger stopped m report m' visits ∧ ∀ v ∈ visits, v.Keeps m'.imports
  unvisited : stopped = true → m'.types = m.types
  cancelled : report.cancelled = (stopped && !m.methods.isEmpty)
  name : m'.name = m.name
  metadataOnly : m'.metadataOnly = m.metadataOnly
  outline : m'.outline = m.outline
  references : m'.references = m.references
  imports : m'.imports.Extends m.imports
  nothing : report.instrumented = [] → m'.imports = m.imports

/-! ## Verdicts -/

namespace WeavePass

variable {p : WeavePass} {typeName : String} {d d' : Method} {hooks : WovenHooks}

/-- Only methods without the attribute are woven. -/
theorem unmarked_of_instrument
    (h : p.context.instrument p.config p.imports d = .ok (hooks, d')) :
    d.hasAttribute instrumentedAttribute = false := by
  cases hmark : d.hasAttribute instrumentedAttribute with
  | false => rfl
  | true =>
    obtain ⟨b, hb, -⟩ := bind_eq_ok.1 (show (checkBody d >>= _) = _ from h)
    rw [HookContext.instrument_of_attribute hb hmark] at h
    cases h

/-- Why a method is skipped before its body is looked at. -/
def refusal? (p : WeavePass) (typeName name : String) : Option SkipReason :=
  if !p.config.selects typeName name then some .excluded
  else if typeName == p.config.dispatcherType || p.hookTargets.contains (typeName, name) then
    some .hookDispatcher
  else none

theorem visit_eq (p : WeavePass) (typeName : String) (d : Method) :
    p.visit typeName d = match p.refusal? typeName d.name with
      | some reason => (.error reason, d)
      | none => match p.context.instrument p.config p.imports d with
        | .ok (hooks, woven) => (.ok hooks, woven)
        | .error reason => (.error reason, d) := by
  unfold visit refusal?
  split
  · rfl
  · split <;> rfl

/-- A woven method was not refused. -/
theorem visit_eq_ok (h : p.visit typeName d = (.ok hooks, d')) :
    p.refusal? typeName d.name = none ∧
      p.context.instrument p.config p.imports d = .ok (hooks, d') := by
  rw [visit_eq] at h
  split at h
  · cases h
  · next hrefusal =>
    split at h
    · next hinstrument =>
      cases h
      exact ⟨hrefusal, hinstrument⟩
    · cases h

theorem wovenInto_of_visit (h : p.visit typeName d = (.ok hooks, d')) :
    d.WovenInto p.imports d' := by
  have hinstrument := (visit_eq_ok h).2
  have hunmarked := unmarked_of_instrument hinstrument
  obtain ⟨L, array, exception, woven, maxStack, hw⟩ := wovenMethod_of_instrument hinstrument
  have hframe : d.SameFrame d' := by
    rw [hw.method]
    exact { argCount := rfl, returnType := rfl }
  have hverified : verifyBody d' { woven with maxStack := maxStack } p.imports = .ok maxStack := by
    rw [← verifyBody_alike hframe (.withMaxStack woven maxStack)]
    exact hw.verified
  rw [hw.method] at hverified ⊢
  exact {
    name := rfl
    flags := rfl
    params := rfl
    returnType := rfl
    unmarked := by simpa [Method.hasAttribute] using hunmarked
    attributes := rfl
    verified := ⟨_, rfl, hverified⟩ }

/-- The visit to a method of a type. -/
def visitOf (p : WeavePass) (x : String × Method) : Visit :=
  ⟨x.1, x.2, (p.visit x.1 x.2).1, (p.visit x.1 x.2).2⟩

/-- What is left of a method has its signature. -/
theorem after_signature (p : WeavePass) (x : String × Method) :
    (p.visitOf x).after.name = x.2.name ∧ (p.visitOf x).after.params = x.2.params ∧
      (p.visitOf x).after.flags = x.2.flags ∧ (p.visitOf x).after.returnType = x.2.returnType :=
  p.visited_signature x.1 x.2

/-- What the verdict on a method says about what is left of it. -/
theorem visit_keeps (p : WeavePass) (x : String × Method) : (p.visitOf x).Keeps p.imports := by
  obtain ⟨typeName, d⟩ := x
  rcases p.visit_cases typeName d with ⟨reason, hv⟩ | ⟨hooks, d', hv, -⟩
  · simp only [Visit.Keeps, visitOf, hv]
  · simp only [Visit.Keeps, visitOf, hv]
    exact wovenInto_of_visit hv

theorem report_instrumented (vs : List Visit) :
    (report (vs.map fun v => (v.path, v.verdict))).instrumented =
      vs.filterMap Visit.instrumented? := by
  induction vs with
  | nil => rfl
  | cons v rest ih =>
    obtain ⟨typeName, before, verdict, after⟩ := v
    rw [List.filterMap_cons, ← ih]
    cases verdict <;> rfl

theorem report_skipped (vs : List Visit) :
    (report (vs.map fun v => (v.path, v.verdict))).skipped = vs.filterMap Visit.skipped? := by
  induction vs with
  | nil => rfl
  | cons v rest ih =>
    obtain ⟨typeName, before, verdict, after⟩ := v
    rw [List.filterMap_cons, ← ih]
    cases verdict <;> rfl

end WeavePass

/-! ## Ledgers -/

variable {m : Module} {config : WeaveConfig}

/-- The visits of a pass that is not stopped. -/
def Module.visits (m : Module) (config : WeaveConfig) : List Visit :=
  m.methods.map (m.pass config).visitOf

/-- The report on the visits of a pass that is not stopped. -/
def Module.reportOf (m : Module) (config : WeaveConfig) : WeaveReport :=
  WeavePass.report ((m.visits config).map fun v => (v.path, v.verdict))

/-- What a pass that is not stopped makes of a module. -/
def Module.woven (m : Module) (config : WeaveConfig) : Module :=
  { m with
    types := m.types.map fun t =>
      { t with methods := t.methods.map fun d => ((m.pass config).visitOf (t.name, d)).after }
    imports := if (m.reportOf config).instrumented.isEmpty then m.imports
      else (m.pass config).imports }

/-- A pass reports on its visits, and leaves what they left. -/
theorem run_weaveInPlace_eq (config : WeaveConfig) (stopped : Bool) (m : Module) :
    (Module.weaveInPlace config stopped).run m =
      if m.metadataOnly then (.error (.metadataOnly m.name), m)
      else if stopped then (.ok { cancelled := !m.methods.isEmpty }, m)
      else (.ok (m.reportOf config), m.woven config) := by
  have hverdicts : (m.types.flatMap fun t => ((m.pass config).visitType t).1) =
      (m.visits config).map fun v => (v.path, v.verdict) := by
    simp only [WeavePass.visitType_verdicts, Module.visits, Module.methods, List.map_flatMap,
      List.map_map]
    rfl
  have htypes : (m.types.map fun t => ((m.pass config).visitType t).2) =
      (m.woven config).types := by
    simp only [Module.woven, WeavePass.visitType, List.map_map]
    rfl
  rw [run_weaveInPlace, hverdicts, htypes]
  rfl

theorem Module.methods_woven (m : Module) (config : WeaveConfig) :
    (m.woven config).methods = (m.visits config).map fun v => (v.typeName, v.after) := by
  simp only [Module.methods, Module.woven, Module.visits, List.map_map, List.flatMap_map,
    List.map_flatMap]
  rfl

theorem Module.outline_woven (m : Module) (config : WeaveConfig) :
    (m.woven config).outline = m.outline := by
  simp only [Module.outline, Module.woven, List.map_map]
  refine List.map_congr_left fun t ht => congrArg (Prod.mk t.name) ?_
  simp only [List.map_map]
  exact List.map_congr_left fun d hd => ((m.pass config).after_signature (t.name, d)).1

/-- The visits of a pass are its ledger. -/
theorem ledger_of_pass (m : Module) (config : WeaveConfig) :
    Ledger false m (m.reportOf config) (m.woven config) (m.visits config) where
  before := by
    simp only [Module.visits, List.map_map]
    exact List.map_id' m.methods
  after := (m.methods_woven config).symm
  instrumented := WeavePass.report_instrumented _
  skipped := WeavePass.report_skipped _

theorem ledger_of_stopped (m : Module) : Ledger true m { cancelled := !m.methods.isEmpty } m [] :=
  ⟨rfl, rfl, rfl, rfl⟩

/-- Once a method is woven, the module has the imports of the pass. -/
theorem imports_woven {v : Visit} (hv : v ∈ m.visits config) {hooks : WovenHooks}
    (hok : v.verdict = .ok hooks) : (m.woven config).imports = (m.pass config).imports := by
  have hmem : (v.path, hooks) ∈ (m.reportOf config).instrumented := by
    rw [(ledger_of_pass m config).instrumented, List.mem_filterMap]
    exact ⟨v, hv, by rw [Visit.instrumented?, hok]⟩
  refine if_neg fun hempty => ?_
  exact List.ne_nil_of_mem hmem (List.isEmpty_iff.1 hempty)

theorem visit_of_ok {v : Visit} (hv : v ∈ m.visits config) {hooks : WovenHooks}
    (hok : v.verdict = .ok hooks) :
    (m.pass config).visit v.typeName v.before = (.ok hooks, v.after) := by
  obtain ⟨x, -, rfl⟩ := List.mem_map.1 hv
  exact Prod.ext hok rfl

theorem visits_keep (m : Module) (config : WeaveConfig) :
    ∀ v ∈ m.visits config, v.Keeps (m.woven config).imports := by
  intro v hv
  obtain ⟨x, -, rfl⟩ := List.mem_map.1 hv
  have hkeeps := (m.pass config).visit_keeps x
  cases hverdict : ((m.pass config).visitOf x).verdict with
  | ok hooks => rwa [imports_woven hv hverdict]
  | error reason =>
    simp only [Visit.Keeps, hverdict] at hkeeps ⊢
    exact hkeeps

theorem extends_woven (m : Module) (config : WeaveConfig) :
    (m.woven config).imports.Extends m.imports := by
  rw [Module.woven]
  dsimp only
  split
  · exact .refl _
  · exact (m.resolved_pass config).2

theorem account_of_pass (m : Module) (config : WeaveConfig) :
    Account false m (m.reportOf config) (m.woven config) where
  ledger := ⟨m.visits config, ledger_of_pass m config, visits_keep m config⟩
  unvisited h := by cases h
  cancelled := WeavePass.report_cancelled _
  name := rfl
  metadataOnly := rfl
  outline := m.outline_woven config
  references := rfl
  imports := extends_woven m config
  nothing hnothing := if_pos (List.isEmpty_iff.2 hnothing)

theorem account_of_stopped (m : Module) :
    Account true m { cancelled := !m.methods.isEmpty } m where
  ledger := ⟨[], ledger_of_stopped m, fun _ hv => absurd hv List.not_mem_nil⟩
  unvisited _ := rfl
  cancelled := rfl
  name := rfl
  metadataOnly := rfl
  outline := rfl
  references := rfl
  imports := .refl _
  nothing _ := rfl

/-- A report is an exact account of what a pass did to a module. A pass that fails did
nothing. -/
theorem weaveInPlace_account (config : WeaveConfig) (stopped : Bool) (m : Module) :
    match (Module.weaveInPlace config stopped).run m with
    | (.ok report, m') => m.metadataOnly = false ∧ Account stopped m report m'
    | (.error e, m') => m.metadataOnly = true ∧ e = .metadataOnly m.name ∧ m' = m := by
  rw [run_weaveInPlace_eq]
  by_cases hmeta : m.metadataOnly = true
  · rw [if_pos hmeta]
    exact ⟨hmeta, rfl, rfl⟩
  · rw [if_neg hmeta]
    cases stopped with
    | true => exact ⟨Bool.eq_false_iff.2 hmeta, account_of_stopped m⟩
    | false => exact ⟨Bool.eq_false_iff.2 hmeta, account_of_pass m config⟩

end Interpose
