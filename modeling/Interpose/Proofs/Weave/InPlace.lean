import Interpose.Proofs.Except
import Interpose.Proofs.Verify.Alike
import Interpose.Proofs.Weave.Wanted
/-!
# A pass, method by method

A pass edits the module it is given: it imports the hooks, takes each body out of its method,
puts back what is refused, and drops the imports again if nothing was woven. What it leaves is
the same as if each method had been looked at on its own: `instrument` and `visit` say what
becomes of one method without taking anything out or putting anything back.

Results:
* `instrumentInPlace_eq`: a method that is not woven has its body back.
* `run_walkTypes`, `run_walkTypes_stopped`: a walk is its visits, one after the other.
* `run_weaveInPlace`: what a pass reports and leaves.
-/
namespace Interpose

namespace HookContext

variable {c : HookContext} {config : WeaveConfig} {imports : ImportTable} {d : Method} {b : Body}

/-- The verifier has no use for the body that is in the method. -/
theorem reweave_takenOut (capture : Capture) (b? : Option Body) :
    c.reweave config imports capture { d with body? := b? } b =
      c.reweave config imports capture d b := by
  have hverify (woven : Body) :
      verifyBody { d with body? := b? } woven imports = verifyBody d woven imports :=
    verifyBody_alike { argCount := rfl, returnType := rfl } (.refl woven)
  simp only [reweave, hverify]

theorem instrument_of_attribute (hcheck : checkBody d = .ok b)
    (hattribute : d.hasAttribute instrumentedAttribute = true) :
    c.instrument config imports d = .error .alreadyInstrumented := by
  simp only [instrument, hcheck, ok_bind, hattribute, if_true]
  rfl

theorem instrument_eq_reweave (hcheck : checkBody d = .ok b)
    (hattribute : d.hasAttribute instrumentedAttribute = false) :
    c.instrument config imports d =
      (c.reweave config imports (.ofMethod d) d b).map fun r => (r.1, { d with
        attributes := d.attributes ++ [instrumentedAttribute]
        body? := some r.2 }) := by
  simp only [instrument, hcheck, hattribute, reweave, ok_bind, Bool.false_eq_true, if_false]
  cases c.weave config (.ofMethod d) d.name d.returnType b with
  | error e => rfl
  | ok r =>
    obtain ⟨hooks, woven⟩ := r
    simp only [Except.mapError, ok_bind]
    cases verifyBody d woven imports with
    | error e => rfl
    | ok n => rfl

/-- A method that is not woven has its body back. -/
theorem instrumentInPlace_eq (c : HookContext) (config : WeaveConfig) (imports : ImportTable)
    (d : Method) :
    c.instrumentInPlace config imports d =
      match c.instrument config imports d with
      | .ok (hooks, woven) => (.ok hooks, woven)
      | .error reason => (.error reason, d) := by
  cases hcheck : checkBody d with
  | error reason =>
    have hinstrument : c.instrument config imports d = .error reason := by
      rw [instrument, hcheck]
      rfl
    simp only [instrumentInPlace, hcheck, hinstrument]
  | ok b =>
    have hbody : d.body? = some b := (checkBody_eq_ok hcheck).1
    cases hattribute : d.hasAttribute instrumentedAttribute with
    | true =>
      simp only [instrumentInPlace, hcheck, hattribute, if_true,
        instrument_of_attribute hcheck hattribute]
    | false =>
      rw [instrument_eq_reweave hcheck hattribute]
      simp only [instrumentInPlace, hcheck, hattribute, Bool.false_eq_true, if_false,
        reweave_takenOut]
      cases c.reweave config imports (.ofMethod d) d b with
      | error reason => simp only [Except.map, ← hbody]
      | ok r => simp only [Except.map]

end HookContext

/-! ## Programs with a state -/

section

variable {σ α β : Type}

theorem run_get_bind (f : σ → StateM σ β) (s : σ) :
    (get >>= f).run s = (f s).run s := rfl

theorem run_set_bind (s' : σ) (f : PUnit → StateM σ β) (s : σ) :
    (set s' >>= f).run s = (f ⟨⟩).run s' := rfl

theorem run_modify_bind (g : σ → σ) (f : PUnit → StateM σ β) (s : σ) :
    (modify g >>= f).run s = (f ⟨⟩).run (g s) := rfl

theorem run_bind_of_eq {x : StateM σ α} {f : α → StateM σ β} {s s' : σ} {a : α}
    (h : x.run s = (a, s')) : (x >>= f).run s = (f a).run s' := by
  rw [StateT.run_bind, h]
  rfl

end

namespace WeavePass

variable {p : WeavePass}

/-- The verdict on a method of a type, and what becomes of it. -/
def visit (p : WeavePass) (typeName : String) (m : Method) : Verdict × Method :=
  if !p.config.selects typeName m.name then (.error .excluded, m)
  else if typeName == p.config.dispatcherType || p.hookTargets.contains (typeName, m.name) then
    (.error .hookDispatcher, m)
  else match p.context.instrument p.config p.imports m with
    | .ok (hooks, woven) => (.ok hooks, woven)
    | .error reason => (.error reason, m)

/-- The verdicts on the methods of a type, and what becomes of it. -/
def visitType (p : WeavePass) (t : TypeDef) : List (String × Verdict) × TypeDef :=
  let visits := t.methods.map (p.visit t.name)
  (t.methods.zipWith (fun m v => (t.name ++ "::" ++ m.name, v.1)) visits,
    { t with methods := visits.map (·.2) })

/-- The report on methods in the order of their visit. -/
def report : List (String × Verdict) → WeaveReport
  | [] => {}
  | (path, .ok hooks) :: rest =>
    let r := report rest
    { r with instrumented := (path, hooks) :: r.instrumented }
  | (path, .error reason) :: rest =>
    let r := report rest
    { r with skipped := (path, reason) :: r.skipped }

theorem visitInPlace_eq (p : WeavePass) (typeName : String) (d : Method) :
    p.visitInPlace typeName d = p.visit typeName d := by
  rw [visitInPlace, visit, HookContext.instrumentInPlace_eq]

theorem visitType_of_empty {t : TypeDef} (h : t.methods = []) : p.visitType t = ([], t) := by
  obtain ⟨name, methods⟩ := t
  cases h
  rfl

theorem visitType_verdicts (p : WeavePass) (t : TypeDef) :
    (p.visitType t).1 =
      t.methods.map fun d => (t.name ++ "::" ++ d.name, (p.visit t.name d).1) := by
  have zip (ds : List Method) :
      ds.zipWith (fun m v => (t.name ++ "::" ++ m.name, v.1)) (ds.map (p.visit t.name)) =
        ds.map fun d => (t.name ++ "::" ++ d.name, (p.visit t.name d).1) := by
    induction ds with
    | nil => rfl
    | cons d rest ih => rw [List.map_cons, List.zipWith_cons_cons, ih, List.map_cons]
  exact zip t.methods

/-! ## Walks -/

/-- Records verdicts one after the other. -/
def recordAll (r : WeaveReport) (l : List (String × Verdict)) : WeaveReport :=
  l.foldl (fun r x => r.record x.1 x.2) r

theorem recordAll_eq (r : WeaveReport) (l : List (String × Verdict)) :
    recordAll r l = { r with
      instrumented := r.instrumented ++ (report l).instrumented
      skipped := r.skipped ++ (report l).skipped } := by
  induction l generalizing r with
  | nil => simp [recordAll, report]
  | cons x rest ih =>
    obtain ⟨path, verdict⟩ := x
    have hstep : recordAll r ((path, verdict) :: rest) = recordAll (r.record path verdict) rest :=
      rfl
    rw [hstep, ih]
    cases verdict with
    | ok hooks => simp [WeaveReport.record, report]
    | error reason => simp [WeaveReport.record, report]

theorem report_cancelled (l : List (String × Verdict)) : (report l).cancelled = false := by
  induction l with
  | nil => rfl
  | cons x rest ih =>
    obtain ⟨path, verdict⟩ := x
    cases verdict with
    | ok hooks => exact ih
    | error reason => exact ih

theorem recordAll_empty (l : List (String × Verdict)) : recordAll {} l = report l := by
  rw [recordAll_eq, List.nil_append, List.nil_append, ← report_cancelled l]

theorem recordAll_append (r : WeaveReport) (l l' : List (String × Verdict)) :
    recordAll r (l ++ l') = recordAll (recordAll r l) l' :=
  List.foldl_append ..

theorem recordAll_cancelled (r : WeaveReport) (l : List (String × Verdict)) :
    (recordAll r l).cancelled = r.cancelled := by
  rw [recordAll_eq]

theorem run_walkMethods (p : WeavePass) (typeName : String) (ds : List Method) (r : WeaveReport) :
    (p.walkMethods false typeName ds).run r =
      (ds.map fun d => (p.visit typeName d).2,
        recordAll r (ds.map fun d => (typeName ++ "::" ++ d.name, (p.visit typeName d).1))) := by
  induction ds generalizing r with
  | nil => rfl
  | cons d rest ih =>
    simp only [walkMethods, Bool.false_eq_true, if_false, visitInPlace_eq, StateT.run_bind,
      StateT.run_modify, StateT.run_pure, pure_bind, ih, List.map_cons]
    rfl

/-- A walk that is not stopped visits every method. -/
theorem run_walkTypes (p : WeavePass) (ts : List TypeDef) {r : WeaveReport}
    (hr : r.cancelled = false) :
    (p.walkTypes false ts).run r =
      (ts.map fun t => (p.visitType t).2, recordAll r (ts.flatMap fun t => (p.visitType t).1)) := by
  induction ts generalizing r with
  | nil => rfl
  | cons t rest ih =>
    let here := recordAll r (t.methods.map fun d =>
      (t.name ++ "::" ++ d.name, (p.visit t.name d).1))
    have hhere : here.cancelled = false := (recordAll_cancelled r _).trans hr
    have hmethods : (p.walkMethods false t.name t.methods).run r =
      (t.methods.map fun d => (p.visit t.name d).2, here) := p.run_walkMethods t.name t.methods r
    have htype : (p.visitType t).2 =
        { t with methods := t.methods.map fun d => (p.visit t.name d).2 } := by
      simp only [visitType, List.map_map]
      rfl
    rw [walkTypes, run_bind_of_eq hmethods, run_get_bind, hhere,
      if_neg Bool.false_ne_true, run_bind_of_eq (ih hhere), List.map_cons, htype,
      List.flatMap_cons, visitType_verdicts, recordAll_append]
    rfl

theorem run_walkMethods_stopped (p : WeavePass) (typeName : String) (ds : List Method)
    (r : WeaveReport) :
    (p.walkMethods true typeName ds).run r =
      (ds, { r with cancelled := r.cancelled || !ds.isEmpty }) := by
  cases ds with
  | nil => simp only [walkMethods, List.isEmpty_nil, Bool.not_true, Bool.or_false]; rfl
  | cons d rest => simp only [walkMethods, List.isEmpty_cons, Bool.not_false, Bool.or_true]; rfl

/-- A walk that is stopped before its first visit changes nothing. -/
theorem run_walkTypes_stopped (p : WeavePass) (ts : List TypeDef) (r : WeaveReport) :
    (p.walkTypes true ts).run r =
      (ts, { r with cancelled := r.cancelled || ts.any fun t => !t.methods.isEmpty }) := by
  induction ts generalizing r with
  | nil => simp only [walkTypes, List.any_nil, Bool.or_false]; rfl
  | cons t rest ih =>
    rw [walkTypes, run_bind_of_eq (p.run_walkMethods_stopped t.name t.methods r), run_get_bind,
      List.any_cons, ← Bool.or_assoc]
    -- a type with methods ends the walk, and one without leaves it to the next type
    cases hcancelled : r.cancelled || !t.methods.isEmpty with
    | true => rw [if_pos rfl, Bool.true_or]; rfl
    | false => rw [if_neg Bool.false_ne_true, run_bind_of_eq (ih _)]; rfl

end WeavePass

/-! ## Modules -/

/-- The pass that weaves a module. -/
def Module.pass (m : Module) (config : WeaveConfig) : WeavePass :=
  let p := (HookContext.resolve (.forConfig config)).run ⟨m, []⟩
  ⟨config, p.1, p.2.module.imports, hookTargets p.2.module.imports p.1.members⟩

theorem isEmpty_methods (m : Module) :
    (!m.methods.isEmpty) = m.types.any fun t => !t.methods.isEmpty := by
  rw [Bool.eq_iff_iff]
  simp [Module.methods]

/-- What is left depends on the walk alone: without a woven method the imports of the pass are
gone again. -/
theorem run_weaveInPlace_of_walk {config : WeaveConfig} {stopped : Bool} {m : Module}
    {types : List TypeDef} {report : WeaveReport} (hmeta : m.metadataOnly = false)
    (hwalk : ((m.pass config).walkTypes stopped m.types).run {} = (types, report)) :
    (Module.weaveInPlace config stopped).run m = (.ok report, { m with
      types := types
      imports := if report.instrumented.isEmpty then m.imports else (m.pass config).imports }) := by
  rcases hresolve : (HookContext.resolve (.forConfig config)).run ⟨m, []⟩ with ⟨c, r⟩
  have hpass : m.pass config = ⟨config, c, r.module.imports,
      hookTargets r.module.imports c.members⟩ := by rw [Module.pass, hresolve]
  obtain ⟨hmodule, -⟩ := HookContext.indexes_of_resolve hresolve
  have hextends : r.module.imports.Extends m.imports := by
    rw [hmodule]
    exact m.imports.extends_addAll _
  rw [hpass] at hwalk ⊢
  have hcode : ¬ m.metadataOnly = true := by simp [hmeta]
  rw [Module.weaveInPlace, run_get_bind, if_neg hcode, hresolve]
  dsimp only
  rw [run_set_bind, hwalk]
  dsimp only
  rw [run_modify_bind]
  have hleft : { r.module with types := types } =
      { m with types := types, imports := r.module.imports } := by rw [hmodule]
  rw [hleft]
  -- cutting the imports back undoes what was appended, also if that was nothing
  cases hempty : report.instrumented.isEmpty with
  | false => rfl
  | true =>
    by_cases hgrown : m.imports.size < r.module.imports.size
    · rw [if_pos (by simpa using hgrown), run_modify_bind, ImportTable.truncate_of_extends hextends]
      rfl
    · rw [if_neg (by simpa using hgrown), ImportTable.eq_of_extends hextends (Nat.not_lt.1 hgrown)]
      rfl

/-- What a pass reports and leaves. -/
theorem run_weaveInPlace (config : WeaveConfig) (stopped : Bool) (m : Module) :
    (Module.weaveInPlace config stopped).run m =
      if m.metadataOnly then (.error (.metadataOnly m.name), m)
      else if stopped then (.ok { cancelled := !m.methods.isEmpty }, m)
      else
        let report := WeavePass.report (m.types.flatMap fun t => ((m.pass config).visitType t).1)
        (.ok report, { m with
          types := m.types.map fun t => ((m.pass config).visitType t).2
          imports := if report.instrumented.isEmpty then m.imports
            else (m.pass config).imports }) := by
  by_cases hmeta : m.metadataOnly = true
  · rw [Module.weaveInPlace, run_get_bind, if_pos hmeta, if_pos hmeta]
    rfl
  · rw [if_neg hmeta]
    replace hmeta := Bool.eq_false_iff.2 hmeta
    cases stopped with
    | true =>
      rw [run_weaveInPlace_of_walk hmeta ((m.pass config).run_walkTypes_stopped m.types {}),
        if_pos rfl, isEmpty_methods, Bool.false_or]
      rfl
    | false =>
      rw [run_weaveInPlace_of_walk hmeta ((m.pass config).run_walkTypes m.types rfl),
        if_neg Bool.false_ne_true, WeavePass.recordAll_empty]

end Interpose
