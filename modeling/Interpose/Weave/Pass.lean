import Interpose.Weave.Instrument
/-!
# Weaving a module

One pass visits every method in the order of declaration, weaves those it can, and
reports on each. Methods of the dispatcher type and methods that woven code calls are
left alone, since they would call themselves. If nothing is woven nothing is imported.
-/
namespace Interpose

/-- What a pass did. Methods are named `Type::method`. -/
structure WeaveReport where
  instrumented : List (String × WovenHooks) := []
  skipped : List (String × SkipReason) := []
  /-- The pass was stopped with methods left to visit. -/
  cancelled : Bool := false

namespace WeaveReport

/-- The report as text, one line per method below the counts (`WeaveReport::fmt`). -/
def text (r : WeaveReport) : String :=
  let head := toString r.instrumented.length ++ " instrumented, " ++ toString r.skipped.length ++
    " skipped" ++ (if r.cancelled then " (cancelled)" else "") ++ "\n"
  String.join (head ::
    r.instrumented.map (fun e => "  + " ++ e.1 ++ " " ++ e.2.text ++ "\n") ++
    r.skipped.map fun e => "  - " ++ e.1 ++ ": " ++ e.2.message ++ "\n")

/-- Adds the verdict on a method. -/
def record (r : WeaveReport) (path : String) : Verdict → WeaveReport
  | .ok hooks => { r with instrumented := r.instrumented ++ [(path, hooks)] }
  | .error reason => { r with skipped := r.skipped ++ [(path, reason)] }

/-- Why the first method of this path was skipped (`WeaveReport::skip_reason`). -/
def skipReason? (r : WeaveReport) (path : String) : Option SkipReason := r.skipped.lookup path

end WeaveReport

/-- Why a module is not woven. -/
inductive WeaveError
  | metadataOnly (name : String)
deriving DecidableEq

def WeaveError.message : WeaveError → String
  | metadataOnly name =>
    "Module " ++ ticked name ++ " is metadata-only and has no method bodies to weave"

/-- What a pass has fixed before it visits the first method. -/
structure WeavePass where
  config : WeaveConfig
  context : HookContext
  imports : ImportTable
  /-- Owner and name of each method of the module that woven code calls. -/
  hookTargets : List (String × String)

namespace WeavePass

/-- Visits a method of a type in place. -/
def visitInPlace (p : WeavePass) (typeName : String) (m : Method) : Verdict × Method :=
  if !p.config.selects typeName m.name then (.error .excluded, m)
  else if typeName == p.config.dispatcherType || p.hookTargets.contains (typeName, m.name) then
    (.error .hookDispatcher, m)
  else p.context.instrumentInPlace p.config p.imports m

/-- Visits the methods of a type in place, up to where the pass is stopped. -/
def walkMethods (p : WeavePass) (stopped : Bool) (typeName : String) :
    List Method → StateM WeaveReport (List Method)
  | [] => return []
  | m :: rest => do
    if stopped then
      modify ({ · with cancelled := true })
      return m :: rest
    let (verdict, m') := p.visitInPlace typeName m
    modify (·.record (typeName ++ "::" ++ m.name) verdict)
    return m' :: (← p.walkMethods stopped typeName rest)

/-- Visits the methods of each type in place, up to where the pass is stopped. -/
def walkTypes (p : WeavePass) (stopped : Bool) : List TypeDef → StateM WeaveReport (List TypeDef)
  | [] => return []
  | t :: rest => do
    let methods ← p.walkMethods stopped t.name t.methods
    if (← get).cancelled then
      return { t with methods := methods } :: rest
    return { t with methods := methods } :: (← p.walkTypes stopped rest)

end WeavePass

/-- The methods of the module among these members, as owner and name. -/
def hookTargets (imports : ImportTable) (members : List MemberId) : List (String × String) :=
  members.filterMap fun id => do
    let member ← imports.get? id
    if member.scope = .module then some (member.owner, member.name) else none

/-- Weaves every method of a module that can be woven, in place (`ModuleWalker::run`). The hooks
are imported first; if no method is woven, what was imported is dropped again. -/
def Module.weaveInPlace (config : WeaveConfig) (stopped : Bool) :
    StateM Module (Except WeaveError WeaveReport) := do
  let m ← get
  if m.metadataOnly then
    return .error (.metadataOnly m.name)
  let importedBefore := m.imports.size
  let (context, resolver) := (HookContext.resolve (.forConfig config)).run ⟨m, []⟩
  set resolver.module
  let imports := resolver.module.imports
  let pass : WeavePass := ⟨config, context, imports, hookTargets imports context.members⟩
  let (types, report) := (pass.walkTypes stopped m.types).run {}
  modify ({ · with types := types })
  if report.instrumented.isEmpty && importedBefore < imports.size then
    modify fun m => { m with imports := m.imports.truncate importedBefore }
  return .ok report

/-- Weaves a module. A pass that is stopped before it begins visits no method. -/
def Module.weave (config : WeaveConfig) (stopped : Bool) (m : Module) :
    Except WeaveError (WeaveReport × Module) :=
  match (weaveInPlace config stopped).run m with
  | (.ok report, m') => .ok (report, m')
  | (.error e, _) => .error e

end Interpose
