import Interpose.Verify
import Interpose.Weave.Capture
import Interpose.Weave.Guard
import Interpose.Weave.HookContext
/-!
# Weaving one method

A prologue announces the call and its arguments, a guard around everything announces
how the call ends, and the result is verified before it replaces the body. A method
that is not woven stays exactly as it was.

Results:
* `checkBody_eq_ok`: what a method must have to be woven at all.
-/
namespace Interpose

/-- Why a method is not woven. -/
inductive SkipReason
  | malformedBody (detail : String)
  | alreadyInstrumented
  | excluded
  /-- Declared by the dispatcher type, or called by woven code. -/
  | hookDispatcher
  | edit (cause : CodeError)
  | verification (cause : CodeError)
deriving DecidableEq

def SkipReason.message : SkipReason → String
  | malformedBody detail => "malformed body: " ++ detail
  | alreadyInstrumented => "already instrumented"
  | excluded => "excluded by config"
  | hookDispatcher => "hook dispatcher member"
  | edit cause => "rewrite failed: " ++ cause.message
  | verification cause => "woven body does not verify: " ++ cause.message

/-- The calls woven into a method. -/
structure WovenHooks where
  init : Bool := false
  entry : Bool := false
  /-- Called when the method ends by an exception, and on return if configured. -/
  exit : Bool := false
  exception : Bool := false
  trace : Bool := false
deriving DecidableEq

namespace WovenHooks

/-- The names of the calls, in the order in which they are reported. -/
def names (h : WovenHooks) : List String :=
  ([("INIT", h.init), ("ENTRY", h.entry), ("EXIT", h.exit), ("EXCEPTION", h.exception),
    ("TRACE", h.trace)].filter (·.2)).map (·.1)

/-- The calls as reports show them. -/
def text (h : WovenHooks) : String :=
  let names := h.names
  "WovenHooks(" ++ (if names.isEmpty then "0x0" else " | ".intercalate names) ++ ")"

end WovenHooks

/-- How a method fared. -/
abbrev Verdict := Except SkipReason WovenHooks

/-- Does a method have a body that can be woven (`check_body`)? -/
def checkBody (m : Method) : Except SkipReason Body :=
  if m.flags.contains .abstract then .error (.malformedBody "abstract method")
  else if m.flags.contains .external then .error (.malformedBody "external method")
  else match m.body? with
    | none => .error (.malformedBody "no body")
    | some b => if b.stream.isEmpty then .error (.malformedBody "empty body") else .ok b

theorem checkBody_eq_ok {m : Method} {b : Body} (h : checkBody m = .ok b) :
    m.body? = some b ∧ b.stream ≠ [] := by
  rw [checkBody] at h
  split at h
  · cases h
  · split at h
    · cases h
    · split at h
      · cases h
      · next e =>
        split at h
        · cases h
        · next hne =>
          cases h
          exact ⟨e, by simpa using hne⟩

namespace HookContext

/-- The code that announces the arguments in `array` to `Init`. -/
def initCode? (c : HookContext) (array : SlotId) : Option (List Instruction) :=
  let method := match c.currentMethod? with
    | some get => Instruction.call get
    | none => .plain .ldnull
  c.emitHook c.init? [.plain .ldnull, method, .ldloc array]

/-- The code that prints a method's name and the arguments in `array`. -/
def traceCode? (c : HookContext) (name : String) (array : SlotId) : Option (List Instruction) := do
  let join ← c.join?
  let format ← c.format?
  let writeLine ← c.writeLine?
  return [.ldstr ("DEBUG: " ++ name ++ "(\x7b0\x7d)"), .ldstr ",", .ldloc array,
    .call join, .call format, .call writeLine]

/-- The code before the first instruction of a method, and what it calls. The arguments
are captured if either `Init` or tracing wants them. -/
def prologue (c : HookContext) (trace : Bool) (capture : Capture) (name : String) (b : Body) :
    Except CodeError (List Instruction × WovenHooks × Body) := do
  let (captured, init, traced, b) ←
    if c.init?.isSome || trace then do
      let (array, code, b) ← capture.emit b
      pure (code, c.initCode? array, if trace then c.traceCode? name array else none, b)
    else pure ([], none, none, b)
  let entry := c.emitHook c.onEntry? []
  return (captured ++ init.getD [] ++ traced.getD [] ++ entry.getD [],
    { init := init.isSome, trace := traced.isSome, entry := entry.isSome }, b)

/-- The guard of a method, and what it calls. -/
def guardFor (c : HookContext) (config : WeaveConfig) (b : Body) :
    Except CodeError (Guard × WovenHooks × Body) := do
  let guard : Guard := {}
  let (guard, exception, b) ←
    if config.notifyException && c.onException?.isSome then do
      let (slot, guard, b) ← guard.captureException b
      pure (guard, c.emitHook c.onException? [.ldloc slot], b)
    else pure (guard, none, b)
  let exit := c.emitHook c.onExit? []
  return ({ guard with
      onException := exception.getD [] ++ exit.getD []
      onReturn := if config.notifyExitOnReturn then exit.getD [] else [] },
    { exception := exception.isSome, exit := exit.isSome }, b)

/-- The woven form of a body, and what it calls (`MethodInstrumenter::weave`). -/
def weave (c : HookContext) (config : WeaveConfig) (capture : Capture) (name : String)
    (returnType : Ty) (b : Body) : Except CodeError (WovenHooks × Body) := do
  match b.first? with
  | none => .error .emptyBody
  | some first =>
    let (anchor, b) ← b.insertBefore first (.plain .nop)
    let (prologue, before, b) ← c.prologue (config.traceArguments && c.canTrace) capture name b
    let (_, b) ← b.insertAllAfter anchor prologue
    let (guard, after, b) ← c.guardFor config b
    let (_, b) ← guard.wrap b anchor returnType
    return ({ before with exit := after.exit, exception := after.exception }, b)

/-- Weaves a method; gives what it calls now and the method in its woven form
(`MethodInstrumenter::instrument`). -/
def instrument (c : HookContext) (config : WeaveConfig) (imports : ImportTable) (m : Method) :
    Except SkipReason (WovenHooks × Method) := do
  let b ← checkBody m
  if m.hasAttribute instrumentedAttribute then
    throw .alreadyInstrumented
  let (hooks, woven) ← (c.weave config (.ofMethod m) m.name m.returnType b).mapError .edit
  let maxStack ← (verifyBody m woven imports).mapError .verification
  return (hooks, { m with
    attributes := m.attributes ++ [instrumentedAttribute]
    body? := some { woven with maxStack := maxStack } })

/-- The woven form of a body that was taken out of a method, verified, with its depth
stored. -/
def reweave (c : HookContext) (config : WeaveConfig) (imports : ImportTable) (capture : Capture)
    (m : Method) (b : Body) : Except SkipReason (WovenHooks × Body) := do
  let (hooks, woven) ← (c.weave config capture m.name m.returnType b).mapError .edit
  let maxStack ← (verifyBody m woven imports).mapError .verification
  return (hooks, { woven with maxStack := maxStack })

/-- Weaves a method in place: the verdict on it, and what it is left as
(`MethodInstrumenter::instrument`). Its body is taken out, and goes back as it was if the woven
one is refused. -/
def instrumentInPlace (c : HookContext) (config : WeaveConfig) (imports : ImportTable)
    (m : Method) : Verdict × Method :=
  match checkBody m with
  | .error reason => (.error reason, m)
  | .ok original =>
    if m.hasAttribute instrumentedAttribute then (.error .alreadyInstrumented, m)
    else
      let capture := Capture.ofMethod m
      let m := { m with body? := none }
      match c.reweave config imports capture m original with
      | .ok (hooks, woven) =>
        (.ok hooks, { m with
          attributes := m.attributes ++ [instrumentedAttribute]
          body? := some woven })
      | .error reason => (.error reason, { m with body? := some original })

end HookContext

end Interpose
