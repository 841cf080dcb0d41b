import Interpose.Weave.Resolver
import Interpose.Weave.Symbol
/-!
# Hooks of a module

The members of a module that woven code calls. They are looked up first, and only what
will be called is imported: the accessor for instance hooks only, the running method's
description only with `Init`, and the helpers of tracing only if all of them are there.
-/
namespace Interpose

/-- A hook and how it is called. -/
structure HookCall where
  member : MemberId
  /-- Is the dispatcher passed as receiver? -/
  hasThis : Bool
deriving DecidableEq

/-- What woven code can call in a module (`InstrumentationContext`). -/
structure HookContext where
  accessor? : Option MemberId := none
  init? : Option HookCall := none
  onEntry? : Option HookCall := none
  onExit? : Option HookCall := none
  onException? : Option HookCall := none
  currentMethod? : Option MemberId := none
  join? : Option MemberId := none
  format? : Option MemberId := none
  writeLine? : Option MemberId := none
deriving DecidableEq

namespace HookContext

/-- Imports the member of a symbol. -/
def importSymbol (t : SymbolTable) (s : HookSymbol) : StateM Resolver (Option MemberId) := fun r =>
  match t.descriptor? s with
  | some d => r.resolve d
  | none => (none, r)

/-- Is the member of a symbol there, and does it take a receiver? -/
def findSymbol (t : SymbolTable) (r : Resolver) (s : HookSymbol) : Option MemberRef :=
  (t.descriptor? s).bind r.find?

/-- Imports a hook that was found, if it is to be called. -/
def importHook (t : SymbolTable) (hasAccessor : Bool) (s : HookSymbol)
    (found : Option MemberRef) : StateM Resolver (Option HookCall) :=
  match found with
  | none => pure none
  | some member =>
    if member.hasThis && !hasAccessor then pure none
    else do return (← importSymbol t s).map (⟨·, member.hasThis⟩)

/-- Finds the hooks of a module and imports what woven code calls
(`InstrumentationContext::resolve`). -/
def resolve (t : SymbolTable) : StateM Resolver HookContext := do
  let r ← get
  let init := findSymbol t r .init
  let onEntry := findSymbol t r .onEntry
  let onExit := findSymbol t r .onExit
  let onException := findSymbol t r .onException
  let needsAccessor := [init, onEntry, onExit, onException].any (·.any MemberRef.hasThis)
  let accessor? ← if needsAccessor then importSymbol t .accessor else pure none
  let hasAccessor := accessor?.isSome
  let init? ← importHook t hasAccessor .init init
  let onEntry? ← importHook t hasAccessor .onEntry onEntry
  let onExit? ← importHook t hasAccessor .onExit onExit
  let onException? ← importHook t hasAccessor .onException onException
  let currentMethod? ← if init?.isSome then importSymbol t .currentMethod else pure none
  let helpers := [HookSymbol.join, .format, .writeLine].all fun s => (findSymbol t r s).isSome
  let join? ← if helpers then importSymbol t .join else pure none
  let format? ← if helpers then importSymbol t .format else pure none
  let writeLine? ← if helpers then importSymbol t .writeLine else pure none
  return {
    accessor?, init?, onEntry?, onExit?, onException?
    currentMethod?, join?, format?, writeLine? }

/-- A list in ascending order, with `id` in its place unless it is there. -/
def insertId (id : MemberId) : List MemberId → List MemberId
  | [] => [id]
  | x :: rest =>
    if id < x then id :: x :: rest
    else if id = x then x :: rest
    else x :: insertId id rest

/-- The members that woven code calls, in ascending order (`InstrumentationContext::members`). -/
def members (c : HookContext) : List MemberId :=
  let hooks := [c.init?, c.onEntry?, c.onExit?, c.onException?].map (·.map HookCall.member)
  let helpers := [c.accessor?, c.currentMethod?, c.join?, c.format?, c.writeLine?]
  ((hooks ++ helpers).filterMap id).foldr insertId []

/-- Tracing needs all of its helpers (`InstrumentationContext::can_trace`). -/
def canTrace (c : HookContext) : Bool := c.join?.isSome && c.format?.isSome && c.writeLine?.isSome

/-- The call of a hook with these arguments, which follow the receiver
(`InstrumentationContext::emit_hook`). -/
def emitHook (c : HookContext) (hook? : Option HookCall) (args : List Instruction) :
    Option (List Instruction) :=
  match hook? with
  | none => none
  | some hook =>
    if hook.hasThis then
      c.accessor?.map fun get => .call get :: args ++ [.callvirt hook.member]
    else some (args ++ [.call hook.member])

end HookContext

end Interpose
