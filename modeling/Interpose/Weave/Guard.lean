import Interpose.Body.Basic
import Interpose.Weave.Symbol
/-!
# Guarding a body

A guard wraps a body from an anchor to its end in a region that catches everything:

    try:      start … body … leave EXIT       every return leaves for EXIT
    handler:  stloc exception, or pop
              what is done on an exception
              rethrow
              leave EXIT
    EXIT:     what is done on a return
              ldloc result, unless the method is void
              ret

The handler raises what it caught, so a caller sees the same exception, and the region
comes after all others, so it is the outermost.

Results:
* `size_appendAll`: appending a run adds its length.
-/
namespace Interpose

namespace Body

/-- Appends a run of instructions in order. -/
def appendAll (b : Body) : List Instruction → Body
  | [] => b
  | i :: rest => (b.pushBack i).2.appendAll rest

theorem size_pushBack (b : Body) (i : Instruction) : (b.pushBack i).2.size = b.size + 1 := by
  simp [pushBack, withFresh, size]

theorem size_appendAll (b : Body) (code : List Instruction) :
    (b.appendAll code).size = b.size + code.length := by
  induction code generalizing b with
  | nil => rfl
  | cons i rest ih =>
    rw [appendAll, ih, size_pushBack, List.length_cons]
    omega

/-- Ids of the return instructions, in order. -/
def returns (b : Body) : List InstructionId :=
  (b.stream.filter fun p => p.2.opcode == .ret).map (·.1)

/-- Makes a return leave for `exit`, its value stored first. -/
def leaveAtReturn (exit : InstructionId) (result? : Option SlotId) (b : Body)
    (ret : InstructionId) : Except CodeError Body :=
  match result? with
  | none => do
    let (_, b) ← b.replace ret (.leave exit)
    return b
  | some result => do
    let (_, b) ← b.replace ret (.stloc result)
    let (_, b) ← b.insertAfter ret (.leave exit)
    return b

/-- Makes each of these returns leave for `exit`. -/
def leaveAtReturns (exit : InstructionId) (result? : Option SlotId) (b : Body) :
    List InstructionId → Except CodeError Body
  | [] => .ok b
  | ret :: rest => do
    let b ← b.leaveAtReturn exit result? ret
    b.leaveAtReturns exit result? rest

end Body

/-- Closes the open ends of a handler. -/
def Handler.close (stop : InstructionId) (h : Handler) : Handler :=
  { h with
    tryEnd? := some (h.tryEnd?.getD stop)
    handlerEnd? := some (h.handlerEnd?.getD stop) }

structure Guard where
  /-- The slot that keeps the caught exception, if it is wanted. -/
  exception? : Option SlotId := none
  /-- Done before the exception is raised again. -/
  onException : List Instruction := []
  /-- Done before a return, ahead of loading the result. -/
  onReturn : List Instruction := []

/-- What a guard put into a body. -/
structure GuardedRegion where
  handler : Handler
  exit : InstructionId
  result? : Option SlotId
  exception? : Option SlotId
  /-- Number of returns that now leave the region. -/
  returnsReplaced : Nat

namespace Guard

/-- Keeps the caught exception in a slot of its own (`ExceptionGuard::capture_exception`). Asking
again gives the same slot. -/
def captureException (g : Guard) (b : Body) : Except CodeError (SlotId × Guard × Body) :=
  match g.exception? with
  | some slot => .ok (slot, g, b)
  | none => do
    let (slot, b) ← b.addSynthetic (.named exceptionType) "<>exception"
    return (slot, { g with exception? := some slot }, b)

/-- Declares the slot of the return value, unless the method is void. -/
def declareResult (b : Body) (returnType : Ty) : Except CodeError (Option SlotId × Body) :=
  if returnType.isVoid then .ok (none, b)
  else do
    let (slot, b) ← b.addSynthetic returnType "<>result"
    return (some slot, b)

/-- The code after the guarded part: the leave at its end, the handler, and the exit. -/
def epilogue (g : Guard) (exit : InstructionId) (result? : Option SlotId) : List Instruction :=
  let keep := match g.exception? with
    | some slot => Instruction.stloc slot
    | none => .plain .pop
  [.leave exit, keep] ++ g.onException ++ [.plain .rethrow, .leave exit] ++
    g.onReturn ++ (result?.map Instruction.ldloc).toList ++ [.plain .ret]

/-- Guards a body from `start` to its end (`ExceptionGuard::wrap`). -/
def wrap (g : Guard) (b : Body) (start : InstructionId) (returnType : Ty) :
    Except CodeError (GuardedRegion × Body) := do
  let returns := b.returns
  let (result?, b) ← declareResult b returnType
  let fallthrough := b.size
  let handlerStart := fallthrough + 1
  let exit := fallthrough + 4 + g.onException.length
  let handler : Handler := ⟨.catchAll, start, some handlerStart, handlerStart, some exit⟩
  let handlers := b.handlers.map (·.close fallthrough) ++ [handler]
  let b ← (b.appendAll (g.epilogue exit result?)).leaveAtReturns exit result? returns
  return (⟨handler, exit, result?, g.exception?, returns.length⟩, { b with handlers := handlers })

end Guard

end Interpose
