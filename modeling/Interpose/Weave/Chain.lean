import Interpose.Body.Chain
import Interpose.Weave.Guard
/-!
# Guarding a chain

The guard as it edits a stored body, step by step, and every call that edits a body as
data, so that a body and a chain can be edited side by side.
-/
namespace Interpose

/-- What a handler does first: it keeps the exception, or drops it. -/
def Guard.keep (g : Guard) : Instruction :=
  match g.exception? with
  | some slot => .stloc slot
  | none => .plain .pop

namespace Chain

/-- Makes a return leave for `exit`, its value stored first. -/
def leaveAtReturn (exit : InstructionId) (result? : Option SlotId) (ret : InstructionId) :
    Call Unit :=
  match result? with
  | none => discard (replace ret (.leave exit))
  | some result => do
    discard (replace ret (.stloc result))
    discard (insertAfter ret (.leave exit))

/-- Makes each of these returns leave for `exit`. -/
def leaveAtReturns (exit : InstructionId) (result? : Option SlotId) :
    List InstructionId → Call Unit
  | [] => return ()
  | ret :: rest => do
    leaveAtReturn exit result? ret
    leaveAtReturns exit result? rest

/-- Declares the slot of the return value, unless the method is void. -/
def declareResult (returnType : Ty) : Call (Option SlotId) :=
  if returnType.isVoid then return none
  else return some (← addSlot ⟨returnType, some "<>result", true⟩)

/-- Appends the code after the guarded part; gives the ids of the handler and the exit. Where
control leaves for the exit there is a `nop` until the exit has its id. -/
def appendEpilogue (g : Guard) (result? : Option SlotId) :
    Call (InstructionId × InstructionId) := do
  let fallthrough ← pushBack (.plain .nop)
  modify fun c => { c with handlers := c.handlers.map (·.close fallthrough) }
  let handlerStart ← pushBack g.keep
  discard (pushAll g.onException)
  discard (pushBack (.plain .rethrow))
  let handlerLeave ← pushBack (.plain .nop)
  let exit ← pushAll (g.onReturn ++ (result?.map Instruction.ldloc).toList ++ [.plain .ret])
  discard (replace fallthrough (.leave exit))
  discard (replace handlerLeave (.leave exit))
  return (handlerStart, exit)

/-- Guards a chain from `start` to its end (`ExceptionGuard::wrap`). -/
def wrap (g : Guard) (start : InstructionId) (returnType : Ty) : Call GuardedRegion := do
  let returns := (← get).returns
  let result? ← declareResult returnType
  let (handlerStart, exit) ← appendEpilogue g result?
  leaveAtReturns exit result? returns
  let handler : Handler := ⟨.catchAll, start, some handlerStart, handlerStart, some exit⟩
  modify fun c => { c with handlers := c.handlers ++ [handler] }
  return ⟨handler, exit, result?, g.exception?, returns.length⟩

end Chain

/-! ## Edits -/

/-- A call that edits a body. -/
inductive Edit
  | pushBack (i : Instruction)
  | insertBefore (anchor : InstructionId) (i : Instruction)
  | insertAfter (anchor : InstructionId) (i : Instruction)
  | insertAllAfter (anchor : InstructionId) (code : List Instruction)
  | replace (id : InstructionId) (i : Instruction)
  | addVariable (ty : Ty)
  | addSynthetic (ty : Ty) (name : String)
  | wrap (g : Guard) (start : InstructionId) (returnType : Ty)

/-- The chain after an edit. -/
def Chain.edit (c : Chain) : Edit → Chain
  | .pushBack i => c.after (pushBack i)
  | .insertBefore anchor i => c.after (insertBefore anchor i)
  | .insertAfter anchor i => c.after (insertAfter anchor i)
  | .insertAllAfter anchor code => c.after (insertAllAfter anchor code)
  | .replace id i => c.after (replace id i)
  | .addVariable ty => c.after (addSlot ⟨ty, none, false⟩)
  | .addSynthetic ty name => c.after (addSlot ⟨ty, some name, true⟩)
  | .wrap g start returnType => c.after (wrap g start returnType)

namespace Body

/-- The body that a call leaves: its own if the call fails. -/
def after {α : Type} (b : Body) : Except CodeError (α × Body) → Body
  | .ok (_, b) => b
  | .error _ => b

/-- The body after an edit. -/
def edit (b : Body) : Edit → Body
  | .pushBack i => (b.pushBack i).2
  | .insertBefore anchor i => b.after (b.insertBefore anchor i)
  | .insertAfter anchor i => b.after (b.insertAfter anchor i)
  | .insertAllAfter anchor code => b.after (b.insertAllAfter anchor code)
  | .replace id i => b.after (b.replace id i)
  | .addVariable ty => b.after (b.addVariable ty)
  | .addSynthetic ty name => b.after (b.addSynthetic ty name)
  | .wrap g start returnType => b.after (g.wrap b start returnType)

end Body

end Interpose
