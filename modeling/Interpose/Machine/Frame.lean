import Interpose.Body.Region
import Interpose.Machine.Failure
import Interpose.Member
import Interpose.Method
/-!
# One activation of a method

The state of a running method and the effect of one instruction on it. A call is not
carried out here: the step ends with the member, its arguments, and the state to go on
from.
-/
namespace Interpose

/-- A method made ready to run (`Code`). -/
structure Routine where
  typeName : String
  method : Method
  body : Body
  /-- The instructions by position. -/
  code : Array Instruction
  regions : List Region

/-- An exception that is being handled, and where its handler's code is. -/
structure Handling where
  range : Span
  exception : Value
deriving DecidableEq

/-- The state of a running method. -/
structure Frame where
  args : List Value
  locals : List Value
  /-- The evaluation stack, top first. -/
  stack : List Value := []
  /-- Exceptions being handled, the latest first. -/
  handling : List Handling := []
  pc : Nat := 0
deriving DecidableEq

/-- What an instruction does to its activation. -/
inductive Step
  | next (frame : Frame) (heap : Heap)
  | ret (value : Value)
  /-- A call. `keeps` tells whether its value goes on the stack of `frame`. -/
  | call (member : MemberRef) (args : List Value) (keeps : Bool) (frame : Frame)

namespace Routine

def fullName (r : Routine) : String := r.typeName ++ "::" ++ r.method.name

/-- The description of the method, as `GetCurrentMethod` gives it. -/
def describe (r : Routine) : Value := .method r.typeName r.method.name

/-- The position of a branch target (`Code::target`). -/
def target (r : Routine) (i : Instruction) : Except Trap Nat :=
  match i.target? with
  | none => .error (.fault (.code (.operandMismatch i.opcode)))
  | some id => (r.body.anchor id).mapError fun e => .fault (.code e)

end Routine

namespace Frame

def mismatch {α : Type} (f : Frame) (detail : Mismatch) : Except Trap α :=
  .error (.fault (.typeMismatch f.pc detail))

/-- Takes the top of the stack (`Frame::pop`). -/
def pop (f : Frame) : Except Trap (Value × Frame) :=
  match f.stack with
  | [] => .error (.fault (.stackUnderflow f.pc))
  | v :: rest => .ok (v, { f with stack := rest })

/-- Puts a value on the stack. -/
def push (f : Frame) (v : Value) : Frame := { f with stack := v :: f.stack }

/-- Takes the `n` topmost values, the deepest first (`Frame::pop_n`). -/
def popMany (f : Frame) (n : Nat) : Except Trap (List Value × Frame) :=
  if f.stack.length < n then .error (.fault (.stackUnderflow f.pc))
  else .ok ((f.stack.take n).reverse, { f with stack := f.stack.drop n })

/-- Goes on with the next instruction. -/
def advance (f : Frame) : Frame := { f with pc := f.pc + 1 }

/-- Goes on at a position. -/
def jump (f : Frame) (pos : Nat) : Frame := { f with pc := pos }

/-- Forgets the exceptions whose handlers' code this position is in. -/
def dropHandling (f : Frame) : Frame :=
  { f with handling := f.handling.filter fun h => !h.range.contains f.pc }

/-- Does a handler of this kind catch the exception? -/
def catches (v : Value) : HandlerKind → Bool
  | .catchAll => true
  | .catchClass name => v.className? == some name

/-- The state in the first handler that catches an exception raised here (`Vm::unwind`). -/
def catch? (f : Frame) (regions : List Region) (v : Value) : Option Frame :=
  (regions.find? fun r => r.tryRange.contains f.pc && catches v r.kind).map fun r =>
    { f with
      stack := [v]
      handling := ⟨r.handlerRange, v⟩ :: f.dropHandling.handling
      pc := r.handlerRange.start }

/-! ## Arithmetic -/

/-- A truth value as a number. -/
def ofBool (b : Bool) : Value := .int32 (if b then 1 else 0)

/-- Arithmetic and comparison of 32-bit numbers, which wrap. -/
def arith32 (op : Opcode) (a b : Int32) : Except Raise Value :=
  match op with
  | .add => .ok (.int32 (a + b))
  | .sub => .ok (.int32 (a - b))
  | .mul => .ok (.int32 (a * b))
  | .div => if b = 0 then .error .divideByZero else .ok (.int32 (a / b))
  | .rem => if b = 0 then .error .divideByZero else .ok (.int32 (a % b))
  | .clt => .ok (ofBool (a < b))
  | _ => .ok (ofBool (b < a))

/-- Arithmetic and comparison of 64-bit numbers, which wrap. -/
def arith64 (op : Opcode) (a b : Int64) : Except Raise Value :=
  match op with
  | .add => .ok (.int64 (a + b))
  | .sub => .ok (.int64 (a - b))
  | .mul => .ok (.int64 (a * b))
  | .div => if b = 0 then .error .divideByZero else .ok (.int64 (a / b))
  | .rem => if b = 0 then .error .divideByZero else .ok (.int64 (a % b))
  | .clt => .ok (ofBool (a < b))
  | _ => .ok (ofBool (b < a))

/-- Arithmetic and comparison of floating-point numbers. -/
def arithFloat (op : Opcode) (a b : Binary64) : Value :=
  match op with
  | .add => .float64 (a.add b)
  | .sub => .float64 (a.sub b)
  | .mul => .float64 (a.mul b)
  | .div => .float64 (a.div b)
  | .rem => .float64 (a.rem b)
  | .clt => ofBool (a.lt b)
  | _ => ofBool (b.lt a)

/-- Arithmetic and comparison, of numbers of one type. -/
def arith (f : Frame) (h : Heap) (op : Opcode) : Value → Value → Except Trap Value
  | .int32 a, .int32 b => (arith32 op a b).mapError .raise
  | .int64 a, .int64 b => (arith64 op a b).mapError .raise
  | .float64 a, .float64 b => .ok (arithFloat op a b)
  | a, b => f.mismatch (.arithmetic op (h.text a) (h.text b))

/-- The number with its sign changed. -/
def negate (f : Frame) (h : Heap) : Value → Except Trap Value
  | .int32 a => .ok (.int32 (-a))
  | .int64 a => .ok (.int64 (-a))
  | .float64 a => .ok (.float64 a.neg)
  | v => f.mismatch (.negation (h.text v))

/-! ## Arrays -/

/-- The elements of an array (`array_of`). Where there is none the position is not told. -/
def elementsOf (h : Heap) : Value → Except Trap (Array Value)
  | .null => .error (.raise .nullReference)
  | .array r => .ok (h.items r)
  | v => .error (.fault (.typeMismatch 0 (.notArray (h.text v))))

/-- An index below the size of an array (`element_index`). -/
def indexOf (index : Value) (size : Nat) : Except Trap Nat :=
  match index with
  | .int32 i =>
    if 0 ≤ i.toInt ∧ i.toInt < size then .ok i.toInt.toNat else .error (.raise .indexOutOfRange)
  | _ => .error (.raise .indexOutOfRange)

/-- The length of a new array. -/
def lengthOf (f : Frame) : Value → Except Trap Nat
  | .int32 n => if 0 ≤ n.toInt then .ok n.toInt.toNat else .error (.raise .overflow)
  | _ => f.mismatch .arrayLength

/-- Stores an element. -/
def store (f : Frame) (h : Heap) (array index v : Value) : Except Trap Heap :=
  match array with
  | .array r => do return h.write r (← indexOf index (h.items r).size) v
  | .null => .error (.raise .nullReference)
  | other => f.mismatch (.arrayStore (h.text other))

/-- What is in a box. -/
def unbox : Value → Except Trap Value
  | .boxed _ inner => .ok inner
  | .null => .error (.raise .nullReference)
  | _ => .error (.raise .invalidCast)

/-! ## Steps -/

/-- The failure of an opcode that cannot use its operand. -/
def wrongOperand {α : Type} (f : Frame) (i : Instruction) : Except Trap α :=
  f.mismatch (.wrongOperand i.opcode i.operand)

/-- Goes on with a value on the stack. -/
def give (f : Frame) (h : Heap) (v : Value) : Except Trap Step := .ok (.next (f.push v).advance h)

/-- Reads an argument. -/
def loadArg (f : Frame) (index : UInt16) : Except Trap Value :=
  match f.args[index.toNat]? with
  | some v => .ok v
  | none => f.mismatch (.noArgument index)

/-- Reads a slot. -/
def loadSlot (f : Frame) (id : SlotId) : Except Trap Value :=
  match f.locals[id.toNat]? with
  | some v => .ok v
  | none => f.mismatch (.noLocal id)

/-- Changes an argument. -/
def storeArg (f : Frame) (index : UInt16) (v : Value) : Except Trap Frame :=
  if index.toNat < f.args.length then .ok { f with args := f.args.set index.toNat v }
  else f.mismatch (.noArgument index)

/-- Changes a slot. -/
def storeSlot (f : Frame) (id : SlotId) (v : Value) : Except Trap Frame :=
  if id.toNat < f.locals.length then .ok { f with locals := f.locals.set id.toNat v }
  else f.mismatch (.noLocal id)

/-- Jumps if the top of the stack is as wanted. The target plays no part otherwise. -/
def branchIf (f : Frame) (r : Routine) (h : Heap) (i : Instruction) (wanted : Bool) :
    Except Trap Step := do
  let (v, f) ← f.pop
  if v.isTruthy = wanted then
    return .next (f.jump (← r.target i)) h
  else
    return .next f.advance h

/-- Takes the arguments of a call. A constructor call passes no receiver. -/
def beginCall (f : Frame) (imports : ImportTable) (i : Instruction) : Except Trap Step :=
  match i.operand with
  | .member id =>
    match imports.get? id with
    | none => .error (.fault (.code (.unknownMember id)))
    | some member => do
      let receiver := member.hasThis && i.opcode ≠ .newobj
      let (args, f) ← f.popMany (member.params.length + if receiver then 1 else 0)
      return .call member args (i.opcode == .newobj || !member.returnType.isVoid) f
  | _ => f.wrongOperand i

/-- Executes an instruction (`Vm::step`). -/
def step (f : Frame) (r : Routine) (imports : ImportTable) (h : Heap) (i : Instruction) :
    Except Trap Step :=
  match i.opcode with
  | .nop => .ok (.next f.advance h)
  | .ldnull => f.give h .null
  | .ldcI4 => match i.operand with
    | .int32 v => f.give h (.int32 v)
    | _ => f.wrongOperand i
  | .ldcI8 => match i.operand with
    | .int64 v => f.give h (.int64 v)
    | _ => f.wrongOperand i
  | .ldcR8 => match i.operand with
    | .float64 v => f.give h (.float64 v)
    | _ => f.wrongOperand i
  | .ldstr => match i.operand with
    | .text s => f.give h (.text s)
    | _ => f.wrongOperand i
  | .ldarg => match i.operand with
    | .argument index => do f.give h (← f.loadArg index)
    | _ => f.wrongOperand i
  | .starg => match i.operand with
    | .argument index => do
      let (v, f) ← f.pop
      return .next (← f.storeArg index v).advance h
    | _ => f.wrongOperand i
  | .ldloc => match i.operand with
    | .slot id => do f.give h (← f.loadSlot id)
    | _ => f.wrongOperand i
  | .stloc => match i.operand with
    | .slot id => do
      let (v, f) ← f.pop
      return .next (← f.storeSlot id v).advance h
    | _ => f.wrongOperand i
  | .dup => do
    let (v, f) ← f.pop
    (f.push v).give h v
  | .pop => do
    let (_, f) ← f.pop
    return .next f.advance h
  | .add | .sub | .mul | .div | .rem | .clt | .cgt => do
    let (b, f) ← f.pop
    let (a, f) ← f.pop
    f.give h (← f.arith h i.opcode a b)
  | .ceq => do
    let (b, f) ← f.pop
    let (a, f) ← f.pop
    f.give h (ofBool (a.equal b))
  | .neg => do
    let (v, f) ← f.pop
    f.give h (← f.negate h v)
  | .br => do return .next (f.jump (← r.target i)) h
  | .brtrue => f.branchIf r h i true
  | .brfalse => f.branchIf r h i false
  | .leave => do
    let pos ← r.target i
    return .next ({ f.dropHandling with stack := [] }.jump pos) h
  | .ret =>
    if r.method.returnType.isVoid then .ok (.ret .null)
    else do
      let (v, _) ← f.pop
      return .ret v
  | .throw => do
    let (v, _) ← f.pop
    if v.isNull then .error (.raise .nullReference)
    else .error (.failed (.thrown v))
  | .rethrow =>
    match f.handling with
    | [] => .error (.fault (.noActiveException f.pc))
    | active :: _ => .error (.failed (.thrown active.exception))
  | .call | .callvirt | .newobj => f.beginCall imports i
  | .newarr => match i.operand with
    | .ty element => do
      let (v, f) ← f.pop
      let (array, h) := h.alloc (Array.replicate (← f.lengthOf v) (.initial element))
      f.give h array
    | _ => f.wrongOperand i
  | .ldlen => do
    let (v, f) ← f.pop
    f.give h (.int32 (Int32.ofNat (← elementsOf h v).size))
  | .ldelem => do
    let (index, f) ← f.pop
    let (array, f) ← f.pop
    let items ← elementsOf h array
    f.give h (items[← indexOf index items.size]?.getD .null)
  | .stelem => do
    let (v, f) ← f.pop
    let (index, f) ← f.pop
    let (array, f) ← f.pop
    return .next f.advance (← f.store h array index v)
  | .box => match i.operand with
    | .ty t => do
      let (v, f) ← f.pop
      if t.isValueType then
        let (v, h) := h.newBox v
        f.give h v
      else f.give h v
    | _ => f.wrongOperand i
  | .unbox => match i.operand with
    | .ty _ => do
      let (v, f) ← f.pop
      f.give h (← unbox v)
    | _ => f.wrongOperand i

end Frame

end Interpose
