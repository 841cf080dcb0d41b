import Interpose.CodeError
import Interpose.Machine.Value
/-!
# How a run fails

A run that gives no value ends with an exception that nothing caught, or with a fault,
which nothing can catch. An instruction that fails can also ask for a new exception of
a class that the machine knows.
-/
namespace Interpose

/-- What an instruction was given that it cannot use. Values are held as texts. -/
inductive Mismatch
  | noArgument (index : UInt16)
  | noLocal (id : SlotId)
  | wrongOperand (op : Opcode) (operand : Operand)
  | arithmetic (op : Opcode) (first second : String)
  | negation (value : String)
  | arrayLength
  | notArray (value : String)
  | arrayStore (value : String)
deriving DecidableEq

def Mismatch.text : Mismatch → String
  | noArgument index => "no argument " ++ toString index.toNat
  | noLocal id => "no local " ++ SlotId.text id
  | wrongOperand op operand => ticked op.mnemonic ++ " with operand " ++ operand.inspect
  | arithmetic op first second => ticked op.mnemonic ++ " on " ++ first ++ " and " ++ second
  | negation value => "cannot negate " ++ value
  | arrayLength => "array length must be int32"
  | notArray value => value ++ " is not an array"
  | arrayStore value => "stelem on " ++ value

/-- What no handler catches (`VmError`). -/
inductive MachineFault
  | unknownType (name : String)
  | unknownMethod (name : String)
  | noBody (name : String)
  | argumentCount (method : String) (expected found : Nat)
  | stackUnderflow (pos : Nat)
  | typeMismatch (pos : Nat) (detail : Mismatch)
  | unresolvedCall (name : String)
  | noActiveException (pos : Nat)
  | fellOffEnd (name : String)
  | callDepth (limit : Nat)
  | code (cause : CodeError)
deriving DecidableEq

def MachineFault.message : MachineFault → String
  | unknownType name => "Type " ++ ticked name ++ " not found"
  | unknownMethod name => "Method " ++ ticked name ++ " not found"
  | noBody name => "Method " ++ ticked name ++ " has no body"
  | argumentCount method expected found =>
    ticked method ++ " expects " ++ toString expected ++ " arguments, got " ++ toString found
  | stackUnderflow pos => "Stack underflow at " ++ location pos
  | typeMismatch pos detail => "Type mismatch at " ++ location pos ++ ": " ++ detail.text
  | unresolvedCall name => "No implementation for " ++ ticked name
  | noActiveException pos => "`rethrow` with no exception being handled at " ++ location pos
  | fellOffEnd name => "Control ran past the end of " ++ ticked name
  | callDepth limit => "Call depth limit (" ++ toString limit ++ ") exceeded"
  | code cause => cause.message

/-- How a run ends without a value. -/
inductive Failure
  | thrown (exception : Value)
  | fault (cause : MachineFault)
deriving DecidableEq

/-- What is said of a failure, with the heap as the failure leaves it. -/
def Failure.message (h : Heap) : Failure → String
  | thrown exception => "Unhandled exception: " ++ h.text exception
  | fault cause => cause.message

/-- A new exception that the machine asks for. -/
structure Raise where
  className : String
  message : String
deriving DecidableEq

namespace Raise

def nullReferenceOf (message : String) : Raise := ⟨"System.NullReferenceException", message⟩

def nullReference : Raise :=
  nullReferenceOf "Object reference not set to an instance of an object."

def divideByZero : Raise := ⟨"System.DivideByZeroException", "Attempted to divide by zero."⟩

def indexOutOfRange : Raise :=
  ⟨"System.IndexOutOfRangeException", "Index was outside the bounds of the array."⟩

def invalidCast : Raise := ⟨"System.InvalidCastException", "Specified cast is not valid."⟩

def overflow : Raise :=
  ⟨"System.OverflowException", "Arithmetic operation resulted in an overflow."⟩

end Raise

/-- How an instruction fails. -/
inductive Trap
  | raise (exception : Raise)
  | failed (failure : Failure)
deriving DecidableEq

/-- A fault as the failure of an instruction. -/
def Trap.fault (cause : MachineFault) : Trap := .failed (.fault cause)

/-- The failure, once a new exception is made. -/
def Trap.settle (h : Heap) : Trap → Failure × Heap
  | raise e =>
    let (v, h) := h.newObject e.className e.message
    (.thrown v, h)
  | failed f => (f, h)

end Interpose
