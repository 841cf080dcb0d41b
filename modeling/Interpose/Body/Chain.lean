import Interpose.Body.Labelled
/-!
# Bodies as linked chains

How a body is stored. The instructions stand in a table at the places that their ids name,
each with the ids before and after it in the order of execution; beside the table are the
ids at both ends. A new instruction goes to the end of the table, and the links on either
side of it are mended.

Calls work in place: one that fails leaves what it has done so far.

Results:
* `size_splice`: putting an instruction in adds one entry.
-/
namespace Interpose

/-- An instruction and its neighbours in the order of execution. -/
structure Link where
  instruction : Instruction
  prev? : Option InstructionId
  next? : Option InstructionId
deriving DecidableEq

/-- The stored form of a body. -/
structure Chain where
  links : Array Link := #[]
  first? : Option InstructionId := none
  last? : Option InstructionId := none
  locals : Array Slot := #[]
  handlers : List Handler := []

namespace Chain

/-- A call that changes a chain. -/
abbrev Call := EStateM CodeError Chain

/-- Number of instructions, and the next id. -/
def size (c : Chain) : Nat := c.links.size

def contains (c : Chain) (id : InstructionId) : Bool := id < c.size

/-- The instruction with this id. -/
def get? (c : Chain) (id : InstructionId) : Option Instruction := c.links[id]?.map (·.instruction)

/-- The id that follows in the order of execution. -/
def next? (c : Chain) (id : InstructionId) : Option InstructionId := c.links[id]?.bind (·.next?)

/-- The id that comes before in the order of execution. -/
def prev? (c : Chain) (id : InstructionId) : Option InstructionId := c.links[id]?.bind (·.prev?)

/-- At most `n` entries from a cursor on, in the order of execution (`Iter::next`). -/
def walk (c : Chain) : Nat → Option InstructionId → List (InstructionId × Instruction)
  | n + 1, some id =>
    match c.links[id]? with
    | some link => (id, link.instruction) :: c.walk n link.next?
    | none => []
  | _, _ => []

/-- The entries in the order of execution. -/
def stream (c : Chain) : List (InstructionId × Instruction) := c.walk c.size c.first?

/-- Ids in the order of execution. -/
def ids (c : Chain) : List InstructionId := c.stream.map (·.1)

/-- The position of an id in the order of execution. -/
def position? (c : Chain) (id : InstructionId) : Option Nat := c.ids.idxOf? id

/-- Ids of the return instructions, in order. -/
def returns (c : Chain) : List InstructionId :=
  (c.stream.filter fun p => p.2.opcode == .ret).map (·.1)

/-! ## Links -/

/-- Makes `id` what follows an id; it is the first if there is none before. -/
def setNext (id : InstructionId) (prev? : Option InstructionId) (c : Chain) : Chain :=
  match prev? with
  | some p => { c with links := c.links.modify p ({ · with next? := some id }) }
  | none => { c with first? := some id }

/-- Makes `id` what comes before an id; it is the last if there is none after. -/
def setPrev (id : InstructionId) (next? : Option InstructionId) (c : Chain) : Chain :=
  match next? with
  | some n => { c with links := c.links.modify n ({ · with prev? := some id }) }
  | none => { c with last? := some id }

/-- Makes an entry between two neighbours and links them to it (`Body::alloc`). -/
def splice (prev? next? : Option InstructionId) (i : Instruction) (c : Chain) : Chain :=
  setPrev c.size next? (setNext c.size prev? { c with links := c.links.push ⟨i, prev?, next?⟩ })

theorem size_splice (c : Chain) (prev? next? : Option InstructionId) (i : Instruction) :
    (c.splice prev? next? i).size = c.size + 1 := by
  cases prev? <;> cases next? <;> simp [splice, setNext, setPrev, size]

/-- The chain with an instruction at its end. -/
def append (c : Chain) (i : Instruction) : Chain := c.splice c.last? none i

/-- A chain of these instructions, appended one by one. -/
def ofList (code : List Instruction) : Chain := code.foldl append {}

/-! ## Calls -/

/-- Appends an instruction; gives its id (`Body::push_back`). -/
def pushBack (i : Instruction) : Call InstructionId := fun c => .ok c.size (c.append i)

/-- Inserts an instruction before another; gives its id (`Body::insert_before`). -/
def insertBefore (anchor : InstructionId) (i : Instruction) : Call InstructionId := fun c =>
  match c.links[anchor]? with
  | some link => .ok c.size (c.splice link.prev? (some anchor) i)
  | none => .error (.unknownInstruction anchor) c

/-- Inserts an instruction after another; gives its id (`Body::insert_after`). -/
def insertAfter (anchor : InstructionId) (i : Instruction) : Call InstructionId := fun c =>
  match c.links[anchor]? with
  | some link => .ok c.size (c.splice (some anchor) link.next? i)
  | none => .error (.unknownInstruction anchor) c

/-- Inserts a run of instructions after another, in order; gives the id of the last, or `anchor`
for an empty run (`Body::insert_all_after`). -/
def insertAllAfter (anchor : InstructionId) : List Instruction → Call InstructionId
  | [] => return anchor
  | i :: rest => do
    let id ← insertAfter anchor i
    insertAllAfter id rest

/-- Appends a run of instructions in order; gives the id of the first. -/
def pushAll : List Instruction → Call InstructionId
  | [] => return (← get).size
  | i :: rest => do
    let id ← pushBack i
    discard (pushAll rest)
    return id

/-- Puts an instruction in place of another, under its id; gives the old one (`Body::replace`). -/
def replace (id : InstructionId) (i : Instruction) : Call Instruction := fun c =>
  match c.links[id]? with
  | some link =>
    .ok link.instruction { c with links := c.links.modify id ({ · with instruction := i }) }
  | none => .error (.unknownInstruction id) c

/-- Declares a slot; gives its id (`Body::push_local`). -/
def addSlot (s : Slot) : Call SlotId := fun c =>
  let n := c.locals.size
  if n < 0x10000 then .ok (UInt16.ofNat n) { c with locals := c.locals.push s }
  else .error (.tooManySlots (n + 1)) c

/-- The chain that a call leaves, also when it fails. -/
def after {α : Type} (c : Chain) (call : Call α) : Chain :=
  match call c with
  | .ok _ c => c
  | .error _ c => c

end Chain

/-- Reads a labelled body into a chain, its instructions appended one by one (`Body::try_from`). -/
def LabelledBody.load (l : LabelledBody) : Except CodeError Chain := do
  let b ← l.decode
  return { Chain.ofList b.code with locals := b.locals, handlers := b.handlers }

end Interpose
