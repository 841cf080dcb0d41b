import Interpose.CodeError
/-!
# Method bodies

A body is a stream of instructions, each under an id that edits never change or use
again, with local slots and exception handlers. Ids are `0 … n-1` in some order, so a
fresh instruction takes the number of instructions as its id, and branch targets and
handler anchors need no mending when instructions are inserted.

Results:
* `mem_ids`: the ids of a body are the numbers below its size.
* `nodup_ids`: no id occurs twice.
* `ids_pushBack`, `ids_insertBefore`, `ids_insertAfter`: where a fresh id goes.
-/
namespace Interpose

/-- A local slot (`Local`). -/
structure Slot where
  ty : Ty
  name? : Option String := none
  /-- Introduced by weaving, not declared. -/
  synthetic : Bool := false
deriving DecidableEq

/-- Which exceptions a handler catches. -/
inductive HandlerKind
  | catchAll
  /-- Exceptions of exactly this class. -/
  | catchClass (name : String)
deriving DecidableEq

/-- An exception handler (`ExceptionHandler`). End anchors are exclusive; where there is none the
range ends with the body. -/
structure Handler where
  kind : HandlerKind
  tryStart : InstructionId
  tryEnd? : Option InstructionId := none
  handlerStart : InstructionId
  handlerEnd? : Option InstructionId := none
deriving DecidableEq

/-- A method body. -/
structure Body where
  /-- Ids and instructions in the order of execution. -/
  stream : List (InstructionId × Instruction) := []
  locals : Array Slot := #[]
  handlers : List Handler := []
  maxStack : UInt16 := 0
  /-- The ids are the numbers below the size. -/
  ids_perm : (stream.map (·.1)).Perm (List.range stream.length) := by exact .refl _

namespace Body

/-- The body without instructions. -/
def empty : Body := {}

instance : Inhabited Body := ⟨empty⟩

/-- Number of instructions. -/
def size (b : Body) : Nat := b.stream.length

/-- Ids in the order of execution. -/
def ids (b : Body) : List InstructionId := b.stream.map (·.1)

/-- Instructions in the order of execution. -/
def code (b : Body) : List Instruction := b.stream.map (·.2)

def first? (b : Body) : Option InstructionId := b.ids.head?

def last? (b : Body) : Option InstructionId := b.ids.getLast?

def contains (b : Body) (id : InstructionId) : Bool := b.ids.contains id

/-- The instruction with this id. -/
def get? (b : Body) (id : InstructionId) : Option Instruction := b.stream.lookup id

/-- The position of an id in the order of execution (`Body::positions`). -/
def position? (b : Body) (id : InstructionId) : Option Nat := b.ids.idxOf? id

/-- The position of an id that must belong to the body. -/
def anchor (b : Body) (id : InstructionId) : Except CodeError Nat :=
  match b.position? id with
  | some pos => .ok pos
  | none => .error (.unknownInstruction id)

/-- The element of a list right after the first `a`. -/
def after? (a : InstructionId) : List InstructionId → Option InstructionId
  | x :: y :: rest => if x = a then some y else after? a (y :: rest)
  | _ => none

/-- The id that follows in the order of execution. -/
def next? (b : Body) (id : InstructionId) : Option InstructionId := after? id b.ids

/-- The id that comes before in the order of execution. -/
def prev? (b : Body) (id : InstructionId) : Option InstructionId := after? id b.ids.reverse

theorem mem_ids (b : Body) (id : InstructionId) : id ∈ b.ids ↔ id < b.size := by
  rw [ids, b.ids_perm.mem_iff, List.mem_range, size]

theorem nodup_ids (b : Body) : b.ids.Nodup := b.ids_perm.nodup_iff.2 List.nodup_range

/-! ## Building -/

/-- The stream of a straight sequence: ids in list order. -/
def number : Nat → List Instruction → List (InstructionId × Instruction)
  | _, [] => []
  | n, i :: rest => (n, i) :: number (n + 1) rest

theorem map_fst_number (n : Nat) (code : List Instruction) :
    (number n code).map (·.1) = List.range' n code.length := by
  induction code generalizing n with
  | nil => rfl
  | cons i rest ih => simp [number, ih, List.range'_succ]

theorem length_number (n : Nat) (code : List Instruction) :
    (number n code).length = code.length := by
  simpa using congrArg List.length (map_fst_number n code)

/-- A body of these instructions, with ids in list order (`Body::from_instructions`). -/
def ofList (code : List Instruction) : Body where
  stream := number 0 code
  ids_perm := by rw [map_fst_number, length_number, List.range_eq_range']

/-- The same body with a fresh instruction somewhere in its stream. -/
def withFresh (b : Body) (i : Instruction) (stream : List (InstructionId × Instruction))
    (h : stream.Perm ((b.size, i) :: b.stream)) : Body where
  stream := stream
  locals := b.locals
  handlers := b.handlers
  maxStack := b.maxStack
  ids_perm := by
    have ids : (stream.map (·.1)).Perm (b.size :: List.range b.stream.length) :=
      (h.map Prod.fst).trans (.cons b.size b.ids_perm)
    rw [h.length_eq, List.length_cons, List.range_succ]
    exact ids.trans (List.perm_append_singleton ..).symm

/-! ## Edits -/

/-- Appends an instruction; gives its id (`Body::push_back`). -/
def pushBack (b : Body) (i : Instruction) : InstructionId × Body :=
  (b.size, b.withFresh i (b.stream ++ [(b.size, i)]) (List.perm_append_singleton ..))

/-- The list with `x` before the first entry with id `anchor`, at the end if there is
none. -/
def placeBefore (anchor : InstructionId) (x : InstructionId × Instruction) :
    List (InstructionId × Instruction) → List (InstructionId × Instruction)
  | [] => [x]
  | p :: rest => if p.1 = anchor then x :: p :: rest else p :: placeBefore anchor x rest

/-- The list with `x` after the first entry with id `anchor`, at the end if there is
none. -/
def placeAfter (anchor : InstructionId) (x : InstructionId × Instruction) :
    List (InstructionId × Instruction) → List (InstructionId × Instruction)
  | [] => [x]
  | p :: rest => if p.1 = anchor then p :: x :: rest else p :: placeAfter anchor x rest

theorem placeBefore_perm (anchor : InstructionId) (x : InstructionId × Instruction)
    (l : List (InstructionId × Instruction)) : (placeBefore anchor x l).Perm (x :: l) := by
  induction l with
  | nil => exact .refl _
  | cons p rest ih =>
    rw [placeBefore]
    split
    · exact .refl _
    · exact (ih.cons p).trans (.swap x p rest)

theorem placeAfter_perm (anchor : InstructionId) (x : InstructionId × Instruction)
    (l : List (InstructionId × Instruction)) : (placeAfter anchor x l).Perm (x :: l) := by
  induction l with
  | nil => exact .refl _
  | cons p rest ih =>
    rw [placeAfter]
    split
    · exact .swap x p rest
    · exact (ih.cons p).trans (.swap x p rest)

/-- Inserts an instruction before another; gives its id (`Body::insert_before`). -/
def insertBefore (b : Body) (anchor : InstructionId) (i : Instruction) :
    Except CodeError (InstructionId × Body) :=
  if b.contains anchor then
    .ok (b.size, b.withFresh i (placeBefore anchor (b.size, i) b.stream) (placeBefore_perm ..))
  else .error (.unknownInstruction anchor)

/-- Inserts an instruction after another; gives its id (`Body::insert_after`). -/
def insertAfter (b : Body) (anchor : InstructionId) (i : Instruction) :
    Except CodeError (InstructionId × Body) :=
  if b.contains anchor then
    .ok (b.size, b.withFresh i (placeAfter anchor (b.size, i) b.stream) (placeAfter_perm ..))
  else .error (.unknownInstruction anchor)

/-- Inserts a run of instructions after another, in order; gives the id of the last, or `anchor`
for an empty run (`Body::insert_all_after`). -/
def insertAllAfter (b : Body) (anchor : InstructionId) :
    List Instruction → Except CodeError (InstructionId × Body)
  | [] => .ok (anchor, b)
  | i :: rest => do
    let (id, b) ← b.insertAfter anchor i
    b.insertAllAfter id rest

/-- The list with the entry of this id replaced. -/
def putAt (id : InstructionId) (i : Instruction) (l : List (InstructionId × Instruction)) :
    List (InstructionId × Instruction) :=
  l.map fun p => if p.1 = id then (p.1, i) else p

theorem map_fst_putAt (id : InstructionId) (i : Instruction)
    (l : List (InstructionId × Instruction)) : (putAt id i l).map (·.1) = l.map (·.1) := by
  induction l with
  | nil => rfl
  | cons p rest ih =>
    rw [putAt] at ih
    simp only [putAt, List.map_cons, ih]
    split <;> rfl

/-- Puts an instruction in place of another, under its id; gives the old one (`Body::replace`). -/
def replace (b : Body) (id : InstructionId) (i : Instruction) :
    Except CodeError (Instruction × Body) :=
  match b.get? id with
  | none => .error (.unknownInstruction id)
  | some old => .ok (old, { b with
      stream := putAt id i b.stream
      ids_perm := by rw [map_fst_putAt, putAt, List.length_map]; exact b.ids_perm })

/-- Declares a slot; gives its id (`Body::push_local`). -/
def addSlot (b : Body) (s : Slot) : Except CodeError (SlotId × Body) :=
  let n := b.locals.size
  if n < 0x10000 then .ok (UInt16.ofNat n, { b with locals := b.locals.push s })
  else .error (.tooManySlots (n + 1))

/-- Declares an unnamed slot (`Body::add_variable`). -/
def addVariable (b : Body) (ty : Ty) : Except CodeError (SlotId × Body) :=
  b.addSlot ⟨ty, none, false⟩

/-- Declares a slot of the weaver's own (`Body::add_synthetic`). It is a new slot also if another
has its name. -/
def addSynthetic (b : Body) (ty : Ty) (name : String) : Except CodeError (SlotId × Body) :=
  b.addSlot ⟨ty, some name, true⟩

def local? (b : Body) (id : SlotId) : Option Slot := b.locals[id.toNat]?

theorem ids_pushBack (b : Body) (i : Instruction) :
    (b.pushBack i).2.ids = b.ids ++ [b.size] := by
  simp [pushBack, withFresh, ids]

theorem ids_insertBefore {b b' : Body} {anchor id : InstructionId} {i : Instruction}
    (h : b.insertBefore anchor i = .ok (id, b')) :
    id = b.size ∧ ∃ front back, b.ids = front ++ anchor :: back ∧
      b'.ids = front ++ id :: anchor :: back := by
  have place (x : InstructionId × Instruction) (l : List (InstructionId × Instruction))
      (hm : anchor ∈ l.map (·.1)) : ∃ front back, l.map (·.1) = front ++ anchor :: back ∧
      (placeBefore anchor x l).map (·.1) = front ++ x.1 :: anchor :: back := by
    induction l with
    | nil => simp at hm
    | cons p rest ih =>
      by_cases hp : p.1 = anchor
      · exact ⟨[], rest.map (·.1), by simp [hp], by simp [placeBefore, hp]⟩
      · obtain ⟨front, back, e, e'⟩ := ih (by
          simpa [Ne.symm hp] using hm)
        exact ⟨p.1 :: front, back, by simp [e], by simp [placeBefore, hp, e']⟩
  rw [insertBefore] at h
  split at h
  · next hc =>
    cases h
    exact ⟨rfl, place (b.size, i) b.stream (by simpa [contains, ids] using hc)⟩
  · cases h

theorem ids_insertAfter {b b' : Body} {anchor id : InstructionId} {i : Instruction}
    (h : b.insertAfter anchor i = .ok (id, b')) :
    id = b.size ∧ ∃ front back, b.ids = front ++ anchor :: back ∧
      b'.ids = front ++ anchor :: id :: back := by
  have place (x : InstructionId × Instruction) (l : List (InstructionId × Instruction))
      (hm : anchor ∈ l.map (·.1)) : ∃ front back, l.map (·.1) = front ++ anchor :: back ∧
      (placeAfter anchor x l).map (·.1) = front ++ anchor :: x.1 :: back := by
    induction l with
    | nil => simp at hm
    | cons p rest ih =>
      by_cases hp : p.1 = anchor
      · exact ⟨[], rest.map (·.1), by simp [hp], by simp [placeAfter, hp]⟩
      · obtain ⟨front, back, e, e'⟩ := ih (by
          simpa [Ne.symm hp] using hm)
        exact ⟨p.1 :: front, back, by simp [e], by simp [placeAfter, hp, e']⟩
  rw [insertAfter] at h
  split at h
  · next hc =>
    cases h
    exact ⟨rfl, place (b.size, i) b.stream (by simpa [contains, ids] using hc)⟩
  · cases h

end Body

end Interpose
