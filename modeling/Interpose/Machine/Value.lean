import Interpose.Decimal.Layout
import Interpose.Ty
/-!
# Values and the heap

What the machine computes with. Arrays live in the heap and can change; objects and
boxes cannot, and carry an identity beside their contents. Numbers, texts and boxes are
equal if their contents are, arrays and objects if they are the same one.

Results:
* `equal_refl`: a value equals itself, also a NaN.
* `items_alloc`: a fresh array holds what it was made of.
* `items_alloc_of_lt`, `items_write_of_ne`: other arrays keep their contents.
-/
namespace Interpose

/-- Identity of an array, an object or a box. -/
abbrev Ref := Nat

inductive Value
  | null
  | int32 (v : Int32)
  | int64 (v : Int64)
  | float64 (v : Binary64)
  | text (s : String)
  /-- A value of a value type, stored as an object. -/
  | boxed (ref : Ref) (inner : Value)
  | array (ref : Ref)
  | object (ref : Ref) (className message : String)
  /-- The description of a method. -/
  | method (typeName name : String)
  /-- The receiver of the hooks. -/
  | dispatcher
deriving DecidableEq, Inhabited

namespace Value

/-- What slots and array elements of this type hold at first (`Value::default_for`). -/
def initial : Ty → Value
  | .bool | .int32 => int32 0
  | .int64 => int64 0
  | .float64 => float64 .zero
  | _ => null

def isNull : Value → Bool
  | null => true
  | _ => false

/-- Does a conditional branch take this value for true (`Value::is_truthy`)? -/
def isTruthy : Value → Bool
  | null => false
  | int32 v => v ≠ 0
  | int64 v => v ≠ 0
  | float64 v => !v.isZero
  | _ => true

/-- The value without one box around it. -/
def unboxed : Value → Value
  | boxed _ inner => inner
  | v => v

/-- Are both the same array, object or box (`Value::same_identity`)? -/
def same : Value → Value → Bool
  | boxed r _, boxed s _ => r == s
  | array r, array s => r == s
  | object r _ _, object s _ _ => r == s
  | _, _ => false

/-- Equality as programs see it (`Value::eq`). -/
def equal : Value → Value → Bool
  | null, null => true
  | int32 a, int32 b => a == b
  | int64 a, int64 b => a == b
  | float64 a, float64 b => a == b
  | text a, text b => a == b
  | boxed _ a, boxed _ b => equal a b
  | array r, array s => r == s
  | object r _ _, object s _ _ => r == s
  | method t n, method u o => t == u && n == o
  | dispatcher, dispatcher => true
  | _, _ => false

theorem equal_refl (v : Value) : v.equal v = true := by
  induction v with
  | null | dispatcher => rfl
  | boxed _ _ ih => exact ih
  | method _ _ => exact Bool.and_eq_true_iff.2 ⟨beq_self_eq_true _, beq_self_eq_true _⟩
  | _ => exact beq_self_eq_true _

/-- The class of an exception. -/
def className? : Value → Option String
  | object _ name _ => some name
  | _ => none

/-- The text of a value, where `items` gives the text of an array. -/
def textWith (items : Ref → String) : Value → String
  | null => "null"
  | int32 v => toString v.toInt
  | int64 v => toString v.toInt
  | float64 v => Decimal.Layout.plain.text v
  | text s => s
  | boxed _ inner => textWith items inner
  | array r => items r
  | object _ name message => name ++ ": " ++ message
  | method typeName name => typeName ++ "::" ++ name
  | dispatcher => "<dispatcher>"

end Value

/-- The arrays there are, and the identities given away. -/
structure Heap where
  arrays : Array (Array Value) := #[]
  /-- The next identity of an object or a box. -/
  fresh : Ref := 0
deriving Inhabited

namespace Heap

/-- The elements of an array. -/
def items (h : Heap) (r : Ref) : Array Value := h.arrays[r]?.getD #[]

/-- Makes an array. -/
def alloc (h : Heap) (items : Array Value) : Value × Heap :=
  (.array h.arrays.size, { h with arrays := h.arrays.push items })

/-- Makes an object. -/
def newObject (h : Heap) (className message : String) : Value × Heap :=
  (.object h.fresh className message, { h with fresh := h.fresh + 1 })

/-- Puts a box around a value. -/
def newBox (h : Heap) (v : Value) : Value × Heap :=
  (.boxed h.fresh v, { h with fresh := h.fresh + 1 })

/-- Changes an element of an array. -/
def write (h : Heap) (r : Ref) (index : Nat) (v : Value) : Heap :=
  { h with arrays := h.arrays.modify r (·.setIfInBounds index v) }

theorem items_alloc (h : Heap) (items : Array Value) :
    (h.alloc items).2.items h.arrays.size = items := by
  simp [alloc, Heap.items]

theorem items_alloc_of_lt (h : Heap) (items : Array Value) {r : Ref} (hr : r < h.arrays.size) :
    (h.alloc items).2.items r = h.items r := by
  simp [alloc, Heap.items, Array.getElem?_push, Nat.ne_of_lt hr]

theorem items_write_of_ne (h : Heap) {r s : Ref} (hr : r ≠ s) (index : Nat) (v : Value) :
    (h.write r index v).items s = h.items s := by
  simp [write, Heap.items, Array.getElem?_modify, hr]

/-- The elements of a value that is an array. -/
def elements? (h : Heap) : Value → Option (Array Value)
  | .array r => some (h.items r)
  | _ => none

/-- The text of a value in which only these arrays show their elements; an array met
inside itself shows none. -/
def textWithin (h : Heap) (shown : List Ref) (v : Value) : String :=
  v.textWith fun r =>
    if _h : r ∈ shown then
      "[" ++ ", ".intercalate
        ((h.items r).toList.map (h.textWithin (shown.erase r))) ++ "]"
    else "[]"
termination_by shown.length
decreasing_by
  have := List.length_pos_of_mem _h
  rw [List.length_erase_of_mem _h]
  omega

/-- The text of a value (`Value::fmt`). -/
def text (h : Heap) (v : Value) : String := h.textWithin (List.range h.arrays.size) v

end Heap

end Interpose
