import Interpose.Decimal.Nearest
/-!
# Double-precision numbers as bit patterns

A number is its IEEE 754 pattern, so that equality is equality of patterns:
`0` and `-0` differ, and a NaN equals itself. An operation on a NaN hands it on,
and one without a value gives the NaN with its sign bit set.
-/
namespace Interpose

/-- An IEEE 754 double-precision number, held as its pattern. -/
structure Binary64 where
  bits : UInt64
deriving DecidableEq

namespace Binary64

/-- The exponent field, biased by 1023; all ones for infinities and NaNs. -/
def exponentField (x : Binary64) : Nat := (x.bits.toNat / Decimal.hiddenBit) % 0x800

/-- The low 52 bits. -/
def fraction (x : Binary64) : Nat := x.bits.toNat % Decimal.hiddenBit

def isNegative (x : Binary64) : Bool := 0x8000000000000000 ≤ x.bits.toNat

def isNaN (x : Binary64) : Bool := x.exponentField == 0x7FF && x.fraction != 0

def isInfinite (x : Binary64) : Bool := x.exponentField == 0x7FF && x.fraction == 0

/-- Either zero. -/
def isZero (x : Binary64) : Bool := x.exponentField == 0 && x.fraction == 0

/-- The significand of a finite number: `x = ± significand · 2 ^ power`. -/
def significand (x : Binary64) : Nat :=
  if x.exponentField = 0 then x.fraction else Decimal.hiddenBit + x.fraction

/-- The power of two that scales the significand of a finite number. -/
def power (x : Binary64) : Int := max 1 (x.exponentField : Int) - 1075

/-- The number with this sign and magnitude pattern. -/
def ofPattern (negative : Bool) (magnitude : Nat) : Binary64 :=
  ⟨UInt64.ofNat (magnitude + if negative then 0x8000000000000000 else 0)⟩

def zero : Binary64 := ⟨0⟩

/-- The NaN that texts and documents denote. -/
def nan : Binary64 := ⟨0x7FF8000000000000⟩

/-- The NaN of an operation that has no value. -/
def invalid : Binary64 := ⟨0xFFF8000000000000⟩

def infinity (negative : Bool) : Binary64 := ofPattern negative Decimal.infinityPattern

/-- Every NaN as the one that documents denote. -/
def canonical (x : Binary64) : Binary64 := if x.isNaN then nan else x

/-- The number with its sign changed. -/
def neg (x : Binary64) : Binary64 := ⟨x.bits ^^^ 0x8000000000000000⟩

/-- A NaN as an operation hands it on: its quiet bit set. -/
def quiet (x : Binary64) : Binary64 := ⟨x.bits ||| 0x0008000000000000⟩

def toFloat (x : Binary64) : Float := Float.ofBits x.bits

/-- The result of a native operation, where a NaN is one without a value. -/
def ofResult (f : Float) : Binary64 := if f.isNaN then invalid else ⟨f.toBits⟩

/-- Applies `op` unless an operand is a NaN: then the first such is the result. -/
def lift (op : Binary64 → Binary64 → Binary64) (x y : Binary64) : Binary64 :=
  if x.isNaN then x.quiet else if y.isNaN then y.quiet else op x y

def add : Binary64 → Binary64 → Binary64 := lift fun x y => ofResult (x.toFloat + y.toFloat)

def sub : Binary64 → Binary64 → Binary64 := lift fun x y => ofResult (x.toFloat - y.toFloat)

def mul : Binary64 → Binary64 → Binary64 := lift fun x y => ofResult (x.toFloat * y.toFloat)

def div : Binary64 → Binary64 → Binary64 := lift fun x y => ofResult (x.toFloat / y.toFloat)

/-- The exact remainder of the division truncated toward zero, with the sign of the
dividend. -/
def rem : Binary64 → Binary64 → Binary64 := lift fun x y =>
  if x.isInfinite || y.isZero then invalid
  else if y.isInfinite then x
  else
    let unit := min x.power y.power
    let rest := (x.significand * Nat.pow 2 (x.power - unit).toNat) %
      (y.significand * Nat.pow 2 (y.power - unit).toNat)
    ofPattern x.isNegative
      (Decimal.nearestPattern (rest * Nat.pow 2 unit.toNat) (Nat.pow 2 (-unit).toNat))

/-- Numeric order; false when either is a NaN. -/
def lt (x y : Binary64) : Bool := x.toFloat < y.toFloat

end Binary64

end Interpose
