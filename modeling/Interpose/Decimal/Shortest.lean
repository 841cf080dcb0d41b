import Interpose.Binary64
/-!
# The shortest decimal that reads back

A finite double stands for every real that rounds to it: the interval from halfway
below to halfway above, ends included iff its significand is even. Of the decimals
in the interval the text of the number uses one with the fewest digits, of those
the one nearest to the number, and the greater of two equally near.

On each decimal grid only the two neighbours of the number have to be tried: if
the interval holds any point of the grid, it holds one of them.
-/
namespace Interpose

/-- `digits · 10 ^ exponent`. -/
structure Decimal where
  digits : Nat
  exponent : Int
deriving DecidableEq

namespace Decimal

/-- The same value with no zero at the end of the digits. -/
def strip (d : Decimal) : Decimal :=
  if d.digits ≠ 0 ∧ d.digits % 10 = 0 then strip ⟨d.digits / 10, d.exponent + 1⟩ else d
termination_by d.digits
decreasing_by omega

/-- A real interval around a rational, in units of `1 / den`. -/
structure Rounding where
  low : Nat
  value : Nat
  high : Nat
  den : Nat
  closed : Bool

/-- The reals that round to a finite number, in quarters of its last place. Below a
power of two the gap is half as wide. -/
def Rounding.ofBinary (x : Binary64) : Rounding :=
  let m := 4 * x.significand
  let below := if x.fraction = 0 ∧ 1 < x.exponentField then 1 else 2
  let scale := Nat.pow 2 (x.power - 2).toNat
  ⟨(m - below) * scale, m * scale, (m + 2) * scale, Nat.pow 2 (2 - x.power).toNat,
    x.significand % 2 = 0⟩

/-- Exponent of the greatest power of ten not above `num / den`. -/
def decimalExponent (num den : Nat) : Int :=
  let width (n : Nat) : Int := ((Nat.toDigits 10 n).length : Int)
  let guess := width num - width den
  if num * Nat.pow 10 (-guess).toNat ≥ den * Nat.pow 10 guess.toNat then guess else guess - 1

/-- Does the interval hold `n` units of `unit / r.den`? -/
def Rounding.holds (r : Rounding) (scale unit n : Nat) : Bool :=
  if r.closed then r.low * scale ≤ n * unit && n * unit ≤ r.high * scale
  else r.low * scale < n * unit && n * unit < r.high * scale

/-- The point of the grid of step `10 ^ e` that lies in the interval and nearest to its
value, if one does. -/
def Rounding.pick (r : Rounding) (e : Int) : Option Decimal :=
  let scale := Nat.pow 10 (-e).toNat
  let unit := r.den * Nat.pow 10 e.toNat
  let floor := r.value * scale / unit
  let rest := r.value * scale % unit
  let down := r.holds scale unit floor
  let up := r.holds scale unit (floor + 1)
  if up && (!down || unit ≤ 2 * rest) then some ⟨floor + 1, e⟩
  else if down then some ⟨floor, e⟩
  else none

/-- The shortest decimal of a finite non-zero number, without its sign. Seventeen digits
always suffice. -/
def shortest (x : Binary64) : Decimal :=
  let r := Rounding.ofBinary x
  let top := decimalExponent r.value r.den
  let grids := (List.range 17).map fun k : Nat => top - (k : Int)
  ((grids.findSome? r.pick).getD ⟨0, 0⟩).strip

end Decimal

end Interpose
