/-!
# Doubles nearest to a quotient

A positive rational is rounded to the nearest double, a tie going to the even
significand. A double `significand · 2 ^ power` with `power ≥ -1074` has the
magnitude pattern `(power + 1074) · 2 ^ 52 + significand`, for normal and
subnormal numbers alike, and a significand that rounds up to `2 ^ 53` carries
into the exponent by itself.

Results:
* `roundHalfEven_le`, `le_roundHalfEven`: a rounded quotient is within half a unit.
* `roundHalfEven_mul`: an exact quotient is kept.
-/
namespace Interpose.Decimal

/-- `num / den` rounded to the nearest natural number, a half to the even one. -/
def roundHalfEven (num den : Nat) : Nat :=
  let quot := num / den
  let rest := 2 * (num % den)
  if rest < den then quot
  else if rest = den then (if quot % 2 = 0 then quot else quot + 1)
  else quot + 1

theorem roundHalfEven_mul (n den : Nat) (h : 0 < den) : roundHalfEven (n * den) den = n := by
  simp [roundHalfEven, Nat.mul_div_cancel n h, h]

theorem roundHalfEven_le (num den : Nat) : 2 * (roundHalfEven num den * den) ≤ 2 * num + den := by
  have h := Nat.div_add_mod num den
  have e : (num / den + 1) * den = num / den * den + den := Nat.succ_mul ..
  rw [Nat.mul_comm den] at h
  simp only [roundHalfEven]
  split
  · omega
  · split
    · split <;> omega
    · omega

theorem le_roundHalfEven (num den : Nat) (hd : 0 < den) :
    2 * num ≤ 2 * (roundHalfEven num den * den) + den := by
  have h := Nat.div_add_mod num den
  have lt := Nat.mod_lt num hd
  have e : (num / den + 1) * den = num / den * den + den := Nat.succ_mul ..
  rw [Nat.mul_comm den] at h
  simp only [roundHalfEven]
  split
  · omega
  · split
    · split <;> omega
    · omega

/-- Exponent of the greatest power of two not above `num / den`. -/
def binaryExponent (num den : Nat) : Int :=
  let guess : Int := (num.log2 : Int) - (den.log2 : Int)
  if num * Nat.pow 2 (-guess).toNat ≥ den * Nat.pow 2 guess.toNat then guess else guess - 1

/-- The bit that a normal significand has and its pattern leaves out. -/
def hiddenBit : Nat := 0x10000000000000

/-- The pattern of positive infinity. -/
def infinityPattern : Nat := 0x7FF * hiddenBit

/-- Magnitude pattern of the double nearest to `num / den`; too large a quotient
gives infinity. -/
def nearestPattern (num den : Nat) : Nat :=
  if num = 0 then 0
  else
    let power : Int := max (-1074) (binaryExponent num den - 52)
    let significand := roundHalfEven (num * Nat.pow 2 (-power).toNat) (den * Nat.pow 2 power.toNat)
    min infinityPattern ((power + 1074).toNat * hiddenBit + significand)

end Interpose.Decimal
