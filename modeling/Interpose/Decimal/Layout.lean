import Interpose.Decimal.Shortest
/-!
# Layouts of decimal numbers

How the shortest decimal of a number is laid out: always positionally, or in
scientific notation outside a range of exponents. The two layouts in use are `plain`
and `detailed`.
-/
namespace Interpose.Decimal

/-- Decisions of a number format. -/
structure Layout where
  /-- Is a number whose first digit stands for `10 ^ e` written with an exponent? -/
  scientific : Int → Bool
  /-- Does a whole number end in `.0`? -/
  pointZero : Bool

/-- Numbers as a program prints them: positional whatever their size, whole numbers
without a point. -/
def Layout.plain : Layout := ⟨fun _ => false, false⟩

/-- Numbers in diagnostics: whole numbers end in `.0`; from `1e16` on and below `1e-4`
an exponent is written. -/
def Layout.detailed : Layout := ⟨fun e => 16 ≤ e || e < -4, true⟩

def zeros (n : Nat) : List Char := List.replicate n '0'

/-- Lays out `0.ds · 10 ^ point` for non-empty digits `ds`. -/
def Layout.arrange (l : Layout) (ds : List Char) (point : Int) : List Char :=
  if l.scientific (point - 1) then
    let tail := ds.drop 1
    ds.take 1 ++ (if tail.isEmpty then [] else '.' :: tail) ++ 'e' :: (toString (point - 1)).toList
  else if point ≤ 0 then
    ['0', '.'] ++ zeros (-point).toNat ++ ds
  else
    let whole := point.toNat
    if ds.length ≤ whole then
      ds ++ zeros (whole - ds.length) ++ (if l.pointZero then ['.', '0'] else [])
    else
      ds.take whole ++ '.' :: ds.drop whole

/-- The text of a number. -/
def Layout.text (l : Layout) (x : Binary64) : String :=
  if x.isNaN then "NaN"
  else
    let sign := if x.isNegative then ['-'] else []
    let magnitude :=
      if x.isInfinite then ['i', 'n', 'f']
      else if x.isZero then (if l.pointZero then ['0', '.', '0'] else ['0'])
      else
        let d := shortest x
        let ds := Nat.toDigits 10 d.digits
        l.arrange ds (ds.length + d.exponent)
    String.ofList (sign ++ magnitude)

end Interpose.Decimal
