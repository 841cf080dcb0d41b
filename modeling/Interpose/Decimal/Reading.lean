import Interpose.Binary64
/-!
# Reading numbers

Whole numbers are an optional sign and digits, read from the left: the first
character that is no digit, or the first digit that leaves the range, decides the
error. Fractional numbers are decimal with an optional exponent, or one of the words
for infinity and NaN in any case, and are rounded to the nearest double.
-/
namespace Interpose.Decimal

/-- Why a text is no number, or no truth value. -/
inductive ReadError
  | emptyInteger
  | invalidDigit
  | tooLarge
  | tooSmall
  | emptyFloat
  | invalidFloat
  | notBool
deriving DecidableEq

def ReadError.message : ReadError → String
  | emptyInteger => "cannot parse integer from empty string"
  | invalidDigit => "invalid digit found in string"
  | tooLarge => "number too large to fit in target type"
  | tooSmall => "number too small to fit in target type"
  | emptyFloat => "cannot parse float from empty string"
  | invalidFloat => "invalid float literal"
  | notBool => "provided string was not `true` or `false`"

/-- The value of an ASCII digit in bases up to sixteen. -/
def digitValue? (base : Nat) (c : Char) : Option Nat :=
  let n := c.toNat
  let v := if 48 ≤ n ∧ n ≤ 57 then n - 48
    else if 97 ≤ n ∧ n ≤ 102 then n - 87
    else if 65 ≤ n ∧ n ≤ 70 then n - 55
    else base
  if v < base then some v else none

/-- Reads digits onto `value`; `overflow` is the error of going above `limit`. -/
def readDigits (base limit : Nat) (overflow : ReadError) : Nat → List Char → Except ReadError Nat
  | value, [] => .ok value
  | value, c :: rest =>
    match digitValue? base c with
    | none => .error .invalidDigit
    | some d =>
      if base * value + d ≤ limit then readDigits base limit overflow (base * value + d) rest
      else .error overflow

/-- Reads a whole number between `-below` and `above`. -/
def readBounded (base below above : Nat) (cs : List Char) : Except ReadError Int :=
  match cs with
  | [] => .error .emptyInteger
  | ['+'] => .error .invalidDigit
  | ['-'] => .error .invalidDigit
  | '+' :: ds => Int.ofNat <$> readDigits base above .tooLarge 0 ds
  | '-' :: ds => (fun n => -Int.ofNat n) <$> readDigits base below .tooSmall 0 ds
  | ds => Int.ofNat <$> readDigits base above .tooLarge 0 ds

def readInt32 (s : String) : Except ReadError Int32 :=
  Int32.ofInt <$> readBounded 10 0x80000000 0x7FFFFFFF s.toList

def readInt64 (s : String) : Except ReadError Int64 :=
  Int64.ofInt <$> readBounded 10 0x8000000000000000 0x7FFFFFFFFFFFFFFF s.toList

/-- Reads a 32-bit word in hexadecimal. A minus sign is no digit of it. -/
def readHex32 (cs : List Char) : Except ReadError UInt32 :=
  match cs with
  | '-' :: _ => .error .invalidDigit
  | _ => (fun n => UInt32.ofNat n.toNat) <$> readBounded 16 0 0xFFFFFFFF cs

def readBool (s : String) : Except ReadError Bool :=
  if s = "true" then .ok true else if s = "false" then .ok false else .error .notBool

/-! ## Fractional numbers -/

/-- The magnitude pattern of `digits · 10 ^ exponent`. Decimals far outside the range of
doubles are settled by their number of digits. -/
def patternOfDecimal (digits : Nat) (exponent : Int) : Nat :=
  let top := exponent + ((Nat.toDigits 10 digits).length : Int)
  if digits = 0 ∨ top < -400 then 0
  else if 400 < top then infinityPattern
  else nearestPattern (digits * Nat.pow 10 exponent.toNat) (Nat.pow 10 (-exponent).toNat)

/-- The digits of a text that holds nothing else. -/
def wholeDigits? (cs : List Char) : Option Nat :=
  if cs.all Char.isDigit then some (cs.foldl (fun n c => 10 * n + (c.toNat - 48)) 0) else none

/-- The signed number after the exponent mark. -/
def exponent? (cs : List Char) : Option Int :=
  let (sign, ds) : Int × List Char := match cs with
    | '+' :: r => (1, r)
    | '-' :: r => (-1, r)
    | r => (1, r)
  if ds.isEmpty then none else (fun n : Nat => sign * n) <$> wholeDigits? ds

/-- Digits with an optional point among them and an optional exponent; at least one
digit stands before the exponent. -/
def decimalPattern? (cs : List Char) : Option Nat := do
  let isMark (c : Char) : Bool := c == 'e' || c == 'E'
  let mantissa := cs.takeWhile (!isMark ·)
  let whole := mantissa.takeWhile (· != '.')
  let fraction := (mantissa.dropWhile (· != '.')).drop 1
  if whole.isEmpty && fraction.isEmpty then none
  let digits ← wholeDigits? (whole ++ fraction)
  let exponent ← match cs.dropWhile (!isMark ·) with
    | [] => some 0
    | _ :: rest => exponent? rest
  some (patternOfDecimal digits (exponent - fraction.length))

/-- Reads a fractional number. -/
def readFloat (s : String) : Except ReadError Binary64 :=
  let (negative, rest) := match s.toList with
    | '-' :: r => (true, r)
    | '+' :: r => (false, r)
    | r => (false, r)
  let word := String.ofList (rest.map Char.toLower)
  if s.isEmpty then .error .emptyFloat
  else if word = "inf" ∨ word = "infinity" then .ok (Binary64.infinity negative)
  else if word = "nan" then .ok (if negative then Binary64.nan.neg else Binary64.nan)
  else match decimalPattern? rest with
    | some pattern => .ok (Binary64.ofPattern negative pattern)
    | none => .error .invalidFloat

end Interpose.Decimal
