import Interpose.Decimal.Reading
import Interpose.Json.Basic
/-!
# Reading JSON

A reader of one JSON value that spans a whole text. It goes down into the text at most
as many levels as the text has characters.
-/
namespace Interpose.Json

/-- Drops the white space between tokens. -/
def skip : List Char → List Char
  | ' ' :: rest => skip rest
  | '\t' :: rest => skip rest
  | '\n' :: rest => skip rest
  | '\r' :: rest => skip rest
  | cs => cs

/-- The rest of a text after a word it starts with. -/
def afterWord? : List Char → List Char → Option (List Char)
  | [], cs => some cs
  | w :: ws, c :: cs => if w = c then afterWord? ws cs else none
  | _ :: _, [] => none

/-- The unit of sixteen bits that four hexadecimal digits write. -/
def unit? : List Char → Option (Nat × List Char)
  | a :: b :: c :: d :: rest => do
    let a ← Decimal.digitValue? 16 a
    let b ← Decimal.digitValue? 16 b
    let c ← Decimal.digitValue? 16 c
    let d ← Decimal.digitValue? 16 d
    some (((a * 16 + b) * 16 + c) * 16 + d, rest)
  | _ => none

/-- The character after a `\u`: one unit, or two that are a pair of surrogates. -/
def unicode? (cs : List Char) : Option (Char × List Char) := do
  let (high, rest) ← unit? cs
  if 0xD800 ≤ high ∧ high < 0xDC00 then
    let rest ← afterWord? ['\\', 'u'] rest
    let (low, rest) ← unit? rest
    if 0xDC00 ≤ low ∧ low < 0xE000 then
      some (Char.ofNat (0x10000 + (high - 0xD800) * 0x400 + (low - 0xDC00)), rest)
    else none
  else if 0xDC00 ≤ high ∧ high < 0xE000 then none
  else some (Char.ofNat high, rest)

/-- The character that an escape stands for. -/
def escaped? : List Char → Option (Char × List Char)
  | '"' :: rest => some ('"', rest)
  | '\\' :: rest => some ('\\', rest)
  | '/' :: rest => some ('/', rest)
  | 'b' :: rest => some (Char.ofNat 8, rest)
  | 'f' :: rest => some (Char.ofNat 12, rest)
  | 'n' :: rest => some ('\n', rest)
  | 'r' :: rest => some ('\r', rest)
  | 't' :: rest => some ('\t', rest)
  | 'u' :: rest => unicode? rest
  | _ => none

/-- The characters up to the closing quote, in reverse before `done`. -/
def string? : Nat → List Char → List Char → Option (String × List Char)
  | 0, _, _ => none
  | fuel + 1, done, cs =>
    match cs with
    | [] => none
    | '"' :: rest => some (String.ofList done.reverse, rest)
    | '\\' :: rest =>
      match escaped? rest with
      | some (c, rest) => string? fuel (c :: done) rest
      | none => none
    | c :: rest => if c.toNat < 0x20 then none else string? fuel (c :: done) rest

/-- Can the character be part of a number? -/
def isNumeric (c : Char) : Bool :=
  c.isDigit || c == '-' || c == '+' || c == '.' || c == 'e' || c == 'E'

/-- Is the text digits without a leading zero? -/
def isWhole : List Char → Bool
  | [] => false
  | ['0'] => true
  | c :: rest => c.isDigit && c != '0' && rest.all Char.isDigit

/-- Is the text a sign, if any, and digits? -/
def isExponent : List Char → Bool
  | '+' :: ds => !ds.isEmpty && ds.all Char.isDigit
  | '-' :: ds => !ds.isEmpty && ds.all Char.isDigit
  | ds => !ds.isEmpty && ds.all Char.isDigit

/-- The number that a text without a sign writes. -/
def magnitude? (negative : Bool) (cs : List Char) : Option Json :=
  let isMark (c : Char) : Bool := c == 'e' || c == 'E'
  let mantissa := cs.takeWhile (!isMark ·)
  let whole := mantissa.takeWhile (· != '.')
  if !isWhole whole then none
  else if whole.length = cs.length then
    let n : Nat := whole.foldl (fun (n : Nat) c => 10 * n + (c.toNat - 48)) 0
    some (int (if negative then -(n : Int) else n))
  else
    let pointed := mantissa.drop whole.length
    let fraction := pointed.drop 1
    let fractionOk := pointed.isEmpty || (!fraction.isEmpty && fraction.all Char.isDigit)
    let exponentOk := match cs.drop mantissa.length with
      | [] => true
      | _ :: exponent => isExponent exponent
    if fractionOk && exponentOk then
      some (real (String.ofList (if negative then '-' :: cs else cs)))
    else none

/-- A number and the text after it. -/
def number? (cs : List Char) : Option (Json × List Char) :=
  let token := cs.takeWhile isNumeric
  let rest := cs.drop token.length
  match token with
  | '-' :: digits => (magnitude? true digits).map (·, rest)
  | digits => (magnitude? false digits).map (·, rest)

mutual

/-- A value and the text after it. -/
def value? : Nat → List Char → Option (Json × List Char)
  | 0, _ => none
  | fuel + 1, cs =>
    match skip cs with
    | '"' :: rest => (string? (fuel + 1) [] rest).map fun r => (str r.1, r.2)
    | '[' :: rest =>
      match skip rest with
      | ']' :: rest => some (arr [], rest)
      | rest => (items? fuel [] rest).map fun r => (arr r.1, r.2)
    | '\x7b' :: rest =>
      match skip rest with
      | '\x7d' :: rest => some (obj [], rest)
      | rest => (members? fuel [] rest).map fun r => (obj r.1, r.2)
    | 't' :: rest => (afterWord? ['r', 'u', 'e'] rest).map (bool true, ·)
    | 'f' :: rest => (afterWord? ['a', 'l', 's', 'e'] rest).map (bool false, ·)
    | 'n' :: rest => (afterWord? ['u', 'l', 'l'] rest).map (null, ·)
    | rest => number? rest

/-- The items up to the closing bracket, those before them in reverse in `done`. -/
def items? : Nat → List Json → List Char → Option (List Json × List Char)
  | 0, _, _ => none
  | fuel + 1, done, cs =>
    match value? fuel cs with
    | none => none
    | some (v, rest) =>
      match skip rest with
      | ',' :: rest => items? fuel (v :: done) rest
      | ']' :: rest => some ((v :: done).reverse, rest)
      | _ => none

/-- The members up to the closing brace, those before them in reverse in `done`. -/
def members? : Nat → List (String × Json) → List Char →
    Option (List (String × Json) × List Char)
  | 0, _, _ => none
  | fuel + 1, done, cs =>
    match skip cs with
    | '"' :: rest =>
      match string? (fuel + 1) [] rest with
      | none => none
      | some (key, rest) =>
        match skip rest with
        | ':' :: rest =>
          match value? fuel rest with
          | none => none
          | some (v, rest) =>
            match skip rest with
            | ',' :: rest => members? fuel ((key, v) :: done) rest
            | '\x7d' :: rest => some (((key, v) :: done).reverse, rest)
            | _ => none
        | _ => none
    | _ => none

end

/-- Reads the value that a text writes. -/
def parse (s : String) : Option Json :=
  let cs := s.toList
  match value? (cs.length + 1) cs with
  | some (v, rest) => if (skip rest).isEmpty then some v else none
  | none => none

end Interpose.Json
