import Interpose.Text.Hidden
/-!
# Quoted text

A string between double quotes. Quotes and backslashes are escaped, the five
control characters with a letter of their own use it, and every other hidden
character is written as its code point in hexadecimal.

Results:
* `quoted_visible`: a text of visible characters without quotes and backslashes
  stands between the quotes as it is.
-/
namespace Interpose.Text

/-- The hexadecimal digit of a number below sixteen, in lower case. -/
def hexDigit (n : Nat) : Char :=
  if n < 10 then Char.ofNat (48 + n) else Char.ofNat (87 + n)

/-- Hexadecimal digits of a number, most significant first, no leading zero. -/
def hexDigits (n : Nat) : List Char :=
  if n < 16 then [hexDigit n] else hexDigits (n / 16) ++ [hexDigit (n % 16)]
termination_by n

/-- What stands for one character between the quotes. -/
def escape (c : Char) : List Char :=
  if c = '\x00' then ['\\', '0']
  else if c = '\t' then ['\\', 't']
  else if c = '\n' then ['\\', 'n']
  else if c = '\r' then ['\\', 'r']
  else if c = '\\' then ['\\', '\\']
  else if c = '"' then ['\\', '"']
  else if isHidden c then ['\\', 'u', '\x7b'] ++ hexDigits c.toNat ++ ['\x7d']
  else [c]

/-- The text between double quotes, escaped. -/
def quoted (s : String) : String :=
  String.ofList ('"' :: s.toList.flatMap escape ++ ['"'])

/-- Needs no escape. -/
def isVisible (c : Char) : Bool := !isHidden c && c ≠ '\\' && c ≠ '"'

theorem escape_visible {c : Char} (h : isVisible c = true) : escape c = [c] := by
  simp only [isVisible, Bool.and_eq_true, Bool.not_eq_true', decide_eq_true_eq] at h
  obtain ⟨⟨hidden, slash⟩, quote⟩ := h
  have out {d : Char} (hd : isHidden d = true) : c ≠ d := fun e => by simp [e, hd] at hidden
  simp [escape, out (d := '\x00') (by decide), out (d := '\t') (by decide),
    out (d := '\n') (by decide), out (d := '\r') (by decide), slash, quote, hidden]

theorem quoted_visible {s : String} (h : ∀ c ∈ s.toList, isVisible c = true) :
    quoted s = String.ofList ('"' :: s.toList ++ ['"']) := by
  have : s.toList.flatMap escape = s.toList := by
    generalize s.toList = cs at h
    induction cs with
    | nil => rfl
    | cons c r ih =>
      rw [List.flatMap_cons, escape_visible (h c (by simp)), ih fun d hd => h d (by simp [hd])]
      rfl
  rw [quoted, this]

end Interpose.Text
