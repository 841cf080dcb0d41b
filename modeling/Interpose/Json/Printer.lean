import Interpose.Json.Basic
import Interpose.Text.Quoted
/-!
# Writing JSON

A value is written on one line without blanks. Quotes, backslashes and control
characters are escaped, all else stands for itself.
-/
namespace Interpose.Json

/-- Appends one character of a string. -/
def writeChar (out : String) (c : Char) : String :=
  if c = '"' then out ++ "\\\""
  else if c = '\\' then out ++ "\\\\"
  else if c.toNat < 0x20 then
    ((out ++ "\\u00").push (Text.hexDigit (c.toNat / 16))).push (Text.hexDigit (c.toNat % 16))
  else out.push c

/-- Appends a string between quotes. -/
def writeString (out : String) (s : String) : String :=
  (s.toList.foldl writeChar (out.push '"')).push '"'

mutual

/-- Appends a value. -/
def writeTo (out : String) : Json → String
  | null => out ++ "null"
  | bool b => out ++ (if b then "true" else "false")
  | int i => out ++ toString i
  | real text => out ++ text
  | str s => writeString out s
  | arr items => (writeItems (out.push '[') true items).push ']'
  | obj members => (writeMembers (out.push '\x7b') true members).push '\x7d'

/-- Appends the items of a list, a comma before each but the first. -/
def writeItems (out : String) (first : Bool) : List Json → String
  | [] => out
  | v :: rest => writeItems (writeTo (if first then out else out.push ',') v) false rest

/-- Appends the members of an object, a comma before each but the first. -/
def writeMembers (out : String) (first : Bool) : List (String × Json) → String
  | [] => out
  | (key, v) :: rest =>
    let out := (writeString (if first then out else out.push ',') key).push ':'
    writeMembers (writeTo out v) false rest

end

/-- The text of a value. -/
def write (j : Json) : String := writeTo "" j

end Interpose.Json
