/-!
# JSON values

The data of documents. Whole numbers are kept apart from others, whose text is kept as
it stands, and the members of an object keep their order.

Results:
* `member?_cons_ne`: a member of another name is passed over.
-/
namespace Interpose

inductive Json
  | null
  | bool (b : Bool)
  | int (i : Int)
  /-- A number with a fraction or an exponent, as it is written. -/
  | real (text : String)
  | str (s : String)
  | arr (items : List Json)
  | obj (members : List (String × Json))
deriving Inhabited

namespace Json

/-- The first member of this name. -/
def member? : List (String × Json) → String → Option Json
  | [], _ => none
  | (k, v) :: rest, key => if k = key then some v else member? rest key

theorem member?_cons_ne {k key : String} (h : k ≠ key) (v : Json) (rest : List (String × Json)) :
    member? ((k, v) :: rest) key = member? rest key := by
  simp [member?, h]

/-- A member of a value that is an object. -/
def get? (j : Json) (key : String) : Option Json :=
  match j with
  | obj members => member? members key
  | _ => none

/-- A natural number as a value. -/
def nat (n : Nat) : Json := int n

/-- A value, or `null` for none. -/
def ofOption {α : Type} (f : α → Json) : Option α → Json
  | none => null
  | some a => f a

/-- A list of values. -/
def list {α : Type} (f : α → Json) (l : List α) : Json := arr (l.map f)

end Json

end Interpose
