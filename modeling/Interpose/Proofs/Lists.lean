import Mathlib.Data.List.Forall2
/-!
# Lists that correspond

Lists of which each element is related to the one at the same place of the other.

Results:
* `forall₂_getElem?`, `forall₂_getElem?_none`: what is at one place of both.
* `forall₂_find?`: the first elements that related tests pick out.
-/
namespace Interpose

theorem forall₂_getElem? {α β : Type} {R : α → β → Prop} {l : List α} {l' : List β}
    (h : List.Forall₂ R l l') {k : Nat} {a : α} (ha : l[k]? = some a) :
    ∃ b, l'[k]? = some b ∧ R a b := by
  induction h generalizing k with
  | nil => cases ha
  | cons hr _ ih =>
    cases k with
    | zero =>
      cases ha
      exact ⟨_, rfl, hr⟩
    | succ k => exact ih ha

theorem forall₂_getElem?_none {α β : Type} {R : α → β → Prop} {l : List α} {l' : List β}
    (h : List.Forall₂ R l l') {k : Nat} (hk : l[k]? = none) : l'[k]? = none := by
  rw [List.getElem?_eq_none_iff] at hk ⊢
  rw [← h.length_eq]
  exact hk

theorem forall₂_map_eq {α β γ : Type} {R : α → β → Prop} {f : α → γ} {g : β → γ} {l : List α}
    {l' : List β} (h : List.Forall₂ R l l') (hfg : ∀ a b, R a b → f a = g b) :
    l.map f = l'.map g := by
  induction h with
  | nil => rfl
  | cons hr _ ih => rw [List.map_cons, List.map_cons, hfg _ _ hr, ih]

theorem forall₂_set {α β : Type} {R : α → β → Prop} {l : List α} {l' : List β}
    (h : List.Forall₂ R l l') (k : Nat) {a : α} {b : β} (hr : R a b) :
    List.Forall₂ R (l.set k a) (l'.set k b) := by
  induction h generalizing k with
  | nil => exact .nil
  | cons hx hrest ih =>
    cases k with
    | zero => exact .cons hr hrest
    | succ k => exact .cons hx (ih k)

theorem rel_cases {α β : Type} {R : α → β → Prop} {a? : Option α} {b? : Option β}
    (h : Option.Rel R a? b?) :
    a? = none ∧ b? = none ∨ ∃ a b, a? = some a ∧ b? = some b ∧ R a b := by
  cases h with
  | none => exact .inl ⟨rfl, rfl⟩
  | some h => exact .inr ⟨_, _, rfl, rfl, h⟩

/-- Tests that agree on related elements find related ones, or none. -/
theorem forall₂_find? {α β : Type} {R : α → β → Prop} {p : α → Bool} {q : β → Bool} {l : List α}
    {l' : List β} (h : List.Forall₂ R l l') (hpq : ∀ a b, R a b → p a = q b) :
    Option.Rel R (l.find? p) (l'.find? q) := by
  induction h with
  | nil => exact .none
  | @cons a b _ _ hr _ ih =>
    rw [List.find?_cons, List.find?_cons, ← hpq a b hr]
    cases p a with
    | true => exact .some hr
    | false => exact ih

end Interpose
