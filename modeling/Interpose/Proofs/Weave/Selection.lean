import Interpose.Weave.Config
import Mathlib.Data.List.Infix
/-!
# Which methods a configuration leaves alone

An exclusion pattern is taken apart at its first `::`. A path `Type::method` is put together
from two names, and it is taken apart as it was put together only if there is no earlier `::`
in it: not in the type's name, and not with a colon at the end of that name. A bare name that
has a `::` in it is taken for a path.

Results:
* `splitPath?_eq_some_iff`, `splitPath?_eq_none_iff`: where a text is split.
* `excludes_iff`: the methods that a pattern names.
* `selects_eq_false_iff`: the methods that are not woven, and what one more path changes.
-/
namespace Interpose

/-! ## The split -/

/-- There is no `::` in a text. -/
def Undivided (cs : List Char) : Prop := ¬ [':', ':'] <:+: cs

instance (cs : List Char) : Decidable (Undivided cs) := inferInstanceAs (Decidable (¬ _))

variable {c : Char} {cs before after : List Char}

theorem undivided_cons : Undivided (c :: cs) ↔ ¬ (c = ':' ∧ [':'] <+: cs) ∧ Undivided cs := by
  rw [Undivided, List.infix_cons_iff, List.cons_prefix_cons, not_or, eq_comm (a := ':'), Undivided]

theorem splitPath?_cons : splitPath? (c :: cs) =
    if c = ':' ∧ [':'] <+: cs then some ([], cs.tail)
    else (splitPath? cs).map fun p => (c :: p.1, p.2) := by
  split
  · next h =>
    obtain ⟨rfl, rest, rfl⟩ := h
    rfl
  · next h =>
    rw [splitPath?]
    intro rest hc hcs
    exact h ⟨hc, rest, hcs.symm⟩

theorem colon_prefix_append : [':'] <+: before ++ ':' :: after ↔ [':'] <+: before ++ [':'] := by
  cases before <;> simp [List.cons_prefix_cons]

theorem splitPath?_append (h : Undivided (before ++ [':'])) :
    splitPath? (before ++ ':' :: ':' :: after) = some (before, after) := by
  induction before with
  | nil => rfl
  | cons b before ih =>
    obtain ⟨hb, hrest⟩ := undivided_cons.1 h
    have hnot : ¬ (b = ':' ∧ [':'] <+: before ++ ':' :: ':' :: after) := by
      rw [colon_prefix_append]
      exact hb
    rw [List.cons_append, splitPath?_cons, if_neg hnot, ih hrest]
    rfl

theorem append_of_splitPath? (h : splitPath? cs = some (before, after)) :
    cs = before ++ ':' :: ':' :: after ∧ Undivided (before ++ [':']) := by
  induction cs generalizing before with
  | nil => cases h
  | cons c cs ih =>
    rw [splitPath?_cons] at h
    split at h
    · next hc =>
      obtain ⟨rfl, rest, rfl⟩ := hc
      cases h
      exact ⟨rfl, by decide⟩
    · next hc =>
      obtain ⟨⟨before', after'⟩, hs, he⟩ := Option.map_eq_some_iff.1 h
      cases he
      obtain ⟨rfl, hrest⟩ := ih hs
      rw [colon_prefix_append] at hc
      exact ⟨rfl, undivided_cons.2 ⟨hc, hrest⟩⟩

/-- A text is split at its first `::`: there is none before, not even with the first colon of
this one. -/
theorem splitPath?_eq_some_iff : splitPath? cs = some (before, after) ↔
    cs = before ++ ':' :: ':' :: after ∧ Undivided (before ++ [':']) :=
  ⟨append_of_splitPath?, fun ⟨he, h⟩ => he ▸ splitPath?_append h⟩

theorem splitPath?_eq_none_iff : splitPath? cs = none ↔ Undivided cs := by
  induction cs with
  | nil => simp [splitPath?, Undivided]
  | cons c cs ih =>
    rw [splitPath?_cons, undivided_cons]
    split
    · next h => simp [h]
    · next h => simp [h, ih]

/-! ## Patterns -/

theorem toList_path (typeName method : String) :
    (typeName ++ "::" ++ method).toList = typeName.toList ++ ':' :: ':' :: method.toList := by
  simp

/-- A pattern names the methods of a bare name without `::`, or those of one path whose type
is what stands before its first `::`. -/
theorem excludes_iff {pattern typeName method : String} : excludes pattern typeName method = true ↔
    (pattern = method ∧ Undivided method.toList) ∨
      (pattern = typeName ++ "::" ++ method ∧ Undivided (typeName.toList ++ [':'])) := by
  have hpath : pattern = typeName ++ "::" ++ method ↔
      pattern.toList = typeName.toList ++ ':' :: ':' :: method.toList := by
    rw [← toList_path, String.toList_inj]
  rw [hpath, excludes]
  cases hs : splitPath? pattern.toList with
  | none =>
    have hu := splitPath?_eq_none_iff.1 hs
    have hnot : ¬ (pattern.toList = typeName.toList ++ ':' :: ':' :: method.toList ∧
        Undivided (typeName.toList ++ [':'])) := fun ⟨he, ht⟩ => by
      rw [he, splitPath?_append ht] at hs
      cases hs
    simp only [beq_iff_eq, hnot, or_false]
    exact ⟨fun he => ⟨he, he ▸ hu⟩, fun h => h.1⟩
  | some p =>
    obtain ⟨before, after⟩ := p
    have hnot : ¬ (pattern = method ∧ Undivided method.toList) := fun ⟨he, hu⟩ => by
      rw [← he, ← splitPath?_eq_none_iff, hs] at hu
      cases hu
    simp only [hnot, false_or, ← splitPath?_eq_some_iff, hs, Bool.and_eq_true, beq_iff_eq,
      Option.some.injEq, Prod.mk.injEq]

namespace WeaveConfig

/-- The configuration with one more method to leave alone. -/
def excluding (c : WeaveConfig) (pattern : String) : WeaveConfig :=
  { c with excludeMethods := c.excludeMethods ++ [pattern] }

theorem selects_excluding (c : WeaveConfig) (pattern typeName method : String) :
    (c.excluding pattern).selects typeName method = false ↔
      c.selects typeName method = false ∨ excludes pattern typeName method = true := by
  simp only [selects, excluding, List.any_append, List.any_cons, List.any_nil, Bool.or_false]
  cases excludes pattern typeName method <;> simp

theorem any_excludes (c : WeaveConfig) (typeName method : String) :
    c.excludeMethods.any (excludes · typeName method) = true ↔
      (method ∈ c.excludeMethods ∧ Undivided method.toList) ∨
      (typeName ++ "::" ++ method ∈ c.excludeMethods ∧ Undivided (typeName.toList ++ [':'])) := by
  simp only [List.any_eq_true, excludes_iff]
  constructor
  · rintro ⟨pattern, hp, ⟨rfl, hu⟩ | ⟨rfl, hu⟩⟩
    · exact .inl ⟨hp, hu⟩
    · exact .inr ⟨hp, hu⟩
  · rintro (⟨hp, hu⟩ | ⟨hp, hu⟩)
    · exact ⟨_, hp, .inl ⟨rfl, hu⟩⟩
    · exact ⟨_, hp, .inr ⟨rfl, hu⟩⟩

/-- A method is left alone if its type is not among those to weave, or if its bare name or
its path is excluded and has no `::` but the one that belongs there. Excluding one more path
leaves alone the methods with this path whose type ends where the path is split, and no
others. -/
theorem selects_eq_false_iff (c : WeaveConfig) (typeName method : String) :
    (c.selects typeName method = false ↔
      (c.includeTypes ≠ [] ∧ typeName ∉ c.includeTypes) ∨
      (method ∈ c.excludeMethods ∧ Undivided method.toList) ∨
      (typeName ++ "::" ++ method ∈ c.excludeMethods ∧ Undivided (typeName.toList ++ [':']))) ∧
    ∀ typeName' method',
      (c.excluding (typeName ++ "::" ++ method)).selects typeName' method' = false ↔
        c.selects typeName' method' = false ∨
        (typeName' ++ "::" ++ method' = typeName ++ "::" ++ method ∧
          Undivided (typeName'.toList ++ [':'])) := by
  refine ⟨?_, fun typeName' method' => ?_⟩
  · rw [← any_excludes, selects, Bool.and_eq_false_iff, Bool.not_eq_false', Bool.or_eq_false_iff]
    simp
  · -- a path has a `::` in it, so it is never taken for a bare name
    have hbare : ¬ (typeName ++ "::" ++ method = method' ∧ Undivided method'.toList) := by
      rintro ⟨rfl, hu⟩
      rw [toList_path] at hu
      exact hu ⟨typeName.toList, method.toList, by simp⟩
    rw [selects_excluding, excludes_iff, or_iff_right hbare,
      eq_comm (a := typeName ++ "::" ++ method)]

/-- Neither the path of a method whose type has a `::` in its name, nor a bare name with one,
keeps the method from being woven. -/
theorem selects_divided :
    WeaveConfig.selects { excludeMethods := ["A::B" ++ "::" ++ "Get"] } "A::B" "Get" = true ∧
      WeaveConfig.selects { excludeMethods := ["Get::Set"] } "A" "Get::Set" = true := by
  decide

end WeaveConfig

end Interpose
