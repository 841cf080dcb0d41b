import Interpose.Ty
import Interpose.Proofs.Except
/-!
# Type names

A type is written by its name, and not every type has a name that reads back as it: a class can
bear a name with blanks or brackets, or a keyword. The types that were read have such names, and
so have those that weaving brings in.

Results:
* `ofBase?_eq`: a name without a final `[]` is a keyword or a class name.
* `wellNamed_of_parse`: a type that was read is well named.
* `parse_name`: the name of a well-named type reads back as the type.
-/
namespace Interpose

namespace Text

variable {cs : List Char}

theorem trim_eq_self (hstart : ∀ c ∈ cs.head?, isBlank c = false)
    (hend : ∀ c ∈ cs.getLast?, isBlank c = false) : trim cs = cs := by
  rw [trim, (trimStart_eq_self_iff cs).2 hstart, (trimEnd_eq_self_iff cs).2 hend]

/-- Trimming takes away what is blank around a text that neither starts nor ends so. -/
theorem trim_append {front back : List Char} (hne : cs ≠ [])
    (hstart : ∀ c ∈ cs.head?, isBlank c = false) (hend : ∀ c ∈ cs.getLast?, isBlank c = false)
    (hf : ∀ c ∈ front, isBlank c = true) (hb : ∀ c ∈ back, isBlank c = true) :
    trim (front ++ cs ++ back) = cs := by
  have hfront : trimStart (front ++ cs ++ back) = cs ++ back := by
    rw [trimStart, List.append_assoc, List.dropWhile_append_of_pos hf]
    refine (trimStart_eq_self_iff (cs ++ back)).2 fun c hc => hstart c ?_
    rw [List.head?_append, List.head?_eq_some_head hne, Option.some_or] at hc
    rwa [List.head?_eq_some_head hne]
  rw [trim, hfront, trimEnd, List.reverse_append,
    List.dropWhile_append_of_pos fun c hc => hb c (List.mem_reverse.1 hc)]
  exact (trimEnd_eq_self_iff cs).2 hend

/-- Trimming takes away nothing but blanks. -/
theorem exists_append_trim (cs : List Char) : ∃ front back, cs = front ++ trim cs ++ back ∧
    (∀ c ∈ front, isBlank c = true) ∧ ∀ c ∈ back, isBlank c = true := by
  have hback : trimStart cs =
      trim cs ++ ((trimStart cs).reverse.takeWhile isBlank).reverse := by
    rw [trim, trimEnd, ← List.reverse_append, List.takeWhile_append_dropWhile,
      List.reverse_reverse]
  refine ⟨cs.takeWhile isBlank, ((trimStart cs).reverse.takeWhile isBlank).reverse, ?_, ?_, ?_⟩
  · rw [List.append_assoc, ← hback, trimStart, List.takeWhile_append_dropWhile]
  · exact List.all_eq_true.1 List.all_takeWhile
  · exact fun c hc => List.all_eq_true.1 List.all_takeWhile c (List.mem_reverse.1 hc)

end Text

namespace Ty

variable {s : String} {t : Ty} {cs : List Char}

/-- The type that has this name for a keyword. -/
def keyword? (s : String) : Option Ty :=
  if s = "void" then some void
  else if s = "bool" then some bool
  else if s = "int32" then some int32
  else if s = "int64" then some int64
  else if s = "float64" then some float64
  else if s = "string" then some string
  else if s = "object" then some object
  else none

/-- A text that is not empty and holds no brackets and no blanks. -/
structure Solid (cs : List Char) : Prop where
  nonempty : cs ≠ []
  chars : ∀ c ∈ cs, c ≠ '[' ∧ c ≠ ']' ∧ Text.isBlank c = false

theorem solid_iff {cs : List Char} :
    Solid cs ↔ ¬ (cs.isEmpty || cs.any fun c => c == '[' || c == ']' || Text.isBlank c) = true := by
  simp only [Bool.or_eq_true, List.isEmpty_iff, List.any_eq_true, beq_iff_eq, not_or, not_exists,
    not_and, Bool.not_eq_true, and_assoc]
  exact ⟨fun h => ⟨h.nonempty, h.chars⟩, fun h => ⟨h.1, h.2⟩⟩

instance (cs : List Char) : Decidable (Solid cs) := decidable_of_iff _ solid_iff.symm

theorem ite_some_or {α : Type} {p : Prop} [Decidable p] (a : α) (x y : Option α) :
    (if p then some a else x).or y = if p then some a else x.or y := by
  split <;> rfl

/-- A name without a final `[]` is a keyword or a class name. -/
theorem ofBase?_eq (s : String) :
    ofBase? s = (keyword? s).or (if Solid s.toList then some (named s) else none) := by
  have hempty : s.isEmpty = s.toList.isEmpty := by
    rw [Bool.eq_iff_iff]
    simp
  simp only [ofBase?, keyword?, solid_iff, hempty, ite_not, ite_some_or, Option.none_or]

/-- Does the name of the type mean the type? -/
def WellNamed : Ty → Prop
  | named n => Solid n.toList ∧ keyword? n = none
  | array element => element.WellNamed
  | _ => True

instance decidableWellNamed : (t : Ty) → Decidable t.WellNamed
  | named n => inferInstanceAs (Decidable (Solid n.toList ∧ keyword? n = none))
  | array element => decidableWellNamed element
  | void | bool | int32 | int64 | float64 | string | object => inferInstanceAs (Decidable True)

theorem keyword?_eq_some (h : keyword? s = some t) :
    Solid s.toList ∧ t.name = s ∧ t.WellNamed := by
  unfold keyword? at h
  repeat' split at h
  all_goals cases h
  all_goals
    subst s
    exact ⟨by decide, rfl, trivial⟩

theorem ofBase?_eq_some (h : ofBase? s = some t) : Solid s.toList ∧ t.name = s ∧ t.WellNamed := by
  rw [ofBase?_eq] at h
  rcases Option.or_eq_some_iff.1 h with h | ⟨hnone, h⟩
  · exact keyword?_eq_some h
  · split at h
    · next hsolid =>
      cases h
      exact ⟨hsolid, rfl, hsolid, hnone⟩
    · cases h

/-! ## Reading -/

theorem ofChars_of_brackets {rest : List Char} (h : dropBrackets? (Text.trim cs) = some rest) :
    ofChars cs = array <$> ofChars rest := by
  rw [ofChars]
  split
  · next h' =>
    rw [h] at h'
    cases h'
    rfl
  · next h' =>
    rw [h] at h'
    cases h'

theorem ofChars_of_base (h : dropBrackets? (Text.trim cs) = none) :
    ofChars cs = match ofBase? (String.ofList (Text.trim cs)) with
      | some t => .ok t
      | none => .error (String.ofList (Text.trim cs)) := by
  rw [ofChars]
  split
  · next h' =>
    rw [h] at h'
    cases h'
  · rfl

/-- A type that was read is well named. -/
theorem wellNamed_of_ofChars (h : ofChars cs = .ok t) : t.WellNamed := by
  induction cs using ofChars.induct generalizing t with
  | case1 cs rest hdrop ih =>
    rw [ofChars_of_brackets hdrop] at h
    obtain ⟨element, helement, rfl⟩ := map_eq_ok.1 h
    show element.WellNamed
    exact ih helement
  | case2 cs hdrop base t' =>
    have hbase : ofBase? (String.ofList (Text.trim cs)) = some t' := ‹_›
    rw [ofChars_of_base hdrop, hbase] at h
    cases h
    exact (ofBase?_eq_some hbase).2.2
  | case3 cs hdrop base =>
    have hbase : ofBase? (String.ofList (Text.trim cs)) = none := ‹_›
    rw [ofChars_of_base hdrop, hbase] at h
    cases h

theorem wellNamed_of_parse (h : parse s = .ok t) : t.WellNamed := wellNamed_of_ofChars h

/-! ## Reading names back -/

theorem Solid.trim_eq (h : Solid cs) : Text.trim cs = cs :=
  Text.trim_eq_self (fun c hc => (h.chars c (List.mem_of_mem_head? hc)).2.2)
    fun c hc => (h.chars c (List.mem_of_mem_getLast? hc)).2.2

theorem Solid.dropBrackets?_eq (h : Solid cs) : dropBrackets? cs = none := by
  cases hdrop : dropBrackets? cs with
  | none => rfl
  | some rest =>
    have hmem : ']' ∈ cs := by
      rw [dropBrackets?_eq_some hdrop]
      simp
    exact absurd rfl (h.chars ']' hmem).2.1

theorem parse_of_ofBase? (h : ofBase? s = some t) : parse s = .ok t := by
  have hsolid := (ofBase?_eq_some h).1
  have hdrop : dropBrackets? (Text.trim s.toList) = none := by
    rw [hsolid.trim_eq, hsolid.dropBrackets?_eq]
  rw [parse, ofChars_of_base hdrop, hsolid.trim_eq, String.ofList_toList, h]

theorem dropBrackets?_append (cs : List Char) : dropBrackets? (cs ++ ['[', ']']) = some cs := by
  simp [dropBrackets?]

/-- The name of a well-named type does not start with a blank. -/
theorem exists_head_name (h : t.WellNamed) :
    ∃ c rest, t.name.toList = c :: rest ∧ Text.isBlank c = false := by
  induction t with
  | array element ih =>
    obtain ⟨c, rest, hname, hc⟩ := ih h
    exact ⟨c, rest ++ ['[', ']'], by rw [name_array, String.toList_append, hname]; rfl, hc⟩
  | named n =>
    cases hn : n.toList with
    | nil => exact absurd hn h.1.nonempty
    | cons c rest => exact ⟨c, rest, hn, (h.1.chars c (by simp [hn])).2.2⟩
  | _ => exact ⟨_, _, rfl, by decide⟩

/-- The name of a well-named type reads back as the type. -/
theorem parse_name (h : t.WellNamed) : parse t.name = .ok t := by
  induction t with
  | array element ih =>
    obtain ⟨c, rest, hname, hc⟩ := exists_head_name (t := element) h
    have htext : (array element).name.toList = element.name.toList ++ ['[', ']'] := by
      rw [name_array, String.toList_append]
      rfl
    have htrim : Text.trim (array element).name.toList = element.name.toList ++ ['[', ']'] := by
      rw [htext]
      refine Text.trim_eq_self (by simpa [hname] using hc) fun c' hc' => ?_
      obtain rfl : ']' = c' := by simpa [List.getLast?_append] using hc'
      decide
    have hdrop : dropBrackets? (Text.trim (array element).name.toList) =
        some element.name.toList := by
      rw [htrim, dropBrackets?_append]
    rw [parse, ofChars_of_brackets hdrop]
    exact map_eq_ok.2 ⟨element, ih h, rfl⟩
  | named n =>
    have hbase : ofBase? n = some (named n) := by
      rw [ofBase?_eq, h.2, Option.none_or, if_pos h.1]
    exact parse_of_ofBase? hbase
  | _ => exact parse_of_ofBase? rfl

end Ty

end Interpose
