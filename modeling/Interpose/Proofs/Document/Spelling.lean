import Interpose.Proofs.Document.Names
/-!
# The spelling of types

A text spells a type by a base name with `[]` after it for each array, blanks at either end and
before each `[]`. The base is a keyword or, if it is none, the name of a class. A type has one
spelling without blanks, its name, and many with them.

Results:
* `ofChars_of_spells`, `spells_of_ofChars`: what is read is what is spelled, by induction on the
  suffixes and on the calls of the reader.
* `wellNamed_iff`: a type is spelled by its name unless its innermost element is a class of
  another spelling.
* `parse_spelling`: which texts are types, which types are their names, and that no two types
  that were read have the same name.
-/
namespace Interpose

/-- Nothing but blanks. -/
def Text.Blanks (cs : List Char) : Prop := ∀ c ∈ cs, isBlank c = true

theorem Text.blanks_nil : Text.Blanks [] := fun _ hc => absurd hc List.not_mem_nil

namespace Ty

/-! ## Spellings -/

/-- `[]` so many times, blanks before each. -/
inductive Suffixes : Nat → List Char → Prop
  | none : Suffixes 0 []
  | more {n : Nat} {cs blanks : List Char} (h : Suffixes n cs) (hb : Text.Blanks blanks) :
    Suffixes (n + 1) (cs ++ blanks ++ ['[', ']'])

/-- A base name with so many suffixes, blanks at either end. -/
inductive Spells (base : String) (n : Nat) : List Char → Prop
  | intro {before suffixes after : List Char} (hbase : Solid base.toList)
    (hb : Text.Blanks before) (hs : Suffixes n suffixes) (ha : Text.Blanks after) :
    Spells base n (before ++ base.toList ++ suffixes ++ after)

/-- The types with a name of their own. -/
def keywordTypes : List Ty := [void, bool, int32, int64, float64, string, object]

def keywords : List String := keywordTypes.map name

/-- The type that a base name means. -/
def ofBaseName (base : String) : Ty := (keywordTypes.find? (·.name == base)).getD (named base)

/-- Arrays of arrays of a type. -/
def arrays (t : Ty) : Nat → Ty
  | 0 => t
  | n + 1 => array (t.arrays n)

/-- What the arrays of a type are made of in the end. -/
def innermost : Ty → Ty
  | array element => element.innermost
  | t => t

variable {s base : String} {t t' : Ty} {cs : List Char} {n : Nat}

theorem ite_eq_find? {rest : List Ty} {x : Option Ty} (h : x = rest.find? (·.name == s)) :
    (if s = t.name then some t else x) = (t :: rest).find? (·.name == s) := by
  rw [List.find?_cons]
  by_cases hs : s = t.name
  · rw [if_pos hs, hs, beq_self_eq_true]
  · rw [if_neg hs, beq_eq_false_iff_ne.2 (Ne.symm hs), h]

theorem keyword?_eq_find? (s : String) : keyword? s = keywordTypes.find? (·.name == s) :=
  ite_eq_find? (t := void) <| ite_eq_find? (t := bool) <| ite_eq_find? (t := int32) <|
    ite_eq_find? (t := int64) <| ite_eq_find? (t := float64) <| ite_eq_find? (t := string) <|
      ite_eq_find? (t := object) rfl

theorem keyword?_eq_none_iff : keyword? s = none ↔ s ∉ keywords := by
  rw [keyword?_eq_find?, List.find?_eq_none, keywords, List.mem_map]
  simp

theorem ofBase?_of_solid (h : Solid base.toList) : ofBase? base = some (ofBaseName base) := by
  rw [ofBase?_eq, keyword?_eq_find?, if_pos h, ofBaseName]
  cases keywordTypes.find? (·.name == base) <;> rfl

/-! ## Reading spellings -/

/-- A base name with suffixes neither starts nor ends with a blank. -/
theorem Suffixes.trim_eq {before suffixes after : List Char} (h : Suffixes n suffixes)
    (hbase : Solid base.toList) (hb : Text.Blanks before) (ha : Text.Blanks after) :
    Text.trim (before ++ base.toList ++ suffixes ++ after) = base.toList ++ suffixes := by
  rw [List.append_assoc before]
  refine Text.trim_append (List.append_ne_nil_of_left_ne_nil hbase.nonempty _) (fun c hc => ?_)
    (fun c hc => ?_) hb ha
  · rw [List.head?_append, List.head?_eq_some_head hbase.nonempty, Option.some_or] at hc
    cases hc
    exact (hbase.chars _ (List.head_mem _)).2.2
  · cases h with
    | none =>
      rw [List.append_nil] at hc
      exact (hbase.chars c (List.mem_of_mem_getLast? hc)).2.2
    | more h hb =>
      obtain rfl : ']' = c := by simpa [List.getLast?_append] using hc
      decide

theorem ofChars_of_spells (h : Spells base n cs) : ofChars cs = .ok ((ofBaseName base).arrays n) := by
  obtain ⟨hbase, hb, hs, ha⟩ := h
  rename_i before suffixes after
  induction hs generalizing before after with
  | none =>
    have htrim := Suffixes.none.trim_eq hbase hb ha
    rw [List.append_nil base.toList] at htrim
    have hdrop : dropBrackets? (Text.trim (before ++ base.toList ++ [] ++ after)) = none := by
      rw [htrim, hbase.dropBrackets?_eq]
    rw [ofChars_of_base hdrop, htrim, String.ofList_toList, ofBase?_of_solid hbase]
    rfl
  | @more n suffixes blanks h hblanks ih =>
    have hdrop : dropBrackets? (Text.trim (before ++ base.toList ++
        (suffixes ++ blanks ++ ['[', ']']) ++ after)) = some (base.toList ++ suffixes ++ blanks) := by
      rw [(h.more hblanks).trim_eq hbase hb ha, ← List.append_assoc, dropBrackets?_append,
        List.append_assoc base.toList]
    rw [ofChars_of_brackets hdrop]
    have helement := ih Text.blanks_nil hblanks
    exact map_eq_ok.2 ⟨_, helement, rfl⟩

/-- Blanks around a spelling make another one. -/
theorem Spells.pad {front back : List Char} (h : Spells base n cs) (hf : Text.Blanks front)
    (hb : Text.Blanks back) : Spells base n (front ++ cs ++ back) := by
  obtain ⟨hbase, hbefore, hs, hafter⟩ := h
  have hpadded := Spells.intro hbase (List.forall_mem_append.2 ⟨hf, hbefore⟩) hs
    (List.forall_mem_append.2 ⟨hafter, hb⟩)
  simpa only [List.append_assoc] using hpadded

theorem Spells.brackets (h : Spells base n cs) : Spells base (n + 1) (cs ++ ['[', ']']) := by
  obtain ⟨hbase, hbefore, hs, hafter⟩ := h
  have hmore := Spells.intro hbase hbefore (hs.more hafter) Text.blanks_nil
  simpa only [List.append_assoc, List.append_nil] using hmore

theorem spells_of_ofChars (h : ofChars cs = .ok t) :
    ∃ base n, Spells base n cs ∧ t = (ofBaseName base).arrays n := by
  induction cs using ofChars.induct generalizing t with
  | case1 cs rest hdrop ih =>
    rw [ofChars_of_brackets hdrop] at h
    obtain ⟨element, helement, rfl⟩ := map_eq_ok.1 h
    obtain ⟨base, n, hspells, rfl⟩ := ih helement
    obtain ⟨front, back, hcs, hf, hb⟩ := Text.exists_append_trim cs
    rw [dropBrackets?_eq_some hdrop] at hcs
    rw [hcs]
    exact ⟨base, n + 1, hspells.brackets.pad hf hb, rfl⟩
  | case2 cs hdrop base t' =>
    have hbase : ofBase? (String.ofList (Text.trim cs)) = some t' := ‹_›
    rw [ofChars_of_base hdrop, hbase] at h
    cases h
    have hsolid := (ofBase?_eq_some hbase).1
    rw [ofBase?_of_solid hsolid, Option.some.injEq] at hbase
    obtain ⟨front, back, hcs, hf, hb⟩ := Text.exists_append_trim cs
    have hspells := Spells.intro hsolid hf .none hb
    rw [String.toList_ofList, List.append_nil, ← hcs] at hspells
    exact ⟨_, 0, hspells, hbase.symm⟩
  | case3 cs hdrop base =>
    have hbase : ofBase? (String.ofList (Text.trim cs)) = none := ‹_›
    rw [ofChars_of_base hdrop, hbase] at h
    cases h

/-! ## Names -/

theorem wellNamed_iff (t : Ty) :
    t.WellNamed ↔ ∀ n, t.innermost = named n → Solid n.toList ∧ n ∉ keywords := by
  induction t with
  | array element ih => exact ih
  | named n =>
    show Solid n.toList ∧ keyword? n = none ↔ _
    rw [keyword?_eq_none_iff]
    constructor
    · intro h n' hn'
      cases hn'
      exact h
    · intro h
      exact h n rfl
  | _ =>
    constructor
    · intro _ n hn
      cases hn
    · intro _
      trivial

theorem name_injective (h : t.WellNamed) (h' : t'.WellNamed) (hname : t.name = t'.name) :
    t = t' := by
  have hread := parse_name h
  rw [hname, parse_name h'] at hread
  cases hread
  rfl

/-- A text is read as a type exactly if it spells it. A type that was read is read again from its
name, and no other type that was read has this name. The types read from their names are those
whose innermost element is no class, or a class with a solid name that is not a keyword. -/
theorem parse_spelling :
    (∀ s t, parse s = .ok t ↔ ∃ base n, Spells base n s.toList ∧ t = (ofBaseName base).arrays n) ∧
    (∀ s t, parse s = .ok t → parse t.name = .ok t) ∧
    (∀ s s' t t', parse s = .ok t → parse s' = .ok t' → t.name = t'.name → t = t') ∧
    ∀ t, parse t.name = .ok t ↔
      ∀ n, t.innermost = named n → Solid n.toList ∧ n ∉ keywords := by
  refine ⟨fun s t => ⟨spells_of_ofChars, ?spelled⟩, fun s t h => parse_name (wellNamed_of_parse h),
    fun s s' t t' h h' => name_injective (wellNamed_of_parse h) (wellNamed_of_parse h'),
    fun t => ?named⟩
  case spelled =>
    rintro ⟨base, n, hspells, rfl⟩
    exact ofChars_of_spells hspells
  case named =>
    rw [← wellNamed_iff]
    exact ⟨wellNamed_of_parse, parse_name⟩

end Ty

end Interpose
