import Mathlib.Data.Nat.Bitwise
import Mathlib.Data.Nat.Digits.Defs
import Interpose.Document.Decode
import Interpose.Document.Encode
import Interpose.Proofs.Document.Names
/-!
# Numbers and flags

How numbers and flags are written, and that they read back. Digits are those of the base, most
significant first; the pattern of a double has sixteen of them; flags are pieces between bars,
with one piece for all bits that have no name.

Results:
* `readDigits_toDigits`: the digits of a number read back.
* `readInt64_toString`, `readHex32_toDigits`, `decodeFloat_encodeFloat`: so do whole numbers, words
  and doubles, a NaN as the one that documents denote.
* `splitBars_intercalate`: pieces that hold no bars and no blanks are found again.
* `decodeFlagText_text`: every flags read back, whether their bits have names or not.
-/
namespace Interpose

/-! ## Digits -/

theorem Text.hexDigits_eq (n : Nat) : hexDigits n = Nat.toDigits 16 n := by
  have digit (d : Nat) (h : d < 16) : hexDigit d = d.digitChar := by
    revert d
    decide
  induction n using hexDigits.induct with
  | case1 n h => rw [hexDigits, if_pos h, Nat.toDigits_of_lt_base h, digit n h]
  | case2 n h ih =>
    rw [hexDigits, if_neg h, ih, Nat.toDigits_of_base_le (by decide) (Nat.not_lt.1 h),
      digit _ (Nat.mod_lt _ (by decide))]

namespace Decimal

variable {base limit below above n : Nat} {overflow : ReadError} {cs : List Char}

theorem digitValue?_digitChar : ∀ base ≤ 16, ∀ d < base,
    digitValue? base d.digitChar = some d := by decide

theorem readDigits_append (value : Nat) (xs ys : List Char) :
    readDigits base limit overflow value (xs ++ ys) =
      readDigits base limit overflow value xs >>= (readDigits base limit overflow · ys) := by
  induction xs generalizing value with
  | nil => rfl
  | cons c rest ih =>
    rw [List.cons_append, readDigits, readDigits]
    cases digitValue? base c with
    | none => rfl
    | some d =>
      dsimp only
      split
      · exact ih _
      · rfl

/-- The digits of a number read back. -/
theorem readDigits_toDigits (hb : 1 < base) (hb' : base ≤ 16) (h : n ≤ limit) :
    readDigits base limit overflow 0 (Nat.toDigits base n) = .ok n := by
  induction n using Nat.strongRecOn with
  | ind n ih =>
    by_cases hlt : n < base
    · rw [Nat.toDigits_of_lt_base hlt, readDigits, digitValue?_digitChar base hb' n hlt]
      simp [readDigits, h]
    · have hbase := Nat.not_lt.1 hlt
      have hdiv : n / base < n := Nat.div_lt_self (by omega) hb
      rw [Nat.toDigits_of_base_le hb hbase, readDigits_append,
        ih (n / base) hdiv (by omega), ok_bind, readDigits,
        digitValue?_digitChar base hb' _ (Nat.mod_lt _ (by omega))]
      simp [readDigits, Nat.div_add_mod, h]

theorem ne_of_digitValue? {c : Char} (h : (digitValue? base c).isSome) : c ≠ '+' ∧ c ≠ '-' := by
  constructor
  · rintro rfl
    simp [digitValue?] at h
  · rintro rfl
    simp [digitValue?] at h

theorem isSome_digitValue? (hb : 1 < base) (hb' : base ≤ 16) {c : Char}
    (hc : c ∈ Nat.toDigits base n) : (digitValue? base c).isSome := by
  induction n using Nat.strongRecOn with
  | ind n ih =>
    by_cases hlt : n < base
    · rw [Nat.toDigits_of_lt_base hlt, List.mem_singleton] at hc
      rw [hc, digitValue?_digitChar base hb' n hlt]
      rfl
    · have hbase := Nat.not_lt.1 hlt
      rw [Nat.toDigits_of_base_le hb hbase, List.mem_append, List.mem_singleton] at hc
      rcases hc with hc | rfl
      · exact ih (n / base) (Nat.div_lt_self (by omega) hb) hc
      · rw [digitValue?_digitChar base hb' _ (Nat.mod_lt _ (by omega))]
        rfl

/-- A text that starts with a digit has no sign. -/
theorem readBounded_of_digits (hne : cs ≠ []) (h : ∀ c ∈ cs, (digitValue? base c).isSome) :
    readBounded base below above cs = Int.ofNat <$> readDigits base above .tooLarge 0 cs := by
  unfold readBounded
  split
  · exact absurd rfl hne
  · exact absurd rfl (ne_of_digitValue? (h '+' (by simp))).1
  · exact absurd rfl (ne_of_digitValue? (h '-' (by simp))).2
  · exact absurd rfl (ne_of_digitValue? (h '+' (by simp))).1
  · exact absurd rfl (ne_of_digitValue? (h '-' (by simp))).2
  · rfl

theorem readBounded_minus (hne : cs ≠ []) : readBounded base below above ('-' :: cs) =
    (fun n => -Int.ofNat n) <$> readDigits base below .tooSmall 0 cs := by
  cases cs with
  | nil => exact absurd rfl hne
  | cons c rest => rfl

theorem readBounded_toDigits (hb : 1 < base) (hb' : base ≤ 16) (h : n ≤ above) :
    readBounded base below above (Nat.toDigits base n) = .ok n := by
  rw [readBounded_of_digits Nat.toDigits_ne_nil fun c hc => isSome_digitValue? hb hb' hc,
    readDigits_toDigits hb hb' h]
  rfl

theorem readHex32_toDigits (u : UInt32) : readHex32 (Nat.toDigits 16 u.toNat) = .ok u := by
  have hread : readBounded 16 0 0xFFFFFFFF (Nat.toDigits 16 u.toNat) = .ok u.toNat :=
    readBounded_toDigits (by decide) (by decide) (Nat.le_of_lt_succ u.toNat_lt)
  unfold readHex32
  split
  · next rest hcs =>
    have hminus : '-' ∈ Nat.toDigits 16 u.toNat := hcs ▸ List.mem_cons_self
    have hdigit := isSome_digitValue? (by decide) (by decide) hminus
    exact absurd rfl (ne_of_digitValue? hdigit).2
  · exact map_eq_ok.2 ⟨_, hread, by simp⟩

theorem readInt64_toString (v : Int64) : readInt64 (toString v.toInt) = .ok v := by
  have hlo := v.le_toInt
  have hhi := v.toInt_lt
  have hread : readBounded 10 0x8000000000000000 0x7FFFFFFFFFFFFFFF (toString v.toInt).toList =
      .ok v.toInt := by
    cases hv : v.toInt with
    | ofNat n =>
      rw [hv] at hhi
      have htext : (toString (Int.ofNat n)).toList = Nat.toDigits 10 n := by
        show n.repr.toList = _
        rw [Nat.repr_eq_ofList_toDigits, String.toList_ofList]
      rw [htext]
      exact readBounded_toDigits (by decide) (by decide) (by simp at hhi; omega)
    | negSucc n =>
      rw [hv] at hlo
      have htext : (toString (Int.negSucc n)).toList = '-' :: Nat.toDigits 10 (n + 1) := by
        show ("-" ++ (n + 1).repr).toList = _
        simp [Nat.repr_eq_ofList_toDigits]
      rw [htext, readBounded_minus Nat.toDigits_ne_nil,
        readDigits_toDigits (by decide) (by decide) (by omega)]
      rfl
  exact map_eq_ok.2 ⟨_, hread, v.ofInt_toInt⟩

/-- What digits come to is read off their values. -/
theorem foldl_of_readDigits {value : Nat} (h : readDigits base limit overflow value cs = .ok n) :
    (cs.filterMap (digitValue? base)).length = cs.length ∧
      (cs.filterMap (digitValue? base)).foldl (fun n d => base * n + d) value = n := by
  induction cs generalizing value with
  | nil =>
    cases h
    exact ⟨rfl, rfl⟩
  | cons c rest ih =>
    rw [readDigits] at h
    split at h
    · cases h
    · next d hd =>
      split at h
      · rw [List.filterMap_cons, hd]
        exact ⟨congrArg (· + 1) (ih h).1, (ih h).2⟩
      · cases h

theorem readDigits_zeros (hb : 0 < base) (k : Nat) (cs : List Char) :
    readDigits base limit overflow 0 (List.replicate k '0' ++ cs) =
      readDigits base limit overflow 0 cs := by
  induction k with
  | zero => rfl
  | succ k ih =>
    have hzero : digitValue? base '0' = some 0 := by simp [digitValue?, hb]
    rw [List.replicate_succ, List.cons_append, readDigits, hzero]
    simpa using ih

end Decimal

/-! ## Doubles -/

namespace Document

theorem toList_hexPattern (bits : UInt64) : (hexPattern bits).toList =
    List.replicate (16 - (Nat.toDigits 16 bits.toNat).length) '0' ++
      Nat.toDigits 16 bits.toNat := by
  simp only [hexPattern, Text.hexDigits_eq, String.toList_ofList]

theorem length_hexPattern (bits : UInt64) : (hexPattern bits).toList.length = 16 := by
  have hlength : (Nat.toDigits 16 bits.toNat).length ≤ 16 :=
    Nat.toDigits_length 16 bits.toNat 16 (by decide) bits.toNat_lt
  rw [toList_hexPattern, List.length_append, List.length_replicate]
  omega

/-- A number reads back from its pattern, and a NaN as the one that documents denote. -/
theorem decodeFloat_encodeFloat (x : Binary64) : decodeFloat (encodeFloat x) = .ok x.canonical := by
  unfold encodeFloat Binary64.canonical
  by_cases hnan : x.isNaN = true
  · rw [if_pos hnan, if_pos hnan]
    rfl
  · have hword : hexPattern x.bits ≠ "nan" := by
      intro h
      have hlength := length_hexPattern x.bits
      rw [h] at hlength
      cases hlength
    have hread : Decimal.readDigits 16 0xFFFFFFFFFFFFFFFF .invalidDigit 0
        (hexPattern x.bits).toList = .ok x.bits.toNat := by
      rw [toList_hexPattern, Decimal.readDigits_zeros (by decide)]
      exact Decimal.readDigits_toDigits (by decide) (by decide) (Nat.le_of_lt_succ x.bits.toNat_lt)
    obtain ⟨hcount, hvalue⟩ := Decimal.foldl_of_readDigits hread
    rw [length_hexPattern] at hcount
    rw [if_neg hnan, if_neg hnan]
    simp only [decodeFloat, decodeString, ok_bind, if_neg hword, length_hexPattern, hcount,
      hvalue, and_self, if_true, UInt64.ofNat_toNat]
    rw [Binary64.canonical, if_neg hnan]
    rfl

end Document

/-! ## Flags -/

namespace MethodFlags

/-- The pieces of the text with what each of them means. -/
def pieces (f : MethodFlags) : List (String × MethodFlags) :=
  names.filter (fun n => f.contains n.2) ++
    if f.unnamed = 0 then []
    else [("0x" ++ String.ofList (Text.hexDigits f.unnamed.toNat), ⟨f.unnamed⟩)]

theorem parts_eq (f : MethodFlags) : f.parts = f.pieces.map (·.1) := by
  unfold parts pieces
  split <;> simp

theorem union_zero (f : MethodFlags) : f.union ⟨0⟩ = f := by simp [union]

/-- A flag of one bit is set, or has no bit in common. -/
theorem and_name (f : MethodFlags) : ∀ n ∈ names,
    f.bits &&& n.2.bits = n.2.bits ∨ f.bits &&& n.2.bits = 0 := by
  have bit (i : Nat) (k : UInt32) (hk : k.toNat = Nat.pow 2 i) :
      f.bits &&& k = k ∨ f.bits &&& k = 0 := by
    have hand : (f.bits &&& k).toNat = (f.bits.toNat.testBit i).toNat * k.toNat := by
      rw [UInt32.toNat_and, hk]
      exact Nat.and_two_pow _ _
    cases hbit : f.bits.toNat.testBit i with
    | true =>
      rw [hbit, Bool.toNat_true, Nat.one_mul] at hand
      exact .inl (UInt32.toNat_inj.1 hand)
    | false =>
      rw [hbit, Bool.toNat_false, Nat.zero_mul] at hand
      exact .inr (UInt32.toNat_inj.1 hand)
  simp only [names, List.forall_mem_cons, List.not_mem_nil, false_imp_iff, implies_true, and_true]
  exact ⟨bit 0 _ rfl, bit 1 _ rfl, bit 2 _ rfl, bit 3 _ rfl⟩

theorem foldl_filter_names (f g : MethodFlags) {l : List (String × MethodFlags)}
    (h : ∀ n ∈ l, f.bits &&& n.2.bits = n.2.bits ∨ f.bits &&& n.2.bits = 0) :
    (l.filter fun n => f.contains n.2).foldl (fun g n => g.union n.2) g =
      l.foldl (fun g n => g.union ⟨f.bits &&& n.2.bits⟩) g := by
  induction l generalizing g with
  | nil => rfl
  | cons n rest ih =>
    have ih := fun g => ih g fun x hx => h x (List.mem_cons_of_mem _ hx)
    by_cases hc : f.bits &&& n.2.bits = n.2.bits
    · have hcontains : f.contains n.2 = true := by simp [contains, hc]
      rw [List.filter_cons_of_pos (by simpa using hcontains), List.foldl_cons, List.foldl_cons,
        ih, hc]
    · have hcontains : ¬ f.contains n.2 = true := by simp [contains, hc]
      have hzero := (h n List.mem_cons_self).resolve_left hc
      rw [List.filter_cons_of_neg (by simpa using hcontains), List.foldl_cons, ih, hzero,
        union_zero]

/-- The pieces of the text come to the flags. -/
theorem foldl_pieces (f : MethodFlags) : f.pieces.foldl (fun g n => g.union n.2) {} = f := by
  have hunnamed (g : MethodFlags) : (if f.unnamed = 0 then [] else
      [("0x" ++ String.ofList (Text.hexDigits f.unnamed.toNat), (⟨f.unnamed⟩ : MethodFlags))]).foldl
        (fun g n => g.union n.2) g = g.union ⟨f.unnamed⟩ := by
    split
    · next h => rw [h, union_zero]; rfl
    · rfl
  rw [pieces, List.foldl_append, foldl_filter_names f {} f.and_name, hunnamed]
  have hall : f.bits.toNat &&& (1 ||| 2 ||| 4 ||| 8 ||| 0xFFFFFFF0) = f.bits.toNat :=
    Nat.and_two_pow_sub_one_of_lt_two_pow f.bits.toNat_lt
  simp only [Nat.and_or_distrib_left] at hall
  have hbits : (0 ||| f.bits &&& 1 ||| f.bits &&& 2 ||| f.bits &&& 4 ||| f.bits &&& 8 |||
      f.bits &&& 0xFFFFFFF0) = f.bits := by
    refine UInt32.toNat_inj.1 ?_
    simp only [UInt32.toNat_or, UInt32.toNat_and]
    rw [show UInt32.toNat 0 = 0 from rfl, Nat.zero_or]
    exact hall
  exact congrArg MethodFlags.mk hbits

end MethodFlags

namespace Text

/-- A piece that keeps its place between bars and blanks. -/
structure Neat (cs : List Char) : Prop where
  nonempty : cs ≠ []
  chars : ∀ c ∈ cs, c ≠ '|' ∧ isBlank c = false

theorem trim_padded {cs front back : List Char} (h : Neat cs)
    (hf : ∀ c ∈ front, isBlank c = true) (hb : ∀ c ∈ back, isBlank c = true) :
    trim (front ++ cs ++ back) = cs :=
  trim_append h.nonempty (fun c hc => (h.chars c (List.mem_of_mem_head? hc)).2)
    (fun c hc => (h.chars c (List.mem_of_mem_getLast? hc)).2) hf hb

end Text

theorem Decimal.neat_of_digitValue? {base : Nat} {c : Char}
    (h : (digitValue? base c).isSome) : c ≠ '|' ∧ Text.isBlank c = false := by
  have hrange : 48 ≤ c.toNat ∧ c.toNat ≤ 57 ∨ 97 ≤ c.toNat ∧ c.toNat ≤ 102 ∨
      65 ≤ c.toNat ∧ c.toNat ≤ 70 := by
    unfold digitValue? at h
    dsimp only at h
    repeat' split at h
    all_goals first | omega | cases h
  constructor
  · rintro rfl
    revert hrange
    decide
  · simp [Text.isBlank]
    omega

namespace Document

theorem splitBars_of_none {cs : List Char} (h : '|' ∉ cs) : splitBars cs = [cs] := by
  induction cs with
  | nil => rfl
  | cons c rest ih =>
    have hc : c ≠ '|' := fun he => h (he ▸ List.mem_cons_self)
    rw [splitBars, ih fun hm => h (List.mem_cons_of_mem _ hm)]
    exact fun he => hc he

theorem splitBars_append {cs : List Char} (h : '|' ∉ cs) (rest : List Char) :
    splitBars (cs ++ '|' :: rest) = cs :: splitBars rest := by
  induction cs with
  | nil => rfl
  | cons c cs ih =>
    have hc : c ≠ '|' := fun he => h (he ▸ List.mem_cons_self)
    rw [List.cons_append, splitBars, ih fun hm => h (List.mem_cons_of_mem _ hm)]
    exact fun he => hc he

/-- Neat pieces with bars between them are found again. -/
theorem splitBars_intercalate {front p : List Char} {ps : List (List Char)}
    (hf : ∀ c ∈ front, c = ' ') (h : ∀ q ∈ p :: ps, Text.Neat q) :
    (splitBars (front ++ List.intercalate " | ".toList (p :: ps))).map Text.trim = p :: ps := by
  have hp := h p List.mem_cons_self
  have hblank : ∀ c ∈ front, Text.isBlank c = true := fun c hc => hf c hc ▸ by decide
  have hspace : ∀ c ∈ [' '], Text.isBlank c = true := List.forall_mem_singleton.2 (by decide)
  have hbar : '|' ∉ front ++ p := by
    intro hm
    rcases List.mem_append.1 hm with hm | hm
    · exact absurd (hf _ hm) (by decide)
    · exact (hp.chars _ hm).1 rfl
  induction ps generalizing front p with
  | nil =>
    rw [List.intercalate_singleton, splitBars_of_none hbar]
    have htrim : Text.trim (front ++ p ++ []) = p :=
      Text.trim_padded hp hblank fun _ hc => absurd hc List.not_mem_nil
    rw [List.append_nil] at htrim
    rw [List.map_singleton, htrim]
  | cons q rest ih =>
    have htext : front ++ List.intercalate " | ".toList (p :: q :: rest) =
        (front ++ p ++ [' ']) ++ '|' :: ([' '] ++ List.intercalate " | ".toList (q :: rest)) := by
      rw [List.intercalate_cons_cons]
      simp
    rw [htext, splitBars_append (by simpa using hbar), List.map_cons,
      Text.trim_padded hp hblank hspace]
    have hrest : ∀ x ∈ q :: rest, Text.Neat x := fun x hx => h x (List.mem_cons_of_mem _ hx)
    have hq := hrest q List.mem_cons_self
    have hbarq : '|' ∉ [' '] ++ q := by
      intro hm
      rcases List.mem_append.1 hm with hm | hm
      · exact absurd (List.mem_singleton.1 hm) (by decide)
      · exact (hq.chars _ hm).1 rfl
    rw [ih (by simp) hrest hq hspace hbarq]

/-- Each piece of the text is neat, and is read as what it means. -/
theorem decodeFlag_pieces (f : MethodFlags) : ∀ n ∈ f.pieces,
    Text.Neat n.1.toList ∧ decodeFlag n.1.toList = .ok n.2 := by
  intro n hn
  rcases List.mem_append.1 hn with hn | hn
  · have hnames : ∀ n ∈ MethodFlags.names, n.1.toList ≠ [] ∧
        (n.1.toList.all fun c => c ≠ '|' ∧ Text.isBlank c = false) = true ∧
          decodeFlag n.1.toList = .ok n.2 := by decide
    obtain ⟨hne, hchars, hread⟩ := hnames n (List.mem_filter.1 hn).1
    exact ⟨⟨hne, by simpa using hchars⟩, hread⟩
  · split at hn
    · cases hn
    · obtain rfl := List.mem_singleton.1 hn
      have htext : ("0x" ++ String.ofList (Text.hexDigits f.unnamed.toNat)).toList =
          '0' :: 'x' :: Nat.toDigits 16 f.unnamed.toNat := by
        simp [Text.hexDigits_eq]
      rw [htext]
      refine ⟨⟨List.cons_ne_nil _ _, ?_⟩, ?_⟩
      · refine List.forall_mem_cons.2 ⟨by decide, List.forall_mem_cons.2 ⟨by decide, ?_⟩⟩
        exact fun c hc => Decimal.neat_of_digitValue?
          (Decimal.isSome_digitValue? (by decide) (by decide) hc)
      · rw [decodeFlag, Decimal.readHex32_toDigits]

theorem foldlM_decodeFlag {l : List (String × MethodFlags)}
    (h : ∀ n ∈ l, decodeFlag n.1.toList = .ok n.2) (f : MethodFlags) :
    (l.map (·.1.toList)).foldlM (fun f piece => do return f.union (← decodeFlag piece)) f =
      Except.ok (l.foldl (fun f n => f.union n.2) f) := by
  induction l generalizing f with
  | nil => rfl
  | cons n rest ih =>
    rw [List.map_cons, List.foldlM_cons, h n List.mem_cons_self]
    exact ih (fun x hx => h x (List.mem_cons_of_mem _ hx)) _

/-- The text of flags reads back, bits without a name included. -/
theorem decodeFlagText_text (f : MethodFlags) : decodeFlagText f.text = .ok f := by
  have hread := foldlM_decodeFlag (fun n hn => (decodeFlag_pieces f n hn).2) {}
  have hneat := fun n hn => (decodeFlag_pieces f n hn).1
  have htext : f.text.toList = List.intercalate " | ".toList (f.pieces.map (·.1.toList)) := by
    rw [MethodFlags.text, String.toList_intercalate, MethodFlags.parts_eq, List.map_map]
    rfl
  rw [f.foldl_pieces] at hread
  generalize f.pieces = l at hread hneat htext
  cases l with
  | nil =>
    cases hread
    exact decodeFlags_blank (by rw [htext]; rfl)
  | cons n rest =>
    have hpieces : ∀ q ∈ (n :: rest).map (·.1.toList), Text.Neat q := List.forall_mem_map.2 hneat
    have hsplit : (splitBars ([] ++ f.text.toList)).map Text.trim =
        (n :: rest).map (·.1.toList) := by
      rw [htext]
      exact splitBars_intercalate (fun _ hc => absurd hc List.not_mem_nil) hpieces
    have hshown : ¬ f.text.toList.all Text.isBlank = true := by
      intro hblank
      obtain ⟨c, hc⟩ := List.exists_mem_of_ne_nil _ (hneat n List.mem_cons_self).nonempty
      have hmem : c ∈ f.text.toList := by
        rw [htext, List.map_cons]
        cases rest.map (·.1.toList) <;> simp [hc]
      have hsolid := ((hneat n List.mem_cons_self).chars c hc).2
      rw [List.all_eq_true.1 hblank c hmem] at hsolid
      cases hsolid
    rw [decodeFlagText, if_neg hshown, ← hread, ← hsplit, List.foldlM_map]
    rfl

end Document

end Interpose
