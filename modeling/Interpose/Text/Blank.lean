/-!
# Blank characters

The characters with the Unicode property `White_Space`, and trimming a text of
them. Type names and flag lists are trimmed by this rule.

Results:
* `trimEnd_eq_self_iff`, `trimStart_eq_self_iff`: what trimming leaves alone.
* `length_trim_le`: trimming never lengthens a text.
-/
namespace Interpose.Text

/-- The Unicode property `White_Space`: 25 characters. -/
def isBlank (c : Char) : Bool :=
  let n := c.toNat
  (9 ≤ n && n ≤ 13) || n == 0x20 || n == 0x85 || n == 0xA0 || n == 0x1680 ||
    (0x2000 ≤ n && n ≤ 0x200A) || n == 0x2028 || n == 0x2029 || n == 0x202F ||
    n == 0x205F || n == 0x3000

/-- Drops the blanks at the start. -/
def trimStart (cs : List Char) : List Char := cs.dropWhile isBlank

/-- Drops the blanks at the end. -/
def trimEnd (cs : List Char) : List Char := (cs.reverse.dropWhile isBlank).reverse

/-- Drops the blanks at either end. -/
def trim (cs : List Char) : List Char := trimEnd (trimStart cs)

theorem length_dropWhile_le (p : Char → Bool) (cs : List Char) :
    (cs.dropWhile p).length ≤ cs.length :=
  (List.dropWhile_sublist p).length_le

theorem length_trimStart_le (cs : List Char) : (trimStart cs).length ≤ cs.length :=
  length_dropWhile_le _ _

theorem length_trimEnd_le (cs : List Char) : (trimEnd cs).length ≤ cs.length := by
  simpa [trimEnd] using length_dropWhile_le isBlank cs.reverse

theorem length_trim_le (cs : List Char) : (trim cs).length ≤ cs.length :=
  Nat.le_trans (length_trimEnd_le _) (length_trimStart_le _)

/-- Trimming the start leaves a text alone iff it does not start with a blank. -/
theorem trimStart_eq_self_iff (cs : List Char) :
    trimStart cs = cs ↔ ∀ c ∈ cs.head?, isBlank c = false := by
  cases cs with
  | nil => simp [trimStart]
  | cons c r =>
    by_cases h : isBlank c = true
    · simp only [trimStart, List.dropWhile_cons, h, if_true, List.head?_cons, Option.mem_def,
        Option.some.injEq, forall_eq', Bool.true_eq_false, iff_false]
      intro e
      have := length_dropWhile_le isBlank r
      simp only [e, List.length_cons] at this
      omega
    · simp [trimStart, h]

/-- Trimming the end leaves a text alone iff it does not end with a blank. -/
theorem trimEnd_eq_self_iff (cs : List Char) :
    trimEnd cs = cs ↔ ∀ c ∈ cs.getLast?, isBlank c = false := by
  have h := trimStart_eq_self_iff cs.reverse
  rw [List.head?_reverse] at h
  rw [← h, trimStart, trimEnd]
  constructor
  · intro e
    simpa using congrArg List.reverse e
  · intro e
    rw [e, List.reverse_reverse]

end Interpose.Text
