import Mathlib.Algebra.Ring.Nat
import Interpose.Proofs.Weave.Layout
/-!
# Positions in a woven body

Where the parts of a layout stand. A position of the original body moves behind the
prologue, and further for each return before it that now takes two instructions
(`shift`); the order of positions and their relation to regions stay as they were.

Results:
* `monotone_shift`: shifting keeps the order of positions.
* `stream_shift`, `stream_front`, `stream_back`: what stands where.
* `regions_of_describes`: the regions are the original ones, shifted, and the guard's.
-/
namespace Interpose

/-- A range of positions, moved. -/
def Span.shift (f : Nat → Nat) (s : Span) : Span := ⟨f s.start, f s.stop⟩

def Region.shift (f : Nat → Nat) (r : Region) : Region :=
  ⟨r.kind, r.tryRange.shift f, r.handlerRange.shift f⟩

/-- Does a move of positions keep their order? -/
def Monotone (f : Nat → Nat) : Prop := ∀ p q, p < q → f p < f q

theorem Monotone.le_iff {f : Nat → Nat} (h : Monotone f) {p q : Nat} : f p ≤ f q ↔ p ≤ q := by
  refine ⟨fun hle => ?_, fun hle => ?_⟩
  · rcases Nat.lt_or_ge q p with hlt | hge
    · have := h q p hlt
      omega
    · exact hge
  · rcases Nat.lt_or_eq_of_le hle with hlt | rfl
    · exact Nat.le_of_lt (h p q hlt)
    · exact Nat.le_refl _

theorem Monotone.lt_iff {f : Nat → Nat} (h : Monotone f) {p q : Nat} : f p < f q ↔ p < q := by
  rw [← Nat.not_le, h.le_iff, Nat.not_le]

theorem contains_shift {f : Nat → Nat} (h : Monotone f) (s : Span) (p : Nat) :
    (s.shift f).contains (f p) = s.contains p := by
  simp only [Span.contains, Span.shift, h.le_iff, h.lt_iff]

theorem monotone_id : Monotone id := fun _ _ h => h

/-! ## Retired streams -/

section

variable {exit : InstructionId} {result? : Option SlotId}

/-- Number of fresh instructions among those in the place of the first `p`. -/
def grown (result? : Option SlotId) (code : List Instruction) (p : Nat) : Nat :=
  ((code.take p).map (growth result?)).sum

theorem grown_cons_succ (i : Instruction) (rest : List Instruction) (p : Nat) :
    grown result? (i :: rest) (p + 1) = growth result? i + grown result? rest p := by
  simp [grown]

theorem grown_succ {code : List Instruction} {p : Nat} {i : Instruction}
    (h : code[p]? = some i) :
    grown result? code (p + 1) = grown result? code p + growth result? i := by
  unfold grown
  rw [List.take_add_one, h]
  simp

theorem grown_le_succ (result? : Option SlotId) (code : List Instruction) (p : Nat) :
    grown result? code p ≤ grown result? code (p + 1) := by
  cases h : code[p]? with
  | some i =>
    rw [grown_succ h]
    omega
  | none =>
    unfold grown
    rw [List.take_add_one, h]
    simp

/-- The entries in the place of an instruction, and after them those of the next one. -/
theorem retire_getElem? (exit : InstructionId) (result? : Option SlotId) (fresh : Nat)
    {l : List (InstructionId × Instruction)} {p : Nat} {id : InstructionId} {i : Instruction}
    (h : l[p]? = some (id, i)) :
    ∃ fresh', ∀ k, k < 1 + growth result? i →
      (retire exit result? fresh l)[p + grown result? (l.map (·.2)) p + k]? =
        (retired exit result? fresh' id i)[k]? := by
  induction l generalizing fresh p with
  | nil => cases h
  | cons x rest ih =>
    obtain ⟨id₀, i₀⟩ := x
    have hlen := length_retired exit result? fresh id₀ i₀
    cases p with
    | zero =>
      obtain ⟨rfl, rfl⟩ : id₀ = id ∧ i₀ = i := Prod.mk.inj (Option.some.inj h)
      refine ⟨fresh, fun k hk => ?_⟩
      have hk' : k < (retired exit result? fresh id₀ i₀).length := by omega
      have hzero : 0 + grown result? (((id₀, i₀) :: rest).map (·.2)) 0 + k = k := by
        simp [grown]
      rw [hzero, retire, List.getElem?_append_left hk']
    | succ p =>
      obtain ⟨fresh', hrest⟩ := ih (fresh + growth result? i₀) (p := p) h
      refine ⟨fresh', fun k hk => ?_⟩
      rw [← hrest k hk, retire, List.map_cons, grown_cons_succ]
      have hindex : p + 1 + (growth result? i₀ + grown result? (rest.map (·.2)) p) + k =
          (retired exit result? fresh id₀ i₀).length +
            (p + grown result? (rest.map (·.2)) p + k) := by
        omega
      rw [hindex, List.getElem?_append_right (Nat.le_add_right _ _), Nat.add_sub_cancel_left]

theorem length_retire (fresh : Nat) (l : List (InstructionId × Instruction)) :
    (retire exit result? fresh l).length = l.length + grown result? (l.map (·.2)) l.length := by
  induction l generalizing fresh with
  | nil => rfl
  | cons x rest ih =>
    obtain ⟨id, i⟩ := x
    rw [retire, List.length_append, length_retired, ih, List.map_cons, List.length_cons,
      grown_cons_succ]
    dsimp only
    omega

end

/-! ## Layouts -/

namespace Layout

variable (L : Layout)

/-- Where a position of the original body is in the woven one. -/
def shift (p : Nat) : Nat := L.front.length + p + grown L.result? L.body.code p

theorem length_front : L.front.length = 1 + L.prologue.length := by
  rw [front, List.length_cons, Body.length_number]
  omega

theorem shift_zero : L.shift 0 = L.front.length := rfl

theorem shift_lt_succ (p : Nat) : L.shift p < L.shift (p + 1) := by
  have := grown_le_succ L.result? L.body.code p
  unfold shift
  omega

theorem monotone_shift : Monotone L.shift := by
  intro p q h
  induction q with
  | zero => cases h
  | succ q ih =>
    have hq := L.shift_lt_succ q
    rcases Nat.lt_succ_iff_lt_or_eq.1 h with h | rfl
    · exact Nat.lt_trans (ih h) hq
    · exact hq

/-- After an instruction that stays alone in its place comes the next one. -/
theorem shift_succ {p : Nat} {i : Instruction} (h : L.body.code[p]? = some i) :
    L.shift (p + 1) = L.shift p + (1 + growth L.result? i) := by
  unfold shift
  rw [grown_succ h]
  omega

theorem growth_of_ne_ret {i : Instruction} (h : i.opcode ≠ .ret) : growth L.result? i = 0 :=
  if_neg h

/-- The epilogue starts where the position after the original body would be. -/
theorem length_middle : L.front.length + L.middle.length = L.shift L.body.size := by
  rw [middle, length_retire]
  simp only [shift, Body.code, Body.size]
  omega

theorem stream_front {p : Nat} (h : p < L.front.length) : L.stream[p]? = L.front[p]? := by
  rw [stream, List.append_assoc, List.getElem?_append_left h]

theorem stream_back (k : Nat) : L.stream[L.shift L.body.size + k]? = L.back[k]? := by
  have hlen : L.shift L.body.size = (L.front ++ L.middle).length := by
    rw [List.length_append, length_middle]
  rw [stream, hlen, List.getElem?_append_right (Nat.le_add_right _ _), Nat.add_sub_cancel_left]

theorem stream_shift {p : Nat} {id : InstructionId} {i : Instruction}
    (h : L.body.stream[p]? = some (id, i)) :
    ∃ fresh, ∀ k, k < 1 + growth L.result? i →
      L.stream[L.shift p + k]? = (retired L.exit L.result? fresh id i)[k]? := by
  obtain ⟨fresh, hretire⟩ := retire_getElem? L.exit L.result?
    (L.fallthrough + L.epilogue.length) h
  refine ⟨fresh, fun k hk => ?_⟩
  have hmiddle : L.middle[p + grown L.result? L.body.code p + k]? =
      (retired L.exit L.result? fresh id i)[k]? := hretire k hk
  have hlt : p + grown L.result? L.body.code p + k < L.middle.length := by
    rw [← length_retired L.exit L.result? fresh id i] at hk
    rw [List.getElem?_eq_getElem hk] at hmiddle
    exact (List.getElem?_eq_some_iff.1 hmiddle).1
  have hindex : L.shift p + k =
      L.front.length + (p + grown L.result? L.body.code p + k) := by
    unfold shift
    omega
  rw [stream, List.append_assoc, hindex, List.getElem?_append_right (Nat.le_add_right _ _),
    Nat.add_sub_cancel_left, List.getElem?_append_left hlt, hmiddle]

/-- Each position between the prologue and the epilogue belongs to an original one. -/
theorem exists_shift {pos : Nat} (hfirst : L.front.length ≤ pos)
    (hlast : pos < L.shift L.body.size) :
    ∃ p id i k, L.body.stream[p]? = some (id, i) ∧ k < 1 + growth L.result? i ∧
      pos = L.shift p + k := by
  have below (n : Nat) (hn : n ≤ L.body.size) (hlt : pos < L.shift n) :
      ∃ p id i k, L.body.stream[p]? = some (id, i) ∧ k < 1 + growth L.result? i ∧
        pos = L.shift p + k := by
    induction n with
    | zero =>
      have hzero : L.shift 0 = L.front.length := by simp [shift, grown]
      omega
    | succ n ih =>
      rcases Nat.lt_or_ge pos (L.shift n) with hbefore | hge
      · exact ih (by omega) hbefore
      · obtain ⟨⟨id, i⟩, hentry⟩ : ∃ x, L.body.stream[n]? = some x :=
          ⟨_, List.getElem?_eq_getElem hn⟩
        have hcode : L.body.code[n]? = some i := by
          rw [Body.code, List.getElem?_map, hentry]
          rfl
        have hnext := L.shift_succ hcode
        exact ⟨n, id, i, pos - L.shift n, hentry, by omega, by omega⟩
  exact below L.body.size (Nat.le_refl _) hlast

/-- Where the caught exception is raised again. -/
def rethrowPos : Nat := L.shift L.body.size + 2 + L.guard.onException.length

/-- Where the code of the exit is. -/
def exitPos : Nat := L.shift L.body.size + 4 + L.guard.onException.length

/-- The instruction that keeps or drops the exception that the guard has caught. -/
def keep : Instruction :=
  match L.guard.exception? with
  | some slot => .stloc slot
  | none => .plain .pop

/-- The region of the guard. -/
def region : Region :=
  ⟨.catchAll, ⟨0, L.shift L.body.size + 1⟩, ⟨L.shift L.body.size + 1, L.exitPos⟩⟩

end Layout

theorem Body.getElem?_number (n : Nat) (code : List Instruction) (k : Nat) :
    (Body.number n code)[k]? = code[k]?.map fun i => (n + k, i) := by
  induction code generalizing n k with
  | nil => rfl
  | cons i rest ih =>
    cases k with
    | zero => rfl
    | succ k =>
      rw [number, List.getElem?_cons_succ, List.getElem?_cons_succ, ih]
      congr 1
      funext j
      rw [Nat.succ_add_eq_add_succ]

/-- Do these instructions stand at a position? -/
def CodeAt (code : List Instruction) (pos : Nat) (run : List Instruction) : Prop :=
  ∀ k i, run[k]? = some i → code[pos + k]? = some i

theorem CodeAt.head {code rest : List Instruction} {pos : Nat} {i : Instruction}
    (h : CodeAt code pos (i :: rest)) : code[pos]? = some i := h 0 i rfl

theorem CodeAt.fetch {code : Array Instruction} {rest : List Instruction} {pos : Nat}
    {i : Instruction} (h : CodeAt code.toList pos (i :: rest)) : code[pos]? = some i := by
  rw [← Array.getElem?_toList]
  exact h.head

theorem CodeAt.tail {code rest : List Instruction} {pos : Nat} {i : Instruction}
    (h : CodeAt code pos (i :: rest)) : CodeAt code (pos + 1) rest := by
  intro k j hj
  rw [Nat.add_right_comm, Nat.add_assoc]
  exact h (k + 1) j hj

theorem CodeAt.left {code run run' : List Instruction} {pos : Nat}
    (h : CodeAt code pos (run ++ run')) : CodeAt code pos run := by
  intro k i hi
  refine h k i ?_
  rw [List.getElem?_append_left (List.getElem?_eq_some_iff.1 hi).1, hi]

theorem CodeAt.right {code run run' : List Instruction} {pos : Nat}
    (h : CodeAt code pos (run ++ run')) : CodeAt code (pos + run.length) run' := by
  intro k i hi
  rw [Nat.add_assoc]
  refine h (run.length + k) i ?_
  rw [List.getElem?_append_right (Nat.le_add_right _ _), Nat.add_sub_cancel_left, hi]

namespace Layout.Describes

variable {L : Layout} {woven : Body} (h : L.Describes woven)

include h

theorem size_locals : woven.locals.size = L.body.locals.size + L.slots.length := by
  rw [← Array.length_toList, h.locals, List.length_append, Array.length_toList]

theorem entry {pos : Nat} {id : InstructionId} {i : Instruction}
    (hs : L.stream[pos]? = some (id, i)) :
    woven.position? id = some pos ∧ woven.code[pos]? = some i :=
  Body.stream_getElem?.1 (by rw [h.stream, hs])

theorem anchor : woven.position? L.body.size = some 0 ∧ woven.code[0]? = some (.plain .nop) :=
  h.entry (by rw [L.stream_front (by rw [L.length_front]; omega)]; rfl)

theorem prologue : CodeAt woven.code 1 L.prologue := by
  intro k i hi
  have hk := (List.getElem?_eq_some_iff.1 hi).1
  have hentry : L.stream[1 + k]? = some (L.body.size + 1 + k, i) := by
    rw [L.stream_front (by rw [L.length_front]; omega), front, Nat.add_comm 1 k,
      List.getElem?_cons_succ, Body.getElem?_number, hi]
    rfl
  exact (h.entry hentry).2

theorem epilogue {k : Nat} {i : Instruction} (hi : L.epilogue[k]? = some i) :
    woven.position? (L.fallthrough + k) = some (L.shift L.body.size + k) ∧
      woven.code[L.shift L.body.size + k]? = some i :=
  h.entry (by rw [L.stream_back, back, Body.getElem?_number, hi]; rfl)

theorem codeAt_epilogue : CodeAt woven.code (L.shift L.body.size) L.epilogue :=
  fun _ _ hi => (h.epilogue hi).2

/-- What stands first in the place of an instruction bears its id. -/
theorem shift {pos : Nat} {id : InstructionId} {i : Instruction}
    (hs : L.body.stream[pos]? = some (id, i)) :
    woven.position? id = some (L.shift pos) ∧
      (i.opcode ≠ .ret → woven.code[L.shift pos]? = some i) ∧
      (i.opcode = .ret →
        CodeAt woven.code (L.shift pos)
          ((L.result?.map Instruction.stloc).toList ++ [.leave L.exit])) := by
  obtain ⟨fresh, hfresh⟩ := L.stream_shift hs
  by_cases hr : i.opcode = .ret
  · have hfirst := hfresh 0 (by omega)
    rw [retired, if_pos hr] at hfresh hfirst
    refine ⟨?_, fun hn => absurd hr hn, fun _ => ?_⟩
    · cases hres : L.result? with
      | none =>
        rw [hres] at hfirst
        exact (h.entry hfirst).1
      | some slot =>
        rw [hres] at hfirst
        exact (h.entry hfirst).1
    · intro k j hj
      cases hres : L.result? with
      | none =>
        rw [hres] at hj hfresh
        cases k with
        | zero =>
          cases hj
          exact (h.entry (hfresh 0 (by omega))).2
        | succ k => cases hj
      | some slot =>
        have hgrowth : growth L.result? i = 1 := by simp [growth, hr, hres]
        rw [hres] at hj hfresh
        rw [hres] at hgrowth
        cases k with
        | zero =>
          cases hj
          exact (h.entry (hfresh 0 (by omega))).2
        | succ k =>
          cases k with
          | zero =>
            cases hj
            exact (h.entry (hfresh 1 (by omega))).2
          | succ k => cases hj
  · have hfirst := hfresh 0 (by omega)
    rw [retired, if_neg hr] at hfirst
    exact ⟨(h.entry hfirst).1, fun _ => (h.entry hfirst).2, fun hr' => absurd hr' hr⟩

/-- What stands between the prologue and the epilogue. -/
theorem inside {pos : Nat} (hfirst : L.front.length ≤ pos) (hlast : pos < L.shift L.body.size) :
    (∃ p id i, L.body.stream[p]? = some (id, i) ∧ i.opcode ≠ .ret ∧ pos = L.shift p ∧
      woven.code[pos]? = some i) ∨
    (∃ slot, L.result? = some slot ∧ woven.code[pos]? = some (.stloc slot)) ∨
    woven.code[pos]? = some (.leave L.exit) := by
  obtain ⟨p, id, i, k, hs, hk, rfl⟩ := L.exists_shift hfirst hlast
  obtain ⟨-, hother, hret⟩ := h.shift hs
  by_cases hr : i.opcode = .ret
  · have hat := hret hr
    cases hres : L.result? with
    | none =>
      rw [hres] at hat hk
      obtain rfl : k = 0 := by
        simp [growth, hr] at hk
        omega
      exact .inr (.inr hat.head)
    | some slot =>
      rw [hres] at hat hk
      cases k with
      | zero => exact .inr (.inl ⟨slot, rfl, hat.head⟩)
      | succ k =>
        obtain rfl : k = 0 := by
          simp [growth, hr] at hk
          omega
        exact .inr (.inr hat.tail.head)
  · have hone := L.growth_of_ne_ret hr
    obtain rfl : k = 0 := by omega
    exact .inl ⟨p, id, i, hs, hr, rfl, hother hr⟩

/-- The instructions before and after the original ones bear fresh ids. -/
theorem size_le_of_outside {pos : Nat} {id : InstructionId} (hid : woven.ids[pos]? = some id)
    (hpos : pos < L.front.length ∨ L.shift L.body.size ≤ pos) : L.body.size ≤ id := by
  rw [Body.ids, h.stream, List.getElem?_map] at hid
  obtain ⟨⟨id', i⟩, hs, rfl⟩ := Option.map_eq_some_iff.1 hid
  rcases hpos with hpos | hpos
  · rw [L.stream_front hpos, Layout.front] at hs
    cases pos with
    | zero =>
      cases hs
      exact Nat.le_refl _
    | succ pos =>
      rw [List.getElem?_cons_succ, Body.getElem?_number] at hs
      obtain ⟨j, -, hj⟩ := Option.map_eq_some_iff.1 hs
      cases hj
      omega
  · obtain ⟨k, rfl⟩ := Nat.exists_eq_add_of_le hpos
    rw [L.stream_back, Layout.back, Body.getElem?_number] at hs
    obtain ⟨j, -, hj⟩ := Option.map_eq_some_iff.1 hs
    cases hj
    show L.body.size ≤ L.fallthrough + k
    unfold Layout.fallthrough
    omega

theorem position?_shift {id : InstructionId} {pos : Nat} (hp : L.body.position? id = some pos) :
    woven.position? id = some (L.shift pos) := by
  have hid := Body.position?_eq_some_iff.1 hp
  rw [Body.ids, List.getElem?_map] at hid
  obtain ⟨⟨id', i⟩, hs, rfl⟩ := Option.map_eq_some_iff.1 hid
  exact (h.shift hs).1

/-! ## The epilogue -/

omit h in
theorem epilogue_eq : L.epilogue = .leave L.exit :: (keep L :: L.guard.onException ++
    [.plain .rethrow]) ++ (.leave L.exit :: (L.guard.onReturn ++
      ((L.result?.map Instruction.ldloc).toList ++ [.plain .ret]))) := by
  have hparts : L.epilogue = [.leave L.exit, keep L] ++ L.guard.onException ++
      [.plain .rethrow, .leave L.exit] ++ L.guard.onReturn ++
        (L.result?.map Instruction.ldloc).toList ++ [.plain .ret] := rfl
  rw [hparts]
  simp only [List.cons_append, List.nil_append, List.append_assoc]

omit h in
theorem lt_length_epilogue : 4 + L.guard.onException.length < L.epilogue.length := by
  rw [epilogue_eq]
  simp only [List.length_append, List.length_cons, List.length_nil]
  omega

theorem position?_exit : woven.position? L.exit = some L.exitPos := by
  have hp := (h.epilogue (List.getElem?_eq_getElem lt_length_epilogue)).1
  rw [← Nat.add_assoc, ← Nat.add_assoc] at hp
  exact hp

/-- The guarded part ends with a leave. -/
theorem code_fallthrough : woven.code[L.shift L.body.size]? = some (.leave L.exit) := by
  have hcode := h.codeAt_epilogue
  rw [epilogue_eq] at hcode
  exact hcode.left.head

theorem codeAt_handler : CodeAt woven.code (L.shift L.body.size + 1)
    (keep L :: L.guard.onException ++ [.plain .rethrow]) := by
  have hcode := h.codeAt_epilogue
  rw [epilogue_eq] at hcode
  exact hcode.left.tail

theorem codeAt_exit : CodeAt woven.code L.exitPos
    (L.guard.onReturn ++ ((L.result?.map Instruction.ldloc).toList ++ [.plain .ret])) := by
  have hcode := h.codeAt_epilogue
  rw [epilogue_eq] at hcode
  have hpos : L.shift L.body.size + (Instruction.leave L.exit ::
      (keep L :: L.guard.onException ++ [.plain .rethrow])).length + 1 = L.exitPos := by
    simp only [List.length_append, List.length_cons, List.length_nil, Layout.exitPos]
    omega
  rw [← hpos]
  exact hcode.right.tail

/-! ## Regions -/

theorem anchor_shift {id : InstructionId} {pos : Nat} (ha : L.body.anchor id = .ok pos) :
    woven.anchor id = .ok (L.shift pos) :=
  Body.anchor_eq_ok.2 (h.position?_shift (Body.anchor_eq_ok.1 ha))

theorem anchor_fallthrough {k : Nat} (hk : k ≤ 4 + L.guard.onException.length) :
    woven.anchor (L.fallthrough + k) = .ok (L.shift L.body.size + k) :=
  Body.anchor_eq_ok.2
    (h.epilogue (List.getElem?_eq_getElem (Nat.lt_of_le_of_lt hk lt_length_epilogue))).1

theorem span_close {start : InstructionId} {stop? : Option InstructionId} {s : Span}
    (hs : L.body.span start stop? = .ok s) :
    woven.span start (some (stop?.getD L.fallthrough)) = .ok (s.shift L.shift) := by
  obtain ⟨pos, hpos, hs⟩ := bind_eq_ok.1 hs
  refine bind_eq_ok.2 ⟨_, h.anchor_shift hpos, ?_⟩
  cases stop? with
  | none =>
    cases hs
    exact bind_eq_ok.2 ⟨_, h.anchor_fallthrough (Nat.zero_le _), rfl⟩
  | some id =>
    obtain ⟨stop, hstop, hs⟩ := bind_eq_ok.1 hs
    cases hs
    exact bind_eq_ok.2 ⟨_, h.anchor_shift hstop, rfl⟩

theorem region_close {x : Handler} {r : Region} (hr : L.body.region x = .ok r) :
    woven.region (x.close L.fallthrough) = .ok (r.shift L.shift) := by
  obtain ⟨hkind, htry, hhandler⟩ := Body.region_eq_ok.1 hr
  exact Body.region_eq_ok.2 ⟨hkind, h.span_close htry, h.span_close hhandler⟩

theorem region_guard : woven.region L.handler = .ok L.region := by
  have hstart := Body.anchor_eq_ok.2 h.anchor.1
  have hkeep := h.anchor_fallthrough (k := 1) (by omega)
  have hexit := Body.anchor_eq_ok.2 h.position?_exit
  refine Body.region_eq_ok.2 ⟨rfl, ?_, ?_⟩
  · exact bind_eq_ok.2 ⟨_, hstart, bind_eq_ok.2 ⟨_, hkeep, rfl⟩⟩
  · exact bind_eq_ok.2 ⟨_, hkeep, bind_eq_ok.2 ⟨_, hexit, rfl⟩⟩

theorem regions_of_describes {rs : List Region} (hrs : L.body.regions = .ok rs) :
    woven.regions = .ok (rs.map (·.shift L.shift) ++ [L.region]) := by
  have close (hs : List Handler) (rs : List Region) (hrs : L.body.regionsOf hs = .ok rs) :
      woven.regionsOf (hs.map (·.close L.fallthrough) ++ [L.handler]) =
        .ok (rs.map (·.shift L.shift) ++ [L.region]) := by
    induction hs generalizing rs with
    | nil =>
      cases hrs
      exact bind_eq_ok.2 ⟨_, h.region_guard, bind_eq_ok.2 ⟨[], rfl, rfl⟩⟩
    | cons x rest ih =>
      obtain ⟨r, hr, hrs⟩ := bind_eq_ok.1 hrs
      obtain ⟨rs', hrest, hrs⟩ := bind_eq_ok.1 hrs
      cases hrs
      exact bind_eq_ok.2 ⟨_, h.region_close hr, bind_eq_ok.2 ⟨_, ih rs' hrest, rfl⟩⟩
  rw [Body.regions, h.handlers]
  exact close L.body.handlers rs hrs

end Layout.Describes

end Interpose
