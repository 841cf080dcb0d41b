import Interpose.Proofs.Body.Anchor
import Interpose.Verify
/-!
# Visits of the verifier

A visit checks one instruction and asks for depths at the positions that follow it
(`Passes`). A walk is looked at with its waiting positions visited in any order
(`Visits`, `Ends`); the verifier's own order is one of them (`ends_run`).

Results:
* `visit_eq_ok_iff`: when a visit succeeds, and what it leaves.
* `start_eq`: a walk starts with the entries of the body.
* `wellFounded_visits`: no walk goes on for ever.
-/
namespace Interpose

/-- Is a position inside a region, its protected part or its handler? -/
def VerifyContext.InRegion (c : VerifyContext) (pos : Nat) : Prop :=
  ∃ r ∈ c.regions, r.tryRange.contains pos = true ∨ r.handlerRange.contains pos = true

/-- Is a position inside a handler? -/
def VerifyContext.InHandler (c : VerifyContext) (pos : Nat) : Prop :=
  ∃ r ∈ c.regions, r.handlerRange.contains pos = true

/-- The context in which a body with instructions is walked. -/
structure VerifyContext.Formed (c : VerifyContext) : Prop where
  nonempty : c.body.stream ≠ []
  code : c.code = c.body.code.toArray
  regions : c.body.regions = .ok c.regions

/-- Where control comes in, with the depth there: the start, and each handler with the
caught exception. -/
def VerifyContext.entries (c : VerifyContext) : List (Nat × UInt16) :=
  (0, 0) :: c.regions.map fun r => (r.handlerRange.start, 1)

/-- The greatest depth at an entry. -/
def VerifyContext.entryDepth (c : VerifyContext) : UInt16 := if c.regions = [] then 0 else 1

/-- The position that the target of a branch names. -/
def VerifyContext.target? (c : VerifyContext) (i : Instruction) : Option Nat :=
  i.target?.bind c.body.position?

/-- Control may go from the instruction `i` at `pos` to another position. -/
inductive VerifyContext.Edge (c : VerifyContext) (pos : Nat) (i : Instruction) : Nat → Prop
  | next (hf : i.opcode.flow = .next ∨ i.opcode.flow = .condBranch) : c.Edge pos i (pos + 1)
  | target {t : Nat}
    (hf : i.opcode.flow = .branch ∨ i.opcode.flow = .condBranch ∨ i.opcode.flow = .leave)
    (ht : c.target? i = some t) : c.Edge pos i t

/-- The positions that control can reach. -/
inductive VerifyContext.Reaches (c : VerifyContext) : Nat → Prop
  | entry {t : Nat × UInt16} (h : t ∈ c.entries) : c.Reaches t.1
  | edge {pos t : Nat} {i : Instruction} (h : c.Reaches pos) (hi : c.code[pos]? = some i)
    (he : c.Edge pos i t) : c.Reaches t

namespace VerifyContext

variable {c : VerifyContext}

theorem Formed.size (hc : c.Formed) : c.code.size = c.body.size := by
  rw [hc.code]
  simp [Body.code, Body.size]

theorem target_eq_ok {i : Instruction} {t : Nat} :
    Walk.target c i = .ok t ↔ c.target? i = some t := by
  unfold Walk.target target?
  cases i.target? with
  | none => simp
  | some id => exact Body.anchor_eq_ok

theorem Formed.lt_of_target (hc : c.Formed) {i : Instruction} {t : Nat}
    (h : c.target? i = some t) : t < c.code.size := by
  have ha := target_eq_ok.2 h
  unfold Walk.target at ha
  split at ha
  · rw [hc.size]; exact Body.lt_of_anchor ha
  · cases ha

theorem Formed.lt_of_entry (hc : c.Formed) {t : Nat × UInt16} (h : t ∈ c.entries) :
    t.1 < c.code.size := by
  rw [hc.size]
  rcases List.mem_cons.1 h with rfl | h
  · have := List.length_pos_iff.2 hc.nonempty
    exact this
  · obtain ⟨r, hr, rfl⟩ := List.mem_map.1 h
    obtain ⟨x, -, hx⟩ := Body.exists_handler_of_regionsOf hc.regions hr
    exact Body.start_lt_of_span (Body.region_eq_ok.1 hx).2.2

end VerifyContext

namespace Walk

/-- The depth found for a position. -/
def depth? (w : Walk) (pos : Nat) : Option UInt16 := w.depths[pos]?.join

theorem depth?_eq_some {w : Walk} {pos : Nat} {d : UInt16} :
    w.depth? pos = some d ↔ w.depths[pos]? = some (some d) := by
  simp [depth?, Option.join_eq_some_iff]

theorem lt_of_depth? {w : Walk} {pos : Nat} {d : UInt16} (h : w.depth? pos = some d) :
    pos < w.depths.size :=
  (Array.getElem?_eq_some_iff.1 (depth?_eq_some.1 h)).1

/-! ## Entering positions -/

/-- The walk with a depth for a position that had none. -/
def reach (w : Walk) (pos : Nat) (d : UInt16) : Walk :=
  { w with depths := w.depths.setIfInBounds pos (some d), work := pos :: w.work }

theorem depth?_reach {w : Walk} {pos : Nat} (hp : pos < w.depths.size) (d : UInt16) (q : Nat) :
    (w.reach pos d).depth? q = if q = pos then some d else w.depth? q := by
  simp only [depth?, reach, Array.getElem?_setIfInBounds]
  by_cases hq : q = pos
  · subst hq; simp [hp]
  · simp [hq, Ne.symm hq]

theorem unreached_reach {w : Walk} {pos : Nat} (hp : pos < w.depths.size)
    (hn : w.depth? pos = none) (d : UInt16) : (w.reach pos d).unreached + 1 = w.unreached := by
  have hget : w.depths[pos] = none := by simpa [depth?, hp] using hn
  have hc : 0 < w.depths.count none := Array.count_pos_iff.2 (hget ▸ Array.getElem_mem hp)
  simp only [unreached, reach]
  rw [Array.setIfInBounds, dif_pos hp, Array.count_set hp]
  simp only [hget]
  simp
  omega

theorem enter_cases {w w' : Walk} {pos : Nat} {d : UInt16} (hp : pos < w.depths.size)
    (h : w.enter pos d = .ok w') :
    (w.depth? pos = some d ∧ w' = w) ∨ (w.depth? pos = none ∧ w' = w.reach pos d) := by
  rw [enter] at h
  split at h
  · next hn => cases h; exact .inr ⟨by simp [depth?, hn], rfl⟩
  · next e he =>
    split at h
    · next hed => cases h; exact .inl ⟨by rw [depth?_eq_some, he, hed], rfl⟩
    · cases h
  · next hn => rw [Array.getElem?_eq_none_iff] at hn; omega

/-- A depth that agrees with the one found, if there is one, is accepted. -/
theorem enter_isOk {w : Walk} {pos : Nat} {d : UInt16}
    (h : ∀ e, w.depth? pos = some e → e = d) : ∃ w', w.enter pos d = .ok w' := by
  rw [enter]
  split
  · exact ⟨_, rfl⟩
  · next e he => rw [if_pos (h e (depth?_eq_some.2 he))]; exact ⟨_, rfl⟩
  · exact ⟨_, rfl⟩

/-- Enters positions with their depths, in order. -/
def enterAll (w : Walk) : List (Nat × UInt16) → Except CodeError Walk
  | [] => .ok w
  | t :: rest => do (← w.enter t.1 t.2).enterAll rest

theorem enterAll_singleton {w : Walk} {t : Nat × UInt16} :
    w.enterAll [t] = w.enter t.1 t.2 := by
  rw [enterAll]
  cases w.enter t.1 t.2 <;> rfl

/-! ## What entering leaves -/

/-- The walk `w'` is the walk `w` after the positions of `l` were entered. -/
structure Entered (w : Walk) (l : List (Nat × UInt16)) (w' : Walk) : Prop where
  size : w'.depths.size = w.depths.size
  maxStack : w'.maxStack = w.maxStack
  keeps : ∀ pos d, w.depth? pos = some d → w'.depth? pos = some d
  entered : ∀ t ∈ l, w'.depth? t.1 = some t.2
  fresh : ∀ pos d, w'.depth? pos = some d →
    w.depth? pos = some d ∨ ((pos, d) ∈ l ∧ pos ∈ w'.work)
  waits : ∀ pos ∈ w.work, pos ∈ w'.work
  waiting : ∀ pos ∈ w'.work, pos ∈ w.work ∨ ∃ d, (pos, d) ∈ l
  left : w'.unreached + w'.work.length = w.unreached + w.work.length

theorem entered_nil (w : Walk) : Entered w [] w where
  size := rfl
  maxStack := rfl
  keeps _ _ h := h
  entered t ht := by cases ht
  fresh _ _ h := .inl h
  waits _ h := h
  waiting _ h := .inl h
  left := rfl

theorem entered_of_enter {w w' : Walk} {pos : Nat} {d : UInt16} (hp : pos < w.depths.size)
    (h : w.enter pos d = .ok w') : Entered w [(pos, d)] w' := by
  rcases enter_cases hp h with ⟨hd, rfl⟩ | ⟨hn, rfl⟩
  · refine ⟨rfl, rfl, fun _ _ h => h, ?_, fun _ _ h => .inl h, fun _ h => h, fun _ h => .inl h, rfl⟩
    rintro t ht
    obtain rfl := List.mem_singleton.1 ht
    exact hd
  · refine ⟨by simp [reach], rfl, ?_, ?_, ?_, ?_, ?_, ?_⟩
    · intro q e he
      rw [depth?_reach hp, if_neg (by rintro rfl; rw [hn] at he; cases he)]
      exact he
    · rintro t ht
      obtain rfl := List.mem_singleton.1 ht
      rw [depth?_reach hp, if_pos rfl]
    · intro q e he
      rw [depth?_reach hp] at he
      split at he
      · next hq =>
        cases he; subst hq
        exact .inr ⟨List.mem_singleton.2 rfl, List.mem_cons_self⟩
      · exact .inl he
    · intro q hq
      exact List.mem_cons_of_mem _ hq
    · intro q hq
      rcases List.mem_cons.1 hq with rfl | hq
      · exact .inr ⟨d, List.mem_singleton.2 rfl⟩
      · exact .inl hq
    · have := unreached_reach hp hn d
      simp only [reach, List.length_cons] at this ⊢
      simp only [unreached] at this ⊢
      omega

theorem Entered.append {w w₁ w₂ : Walk} {l l' : List (Nat × UInt16)} (h : Entered w l w₁)
    (h' : Entered w₁ l' w₂) : Entered w (l ++ l') w₂ where
  size := h'.size.trans h.size
  maxStack := h'.maxStack.trans h.maxStack
  keeps pos d hd := h'.keeps pos d (h.keeps pos d hd)
  entered t ht := by
    rcases List.mem_append.1 ht with ht | ht
    · exact h'.keeps _ _ (h.entered t ht)
    · exact h'.entered t ht
  fresh pos d hd := by
    rcases h'.fresh pos d hd with hd | ⟨hm, hw⟩
    · rcases h.fresh pos d hd with hd | ⟨hm, hw⟩
      · exact .inl hd
      · exact .inr ⟨List.mem_append_left _ hm, h'.waits pos hw⟩
    · exact .inr ⟨List.mem_append_right _ hm, hw⟩
  waits pos hp := h'.waits pos (h.waits pos hp)
  waiting pos hp := by
    rcases h'.waiting pos hp with hp | ⟨d, hd⟩
    · rcases h.waiting pos hp with hp | ⟨d, hd⟩
      · exact .inl hp
      · exact .inr ⟨d, List.mem_append_left _ hd⟩
    · exact .inr ⟨d, List.mem_append_right _ hd⟩
  left := h'.left.trans h.left

theorem entered_of_enterAll {w w' : Walk} {l : List (Nat × UInt16)}
    (hl : ∀ t ∈ l, t.1 < w.depths.size) (h : w.enterAll l = .ok w') : Entered w l w' := by
  induction l generalizing w with
  | nil => cases h; exact entered_nil _
  | cons t rest ih =>
    obtain ⟨w₁, he, h⟩ := bind_eq_ok.1 h
    have h₁ := entered_of_enter (hl t List.mem_cons_self) he
    exact h₁.append (ih (fun s hs => h₁.size ▸ hl s (List.mem_cons_of_mem _ hs)) h)

/-- Depths that agree with each other and with those found are all accepted. -/
theorem enterAll_isOk {w : Walk} {l : List (Nat × UInt16)} {f : Nat → UInt16}
    (hl : ∀ t ∈ l, t.1 < w.depths.size ∧ t.2 = f t.1)
    (hw : ∀ pos d, w.depth? pos = some d → d = f pos) : ∃ w', w.enterAll l = .ok w' := by
  induction l generalizing w with
  | nil => exact ⟨w, rfl⟩
  | cons t rest ih =>
    obtain ⟨hlt, ht⟩ := hl t List.mem_cons_self
    have hagree : ∀ e, w.depth? t.1 = some e → e = t.2 := fun e hd => (hw t.1 e hd).trans ht.symm
    obtain ⟨w₁, he⟩ := enter_isOk hagree
    have h₁ := entered_of_enter hlt he
    obtain ⟨w', h'⟩ := ih (w := w₁)
      (fun s hs => by rw [h₁.size]; exact hl s (List.mem_cons_of_mem _ hs))
      (fun pos d hd => by
        rcases h₁.fresh pos d hd with hd | ⟨hm, -⟩
        · exact hw pos d hd
        · cases List.mem_singleton.1 hm
          exact ht)
    exact ⟨w', bind_eq_ok.2 ⟨w₁, he, h'⟩⟩

/-! ## Visits -/

/-- The positions that an instruction hands a depth on to, where control may leave it with
the depth `after`. -/
inductive Passes (c : VerifyContext) (pos : Nat) (i : Instruction) (after : UInt16) :
    List (Nat × UInt16) → Prop
  | next (hf : i.opcode.flow = .next) (h : pos + 1 < c.code.size) :
    Passes c pos i after [(pos + 1, after)]
  | branch {t : Nat} (hf : i.opcode.flow = .branch) (ht : c.target? i = some t) :
    Passes c pos i after [(t, after)]
  | condBranch {t : Nat} (hf : i.opcode.flow = .condBranch) (ht : c.target? i = some t)
      (h : pos + 1 < c.code.size) : Passes c pos i after [(t, after), (pos + 1, after)]
  | leave {t : Nat} (hf : i.opcode.flow = .leave) (ht : c.target? i = some t) :
    Passes c pos i after [(t, 0)]
  | ret (hf : i.opcode.flow = .ret) (hr : ¬ c.InRegion pos) (h : after = 0) :
    Passes c pos i after []
  | throw (hf : i.opcode.flow = .throw) (hr : i.opcode = .rethrow → c.InHandler pos) :
    Passes c pos i after []

theorem inRegion_iff {c : VerifyContext} {pos : Nat} :
    (c.regions.any fun r => r.tryRange.contains pos || r.handlerRange.contains pos) = true ↔
      c.InRegion pos := by
  simp [VerifyContext.InRegion]

theorem inHandler_iff {c : VerifyContext} {pos : Nat} :
    (c.regions.any fun r => r.handlerRange.contains pos) = true ↔ c.InHandler pos := by
  simp [VerifyContext.InHandler]

theorem fallThrough_eq_ok {c : VerifyContext} {w w' : Walk} {pos : Nat} {d : UInt16} :
    fallThrough c w pos d = .ok w' ↔ pos + 1 < c.code.size ∧ w.enter (pos + 1) d = .ok w' := by
  rw [fallThrough]
  split
  · next h => simp [h]
  · next h => simp [h]

theorem passes_of_follow {c : VerifyContext} {w w' : Walk} {pos : Nat} {i : Instruction}
    {d : UInt16} (h : follow c w pos i d = .ok w') :
    ∃ l, Passes c pos i d l ∧ w.enterAll l = .ok w' := by
  unfold follow at h
  split at h
  · next hf =>
    obtain ⟨hlt, he⟩ := fallThrough_eq_ok.1 h
    exact ⟨_, .next hf hlt, enterAll_singleton.trans he⟩
  · next hf =>
    obtain ⟨t, ht, he⟩ := bind_eq_ok.1 h
    exact ⟨_, .branch hf (VerifyContext.target_eq_ok.1 ht), enterAll_singleton.trans he⟩
  · next hf =>
    obtain ⟨t, ht, h⟩ := bind_eq_ok.1 h
    obtain ⟨w₁, he, h⟩ := bind_eq_ok.1 h
    obtain ⟨hlt, he'⟩ := fallThrough_eq_ok.1 h
    exact ⟨_, .condBranch hf (VerifyContext.target_eq_ok.1 ht) hlt,
      bind_eq_ok.2 ⟨w₁, he, enterAll_singleton.trans he'⟩⟩
  · next hf =>
    obtain ⟨t, ht, he⟩ := bind_eq_ok.1 h
    exact ⟨_, .leave hf (VerifyContext.target_eq_ok.1 ht), enterAll_singleton.trans he⟩
  · next hf =>
    split at h
    · cases h
    · next hr =>
      split at h
      · cases h
      · next hd =>
        cases h
        exact ⟨_, .ret hf (fun hi => hr (inRegion_iff.2 hi)) (by simpa using hd), rfl⟩
  · next hf =>
    split at h
    · cases h
    · next hr =>
      cases h
      refine ⟨_, .throw hf fun ho => ?_, rfl⟩
      exact inHandler_iff.1 (by simpa [ho] using hr)

theorem follow_of_passes {c : VerifyContext} {w w' : Walk} {pos : Nat} {i : Instruction}
    {d : UInt16} {l : List (Nat × UInt16)} (hp : Passes c pos i d l)
    (h : w.enterAll l = .ok w') : follow c w pos i d = .ok w' := by
  unfold follow
  cases hp with
  | next hf hlt =>
    simp only [hf]
    exact fallThrough_eq_ok.2 ⟨hlt, enterAll_singleton.symm.trans h⟩
  | branch hf ht =>
    simp only [hf]
    exact bind_eq_ok.2 ⟨_, VerifyContext.target_eq_ok.2 ht, enterAll_singleton.symm.trans h⟩
  | condBranch hf ht hlt =>
    obtain ⟨w₁, he, h⟩ := bind_eq_ok.1 h
    have hfall := fallThrough_eq_ok.2 ⟨hlt, enterAll_singleton.symm.trans h⟩
    simp only [hf]
    exact bind_eq_ok.2 ⟨_, VerifyContext.target_eq_ok.2 ht, bind_eq_ok.2 ⟨w₁, he, hfall⟩⟩
  | leave hf ht =>
    simp only [hf]
    exact bind_eq_ok.2 ⟨_, VerifyContext.target_eq_ok.2 ht, enterAll_singleton.symm.trans h⟩
  | ret hf hr hd =>
    cases h
    simp only [hf]
    rw [if_neg (fun ha => hr (inRegion_iff.1 ha)), if_neg (by simpa using hd)]
  | throw hf hr =>
    cases h
    simp only [hf]
    exact if_neg fun ha => ha.2 (inHandler_iff.2 (hr ha.1))

theorem follow_eq_ok_iff {c : VerifyContext} {w w' : Walk} {pos : Nat} {i : Instruction}
    {d : UInt16} :
    follow c w pos i d = .ok w' ↔ ∃ l, Passes c pos i d l ∧ w.enterAll l = .ok w' :=
  ⟨passes_of_follow, fun ⟨_, hp, h⟩ => follow_of_passes hp h⟩

/-- What a visit of a position with the depth `d` finds in order: its instruction `i`
takes `p` values, puts `q`, and hands depths on to `l`. -/
structure Checked (c : VerifyContext) (pos : Nat) (d : UInt16) (i : Instruction)
    (p q : UInt16) (l : List (Nat × UInt16)) : Prop where
  code : c.code[pos]? = some i
  operand : checkOperand c.method c.body c.imports i = .ok ()
  effect : stackEffect c.method c.imports i = .ok (p, q)
  enough : p ≤ d
  passes : Passes c pos i (d - p + q) l

/-- The walk after a visit that leaves the depth `after`, before positions are entered. -/
def raise (w : Walk) (after : UInt16) : Walk := { w with maxStack := max w.maxStack after }

theorem visit_eq_ok_iff {c : VerifyContext} {w w' : Walk} {pos : Nat} {d : UInt16}
    (hc : w.depths.size = c.code.size) (hd : w.depth? pos = some d) :
    visit c w pos = .ok w' ↔
      ∃ i p q l, Checked c pos d i p q l ∧ (w.raise (d - p + q)).enterAll l = .ok w' := by
  have hlt : pos < c.code.size := hc ▸ lt_of_depth? hd
  have hcode : c.code[pos]? = some c.code[pos] := Array.getElem?_eq_getElem hlt
  have hdepth : (w.depths[pos]?.join).getD 0 = d := by rw [depth?] at hd; rw [hd]; rfl
  simp only [visit, bind_eq_ok, hdepth, hcode, Option.getD_some]
  constructor
  · rintro ⟨_, ho, ⟨p, q⟩, he, h⟩
    split at h
    · cases h
    · next hp =>
      obtain ⟨l, hl, h⟩ := follow_eq_ok_iff.1 h
      exact ⟨_, p, q, l, ⟨hcode, ho, he, by simpa using hp, hl⟩, h⟩
  · rintro ⟨i, p, q, l, ⟨hi, ho, he, hp, hl⟩, h⟩
    obtain rfl : c.code[pos] = i := by rw [hcode] at hi; exact Option.some.inj hi
    refine ⟨(), ho, (p, q), he, ?_⟩
    rw [if_neg (by simpa using hp)]
    exact follow_eq_ok_iff.2 ⟨l, hl, h⟩

theorem Passes.lt {c : VerifyContext} (hc : c.Formed) {pos : Nat} {i : Instruction}
    {after : UInt16} {l : List (Nat × UInt16)} (h : Passes c pos i after l) :
    ∀ t ∈ l, t.1 < c.code.size := by
  cases h with
  | next hf h => simpa using h
  | branch hf ht => simpa using hc.lt_of_target ht
  | condBranch hf ht h =>
    have := hc.lt_of_target ht
    simpa using ⟨this, h⟩
  | leave hf ht => simpa using hc.lt_of_target ht
  | ret hf hr h => simp
  | throw hf hr => simp

theorem Passes.edge {c : VerifyContext} {pos : Nat} {i : Instruction} {after : UInt16}
    {l : List (Nat × UInt16)} (h : Passes c pos i after l) : ∀ t ∈ l, c.Edge pos i t.1 := by
  cases h with
  | next hf h => simpa using .next (.inl hf)
  | branch hf ht => simpa using .target (.inl hf) ht
  | condBranch hf ht h =>
    simpa using ⟨.target (.inr (.inl hf)) ht, .next (.inr hf)⟩
  | leave hf ht => simpa using .target (.inr (.inr hf)) ht
  | ret hf hr h => simp
  | throw hf hr => simp

/-- Every edge out of an instruction is among the positions it hands a depth on to; across
`leave` the depth is 0. -/
theorem Passes.exists_of_edge {c : VerifyContext} {pos : Nat} {i : Instruction} {after : UInt16}
    {l : List (Nat × UInt16)} (h : Passes c pos i after l) {t : Nat} (he : c.Edge pos i t) :
    (t, if i.opcode.flow = .leave then 0 else after) ∈ l := by
  cases he with
  | next hf' => cases h <;> simp_all
  | target hf' ht' => cases h <;> simp_all

/-! ## Walks in any order -/

/-- One visit, of any position that waits. -/
inductive Visits (c : VerifyContext) (w w' : Walk) : Prop
  | visit {front back : List Nat} {pos : Nat} (hw : w.work = front ++ pos :: back)
    (h : visit c { w with work := front ++ back } pos = .ok w')

/-- How a walk may end when the positions that wait are visited in any order. -/
inductive Ends (c : VerifyContext) : Walk → Except CodeError Walk → Prop
  | finished {w : Walk} (h : w.work = []) : Ends c w (.ok w)
  | failed {w : Walk} {front back : List Nat} {pos : Nat} {e : CodeError}
    (hw : w.work = front ++ pos :: back)
    (h : visit c { w with work := front ++ back } pos = .error e) : Ends c w (.error e)
  | visits {w w' : Walk} {r : Except CodeError Walk} (h : Visits c w w') (hr : Ends c w' r) :
    Ends c w r

/-- The verifier's own order is one of the orders. -/
theorem ends_run (c : VerifyContext) (w : Walk) : Ends c w (run c w) := by
  fun_induction run c w with
  | case1 w hw => exact .finished hw
  | case2 w pos rest hw e hv => exact .failed (show w.work = [] ++ pos :: rest from hw) hv
  | case3 w pos rest hw w' hv ih =>
    exact .visits (.visit (show w.work = [] ++ pos :: rest from hw) hv) ih

theorem potential_of_visits {c : VerifyContext} {w w' : Walk} (h : Visits c w w') :
    w'.potential < w.potential := by
  obtain ⟨hw, hv⟩ := h
  have hp := visit_potential hv
  simp only [potential, unreached, hw, List.length_append, List.length_cons] at hp ⊢
  omega

/-- No order of visits goes on for ever. -/
theorem wellFounded_visits (c : VerifyContext) :
    WellFounded fun w' w : Walk => Visits c w w' :=
  Subrelation.wf (fun h => potential_of_visits h) (measure potential).wf

/-! ## The start -/

theorem enter_raise (w : Walk) (k : UInt16) (pos : Nat) (d : UInt16) :
    (w.raise k).enter pos d = (·.raise k) <$> w.enter pos d := by
  simp only [enter, raise]
  split
  · rfl
  · split <;> rfl
  · rfl

theorem toNat_max (a b : UInt16) : (max a b).toNat = max a.toNat b.toNat := by
  show (if a ≤ b then b else a).toNat = _
  by_cases h : a ≤ b
  · rw [if_pos h]
    rw [UInt16.le_iff_toNat_le] at h
    omega
  · rw [if_neg h]
    rw [UInt16.le_iff_toNat_le] at h
    omega

theorem raise_zero (w : Walk) : w.raise 0 = w := by
  have h : max w.maxStack 0 = w.maxStack := by
    rw [← UInt16.toNat_inj, toNat_max]
    exact Nat.max_zero _
  rw [raise, h]

theorem raise_raise (w : Walk) (k : UInt16) : (w.raise k).raise k = w.raise k := by
  have h : max (max w.maxStack k) k = max w.maxStack k := by
    rw [← UInt16.toNat_inj]
    simp only [toNat_max]
    omega
  simp only [raise, h]

/-- Handlers are entered like other positions; one at all raises the greatest depth to 1. -/
theorem enterHandlers_eq {size : Nat} {w : Walk} {rs : List Region}
    (h : ∀ r ∈ rs, r.handlerRange.start < size) :
    enterHandlers size w rs = (w.raise (if rs = [] then 0 else 1)).enterAll
      (rs.map fun r => (r.handlerRange.start, 1)) := by
  induction rs generalizing w with
  | nil => exact congrArg Except.ok w.raise_zero.symm
  | cons r rest ih =>
    rw [enterHandlers, if_pos (h r List.mem_cons_self), if_neg (List.cons_ne_nil r rest),
      List.map_cons, enterAll, enter_raise]
    cases w.enter r.handlerRange.start 1 with
    | error e => rfl
    | ok w₁ =>
      show enterHandlers size (w₁.raise 1) rest = (w₁.raise 1).enterAll _
      rw [ih fun x hx => h x (List.mem_cons_of_mem _ hx)]
      split
      · rw [raise_zero]
      · rw [raise_raise]

/-- The walk in which no position has a depth. -/
def fresh (c : VerifyContext) : Walk := ⟨Array.replicate c.code.size none, [], 0⟩

theorem start_eq {c : VerifyContext} (hc : c.Formed) :
    start c = ((fresh c).raise c.entryDepth).enterAll c.entries := by
  have hr : ∀ r ∈ c.regions, r.handlerRange.start < c.code.size := fun r hr =>
    hc.lt_of_entry (List.mem_cons_of_mem _ (List.mem_map_of_mem hr))
  show ((fresh c).enter 0 0 >>= fun w => w.enterHandlers c.code.size c.regions) = _
  rw [VerifyContext.entries, enterAll, enter_raise]
  cases (fresh c).enter 0 0 with
  | error e => rfl
  | ok w₁ => exact enterHandlers_eq hr

end Walk

end Interpose
