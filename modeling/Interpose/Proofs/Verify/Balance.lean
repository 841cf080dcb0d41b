import Interpose.Proofs.Verify.Effect
import Interpose.Proofs.Verify.Guided
import Mathlib.Order.Bounds.Basic
import Mathlib.Order.Nat
/-!
# Balanced bodies

What the verifier decides, without a walk: depths can be given to the positions that
control reaches so that each instruction finds what it takes and hands on what the next
one expects. Depths are plain numbers here; they are the verifier's as long as nothing
wraps (`Unwrapped`).

Results:
* `balanced_of_sound`: a walk that ended has found balanced depths.
* `isOk_of_balanced`: in a balanced body no visit fails, in whatever order.
* `verifyBody_eq_ok_iff_balanced`: the verifier accepts the balanced bodies.
-/
namespace Interpose

/-! ## Balanced depths -/

namespace VerifyContext

/-- The depth after the instruction `i` at a position. -/
def after (c : VerifyContext) (d : Nat → Nat) (pos : Nat) (i : Instruction) : Nat :=
  d pos - (i.effect c.method c.imports).1 + (i.effect c.method c.imports).2

/-- The instruction `i` at a position is balanced under the depths `d`. -/
structure BalancedAt (c : VerifyContext) (d : Nat → Nat) (pos : Nat) (i : Instruction) :
    Prop where
  operand : OperandFits c.method c.body c.imports i
  enough : (i.effect c.method c.imports).1 ≤ d pos
  next : i.opcode.flow = .next ∨ i.opcode.flow = .condBranch →
    pos + 1 < c.code.size ∧ d (pos + 1) = c.after d pos i
  branch : i.opcode.flow = .branch ∨ i.opcode.flow = .condBranch →
    ∃ t, c.target? i = some t ∧ d t = c.after d pos i
  leave : i.opcode.flow = .leave → ∃ t, c.target? i = some t ∧ d t = 0
  ret : i.opcode.flow = .ret → ¬ c.InRegion pos ∧ c.after d pos i = 0
  rethrow : i.opcode = .rethrow → c.InHandler pos

/-- Depths under which every reachable position is balanced. -/
structure Balanced (c : VerifyContext) (d : Nat → Nat) : Prop where
  start : d 0 = 0
  handlers : ∀ r ∈ c.regions, d r.handlerRange.start = 1
  reachable : ∀ pos, c.Reaches pos → ∃ i, c.code[pos]? = some i ∧ c.BalancedAt d pos i

/-- The depths after reachable instructions, and that of a caught exception if there is a
handler. -/
def Heights (c : VerifyContext) (d : Nat → Nat) : Set Nat :=
  fun n => (∃ pos i, c.Reaches pos ∧ c.code[pos]? = some i ∧ n = c.after d pos i) ∨
    (c.regions ≠ [] ∧ n = 1)

variable {c : VerifyContext} {d d' : Nat → Nat}

theorem Balanced.entry (h : c.Balanced d) {t : Nat × UInt16} (ht : t ∈ c.entries) :
    d t.1 = t.2.toNat := by
  rcases List.mem_cons.1 ht with rfl | ht
  · exact h.start
  · obtain ⟨r, hr, rfl⟩ := List.mem_map.1 ht
    exact h.handlers r hr

/-- Reachable positions have no choice of their depth. -/
theorem Balanced.unique (h : c.Balanced d) (h' : c.Balanced d') {pos : Nat}
    (hp : c.Reaches pos) : d pos = d' pos := by
  induction hp with
  | entry ht => exact (h.entry ht).trans (h'.entry ht).symm
  | @edge pos t i hp hi he ih =>
    obtain ⟨j, hj, hb⟩ := h.reachable pos hp
    obtain ⟨j', hj', hb'⟩ := h'.reachable pos hp
    obtain rfl : i = j := Option.some.inj (hi.symm.trans hj)
    obtain rfl : i = j' := Option.some.inj (hi.symm.trans hj')
    have hafter : c.after d pos i = c.after d' pos i := by rw [after, after, ih]
    cases he with
    | next hf => rw [(hb.next hf).2, (hb'.next hf).2, hafter]
    | target hf ht =>
      by_cases hl : i.opcode.flow = .leave
      · obtain ⟨u, hu, hd⟩ := hb.leave hl
        obtain ⟨u', hu', hd'⟩ := hb'.leave hl
        obtain rfl : t = u := Option.some.inj (ht.symm.trans hu)
        obtain rfl : t = u' := Option.some.inj (ht.symm.trans hu')
        rw [hd, hd']
      · have hf : i.opcode.flow = .branch ∨ i.opcode.flow = .condBranch := by
          rcases hf with hf | hf | hf
          · exact .inl hf
          · exact .inr hf
          · exact absurd hf hl
        obtain ⟨u, hu, hd⟩ := hb.branch hf
        obtain ⟨u', hu', hd'⟩ := hb'.branch hf
        obtain rfl : t = u := Option.some.inj (ht.symm.trans hu)
        obtain rfl : t = u' := Option.some.inj (ht.symm.trans hu')
        rw [hd, hd', hafter]

theorem Balanced.heights_eq (h : c.Balanced d) (h' : c.Balanced d') :
    c.Heights d = c.Heights d' := by
  have hafter {pos : Nat} (hp : c.Reaches pos) (i : Instruction) :
      c.after d pos i = c.after d' pos i := by
    rw [after, after, h.unique h' hp]
  ext n
  constructor
  · rintro (⟨pos, i, hp, hi, rfl⟩ | hr)
    · exact .inl ⟨pos, i, hp, hi, hafter hp i⟩
    · exact .inr hr
  · rintro (⟨pos, i, hp, hi, rfl⟩ | hr)
    · exact .inl ⟨pos, i, hp, hi, (hafter hp i).symm⟩
    · exact .inr hr

end VerifyContext

namespace Walk

variable {c : VerifyContext}

/-- The depth that a walk has found for a position; 0 if it was not reached. -/
def level (w : Walk) (pos : Nat) : Nat := ((w.depth? pos).getD 0).toNat

theorem level_of_depth? {w : Walk} {pos : Nat} {d : UInt16} (h : w.depth? pos = some d) :
    w.level pos = d.toNat := by
  rw [level, h, Option.getD_some]

/-- A walk that ended has reached what control can reach. -/
theorem Sound.exists_depth {w : Walk} (hw : Sound c w) (hn : w.work = []) {pos : Nat}
    (hp : c.Reaches pos) : ∃ d, w.depth? pos = some d := by
  induction hp with
  | entry ht => exact ⟨_, hw.entries _ ht⟩
  | edge _ hi he ih =>
    obtain ⟨d, hd⟩ := ih
    obtain ⟨i, p, q, l, hs⟩ := hw.settled _ d hd (by rw [hn]; exact List.not_mem_nil)
    cases Option.some.inj (hi.symm.trans hs.code)
    exact ⟨_, hs.handed _ (hs.passes.exists_of_edge he)⟩

/-! ## From the walk to balanced depths -/

theorem after_of_settled (hu : Unwrapped c.method c.body c.imports) (hc : c.Formed) {w : Walk}
    {pos : Nat} {d : UInt16} {i : Instruction} {p q : UInt16} {l : List (Nat × UInt16)}
    (hd : w.depth? pos = some d) (hs : Settled c w pos d i p q l) :
    c.after w.level pos i = (d - p + q).toNat := by
  rw [VerifyContext.after, effect_of_stackEffect hu.arities hs.effect, level_of_depth? hd,
    hs.unwrapped (hc.size ▸ hu.body)]

theorem balancedAt_of_settled (hu : Unwrapped c.method c.body c.imports) (hc : c.Formed)
    {w : Walk} {pos : Nat} {d : UInt16} {i : Instruction} {p q : UInt16}
    {l : List (Nat × UInt16)} (hd : w.depth? pos = some d) (hs : Settled c w pos d i p q l) :
    c.BalancedAt w.level pos i := by
  have hafter := after_of_settled hu hc hd hs
  have hlevel : ∀ t ∈ l, w.level t.1 = t.2.toNat := fun t ht => level_of_depth? (hs.handed t ht)
  refine ⟨(checkOperand_eq_ok_iff_fits hu.params).1 hs.operand, ?_, ?_, ?_, ?_, ?_, ?_⟩
  · rw [effect_of_stackEffect hu.arities hs.effect, level_of_depth? hd]
    exact UInt16.le_iff_toNat_le.1 hs.enough
  · intro hf
    cases hs.passes with
    | next _ hlt => exact ⟨hlt, by rw [hafter]; exact hlevel _ List.mem_cons_self⟩
    | condBranch _ _ hlt =>
      exact ⟨hlt, by rw [hafter]; exact hlevel _ (List.mem_cons_of_mem _ List.mem_cons_self)⟩
    | branch h | leave h | ret h | throw h => simp [h] at hf
  · intro hf
    cases hs.passes with
    | branch _ ht | condBranch _ ht _ =>
      exact ⟨_, ht, by rw [hafter]; exact hlevel _ List.mem_cons_self⟩
    | next h | leave h | ret h | throw h => simp [h] at hf
  · intro hf
    cases hs.passes with
    | leave _ ht => exact ⟨_, ht, hlevel _ List.mem_cons_self⟩
    | next h | branch h | condBranch h | ret h | throw h => simp [h] at hf
  · intro hf
    cases hs.passes with
    | ret _ hr h0 => exact ⟨hr, by rw [hafter, h0]; rfl⟩
    | next h | branch h | condBranch h | leave h | throw h => simp [h] at hf
  · intro ho
    cases hs.passes with
    | throw _ hr => exact hr ho
    | next h | branch h | condBranch h | leave h | ret h => simp [ho, Opcode.flow] at h

/-- The depths that an ended walk has found are balanced, and its greatest depth is the
greatest of them. -/
theorem balanced_of_sound (hu : Unwrapped c.method c.body c.imports) (hc : c.Formed) {w : Walk}
    (hw : Sound c w) (hn : w.work = []) :
    c.Balanced w.level ∧ IsGreatest (c.Heights w.level) w.maxStack.toNat := by
  have hsettled {pos : Nat} {d : UInt16} (hd : w.depth? pos = some d) :
      ∃ i p q l, Settled c w pos d i p q l :=
    hw.settled pos d hd (by rw [hn]; exact List.not_mem_nil)
  have hupper : ∀ n ∈ c.Heights w.level, n ≤ w.maxStack.toNat := by
    rintro n (⟨pos, i, hp, hi, rfl⟩ | ⟨hr, rfl⟩)
    · obtain ⟨d, hd⟩ := hw.exists_depth hn hp
      obtain ⟨j, p, q, l, hs⟩ := hsettled hd
      obtain rfl : i = j := Option.some.inj (hi.symm.trans hs.code)
      rw [after_of_settled hu hc hd hs]
      exact UInt16.le_iff_toNat_le.1 hs.below
    · exact UInt16.le_iff_toNat_le.1 (hw.handled hr)
  refine ⟨⟨?_, ?_, ?_⟩, ?_, hupper⟩
  · exact level_of_depth? (hw.entries (0, 0) List.mem_cons_self)
  · intro r hr
    exact level_of_depth? (hw.entries (r.handlerRange.start, 1)
      (List.mem_cons_of_mem _ (List.mem_map_of_mem hr)))
  · intro pos hp
    obtain ⟨d, hd⟩ := hw.exists_depth hn hp
    obtain ⟨i, p, q, l, hs⟩ := hsettled hd
    exact ⟨i, hs.code, balancedAt_of_settled hu hc hd hs⟩
  · rcases hw.attained with h0 | ⟨hr, h1⟩ | ⟨pos, d, i, p, q, l, hd, hck, hm⟩
    · -- nothing is above 0, so the depth after the first instruction is 0
      have hp : c.Reaches 0 := .entry (t := (0, 0)) List.mem_cons_self
      obtain ⟨d, hd⟩ := hw.exists_depth hn hp
      obtain ⟨i, p, q, l, hs⟩ := hsettled hd
      have hmem : c.after w.level 0 i ∈ c.Heights w.level := .inl ⟨0, i, hp, hs.code, rfl⟩
      have hle := hupper _ hmem
      rw [h0] at hle ⊢
      rw [Nat.le_zero.1 hle] at hmem
      exact hmem
    · exact .inr ⟨hr, by rw [h1]; rfl⟩
    · obtain ⟨j, p', q', l', hs⟩ := hsettled hd
      obtain rfl : i = j := Option.some.inj (hck.code.symm.trans hs.code)
      obtain ⟨rfl, rfl⟩ : p = p' ∧ q = q' := by
        have := Except.ok.inj (hck.effect.symm.trans hs.effect)
        exact Prod.mk.inj this
      refine .inl ⟨pos, i, hw.reached pos d hd, hs.code, ?_⟩
      rw [hm, after_of_settled hu hc hd hs]

/-! ## From balanced depths to the walk -/

variable {d : Nat → Nat}

/-- What a walk has found are these depths. -/
def Agrees (w : Walk) (d : Nat → Nat) : Prop :=
  ∀ pos e, w.depth? pos = some e → d pos = e.toNat

/-- The edges of a balanced instruction can all be followed, with the depths of the
positions they lead to. -/
theorem passes_of_balancedAt {pos : Nat} {i : Instruction} {after : UInt16}
    (hb : c.BalancedAt d pos i) (ha : c.after d pos i = after.toNat) :
    ∃ l, Passes c pos i after l ∧ ∀ t ∈ l, d t.1 = t.2.toNat := by
  cases hf : i.opcode.flow with
  | next =>
    obtain ⟨hlt, hd⟩ := hb.next (.inl hf)
    refine ⟨_, .next hf hlt, ?_⟩
    simpa using hd.trans ha
  | branch =>
    obtain ⟨t, ht, hd⟩ := hb.branch (.inl hf)
    refine ⟨_, .branch hf ht, ?_⟩
    simpa using hd.trans ha
  | condBranch =>
    obtain ⟨hlt, hd⟩ := hb.next (.inr hf)
    obtain ⟨t, ht, hd'⟩ := hb.branch (.inr hf)
    refine ⟨_, .condBranch hf ht hlt, ?_⟩
    simpa using ⟨hd'.trans ha, hd.trans ha⟩
  | leave =>
    obtain ⟨t, ht, hd⟩ := hb.leave hf
    refine ⟨_, .leave hf ht, ?_⟩
    simpa using hd
  | ret =>
    obtain ⟨hr, h0⟩ := hb.ret hf
    refine ⟨[], .ret hf hr ?_, fun t ht => by cases ht⟩
    rw [← UInt16.toNat_inj, ← ha, h0]
    rfl
  | throw => exact ⟨[], .throw hf hb.rethrow, fun t ht => by cases ht⟩

/-- Balanced depths do not wrap where the walk has room for them, and so they guide it. -/
theorem guides_of_balanced (hu : Unwrapped c.method c.body c.imports) (hc : c.Formed)
    (hb : c.Balanced d) : c.Guides fun pos e => d pos = e.toNat := by
  refine ⟨fun pos e e' h h' => UInt16.toNat_inj.1 (h.symm.trans h'), fun t ht => hb.entry ht,
    fun w hw pos hp e he hpos => ?_⟩
  obtain ⟨i, hi, hbal⟩ := hb.reachable pos (hw.reached pos e he)
  obtain ⟨⟨p, q⟩, heff⟩ := stackEffect_isOk hbal.operand
  have hpq := effect_of_stackEffect hu.arities heff
  have henough : p ≤ e := by
    have := hbal.enough
    rw [hpq, hpos] at this
    exact UInt16.le_iff_toNat_le.2 this
  have hafter : c.after d pos i = (e - p + q).toNat := by
    have hroom := hw.room pos e he
    have hlen : 0 < w.work.length := List.length_pos_of_mem hp
    have hsize := hc.size ▸ hu.body
    have hle := UInt16.le_iff_toNat_le.1 henough
    have := pushes_le heff
    rw [toNat_after henough (by omega), VerifyContext.after, hpq, hpos]
  obtain ⟨l, hl, hd⟩ := passes_of_balancedAt hbal hafter
  have hoperand := (checkOperand_eq_ok_iff_fits hu.params).2 hbal.operand
  exact ⟨i, p, q, l, ⟨hi, hoperand, heff, henough, hl⟩, hd⟩

theorem start_of_balanced (hu : Unwrapped c.method c.body c.imports) (hc : c.Formed)
    (hb : c.Balanced d) : ∃ w, start c = .ok w ∧ w.Agrees d :=
  start_of_guides hc (guides_of_balanced hu hc hb)

/-- In a balanced body a walk ends without failing, whatever the order of its visits. -/
theorem isOk_of_balanced (hu : Unwrapped c.method c.body c.imports) (hc : c.Formed)
    (hb : c.Balanced d) {w : Walk} (hw : Sound c w) (ha : w.Agrees d)
    {r : Except CodeError Walk} (h : Ends c w r) : ∃ w', r = .ok w' := by
  obtain ⟨w', hr, -⟩ := isOk_of_guides hc (guides_of_balanced hu hc hb) hw ha h
  exact ⟨w', hr⟩

end Walk

/-! ## The verifier -/

section

variable {m : Method} {b : Body} {imports : ImportTable} {rs : List Region}

theorem balanced_of_verifyBody (hu : Unwrapped m b imports) {k : UInt16}
    (h : verifyBody m b imports = .ok k) :
    ∃ rs, (VerifyContext.of m b imports rs).Formed ∧ ∃ d,
      (VerifyContext.of m b imports rs).Balanced d ∧
        IsGreatest ((VerifyContext.of m b imports rs).Heights d) k.toNat := by
  obtain ⟨w, hw, rfl⟩ := verifyBody_eq_ok_iff.1 h
  obtain ⟨rs, hc, hs, hn⟩ := sound_of_verifyWalk hw
  exact ⟨rs, hc, w.level, Walk.balanced_of_sound hu hc hs hn⟩

/-- Over a balanced body the walk in any order ends with the greatest of the depths. -/
theorem ends_of_balanced (hu : Unwrapped m b imports)
    (hc : (VerifyContext.of m b imports rs).Formed) {d : Nat → Nat}
    (hb : (VerifyContext.of m b imports rs).Balanced d) {w : Walk}
    (hs : Walk.start (.of m b imports rs) = .ok w) {r : Except CodeError Walk}
    (h : Walk.Ends (.of m b imports rs) w r) :
    ∃ w', r = .ok w' ∧
      IsGreatest ((VerifyContext.of m b imports rs).Heights d) w'.maxStack.toNat := by
  obtain ⟨w₁, hw₁, ha⟩ := Walk.start_of_balanced hu hc hb
  obtain rfl : w = w₁ := Except.ok.inj (hs.symm.trans hw₁)
  have hsound := Walk.sound_start hc hs
  obtain ⟨w', rfl⟩ := Walk.isOk_of_balanced hu hc hb hsound ha h
  obtain ⟨hsound', hn⟩ := Walk.sound_of_ends hc hsound h
  obtain ⟨hb', hg⟩ := Walk.balanced_of_sound hu hc hsound' hn
  exact ⟨w', rfl, hb.heights_eq hb' ▸ hg⟩

theorem verifyBody_of_balanced (hu : Unwrapped m b imports)
    (hc : (VerifyContext.of m b imports rs).Formed) {d : Nat → Nat}
    (hb : (VerifyContext.of m b imports rs).Balanced d) {k : UInt16}
    (hk : IsGreatest ((VerifyContext.of m b imports rs).Heights d) k.toNat) :
    verifyBody m b imports = .ok k := by
  obtain ⟨w, hs, -⟩ := Walk.start_of_balanced hu hc hb
  obtain ⟨w', hr, hg⟩ := ends_of_balanced hu hc hb hs (Walk.ends_run _ w)
  refine verifyBody_eq_ok_iff.2 ⟨w', verifyWalk_eq_ok_iff.2 ⟨rs, hc, w, hs, hr⟩, ?_⟩
  exact UInt16.toNat_inj.1 (hg.unique hk)

/-- Two walks from the same start agree on the verdict and on the greatest depth. -/
theorem ends_order (hu : Unwrapped m b imports) (hc : (VerifyContext.of m b imports rs).Formed)
    {w : Walk} (hs : Walk.start (.of m b imports rs) = .ok w) {r r' : Except CodeError Walk}
    (h : Walk.Ends (.of m b imports rs) w r) (h' : Walk.Ends (.of m b imports rs) w r') :
    r.toOption.map (·.maxStack) = r'.toOption.map (·.maxStack) := by
  have accepted {w₁ : Walk} {r' : Except CodeError Walk}
      (h : Walk.Ends (.of m b imports rs) w (.ok w₁))
      (h' : Walk.Ends (.of m b imports rs) w r') :
      ∃ w₂, r' = .ok w₂ ∧ w₁.maxStack = w₂.maxStack := by
    obtain ⟨hsound, hn⟩ := Walk.sound_of_ends hc (Walk.sound_start hc hs) h
    obtain ⟨hb, hg⟩ := Walk.balanced_of_sound hu hc hsound hn
    obtain ⟨w₂, rfl, hg'⟩ := ends_of_balanced hu hc hb hs h'
    exact ⟨w₂, rfl, UInt16.toNat_inj.1 (hg.unique hg')⟩
  cases r with
  | ok w₁ =>
    obtain ⟨w₂, rfl, he⟩ := accepted h h'
    exact congrArg some he
  | error e =>
    cases r' with
    | ok w₂ =>
      obtain ⟨w₁, he, -⟩ := accepted h' h
      cases he
    | error e' => rfl

end

/-- The verifier accepts exactly the bodies with balanced depths, and gives the greatest of
them. Whatever the order in which positions are visited, the walk ends, with the same
verdict and the same greatest depth. -/
theorem verifyBody_eq_ok_iff_balanced (m : Method) (b : Body) (imports : ImportTable)
    (hu : Unwrapped m b imports) :
    (∀ k, verifyBody m b imports = .ok k ↔
      b.stream ≠ [] ∧ b.Anchored ∧ ∃ rs, b.regions = .ok rs ∧ ∃ d,
        (VerifyContext.of m b imports rs).Balanced d ∧
          IsGreatest ((VerifyContext.of m b imports rs).Heights d) k.toNat) ∧
    (∀ rs w r, b.stream ≠ [] → b.regions = .ok rs →
      Walk.start (.of m b imports rs) = .ok w → Walk.Ends (.of m b imports rs) w r →
        r.toOption.map (·.maxStack) = (verifyBody m b imports).toOption) ∧
    ∀ rs, WellFounded fun w' w : Walk => Walk.Visits (.of m b imports rs) w w' := by
  refine ⟨fun k => ⟨fun h => ?_, ?_⟩, ?_, fun rs => Walk.wellFounded_visits _⟩
  · obtain ⟨rs, hc, hd⟩ := balanced_of_verifyBody hu h
    exact ⟨hc.nonempty, Body.anchored_iff.2 ⟨rs, hc.regions⟩, rs, hc.regions, hd⟩
  · rintro ⟨hne, -, rs, hrs, d, hb, hk⟩
    exact verifyBody_of_balanced hu ⟨hne, rfl, hrs⟩ hb hk
  · intro rs w r hne hrs hs h
    have hc : (VerifyContext.of m b imports rs).Formed := ⟨hne, rfl, hrs⟩
    rw [ends_order hu hc hs h (Walk.ends_run _ w)]
    have hwalk : verifyWalk m b imports = Walk.run (.of m b imports rs) w := by
      unfold verifyWalk
      rw [if_neg (by simpa using hne), hrs]
      show (Walk.start (.of m b imports rs) >>= Walk.run (.of m b imports rs)) = _
      rw [hs]
      rfl
    unfold verifyBody
    rw [hwalk]
    cases Walk.run (.of m b imports rs) w <;> rfl

/-- A method that counts its argument down in a loop and returns nothing. -/
def countdown : Method where
  name := "Count"
  flags := .static
  params := [⟨0, "n", .int32⟩]
  body? := some (.ofList [.ldarg 0, .ldcI4 1, .plain .sub, ⟨.starg, .argument 0⟩, .ldarg 0,
    ⟨.brtrue, .target 0⟩, .plain .ret])

/-- The depths of the loop do not grow from round to round. -/
theorem balanced_countdown :
    ∃ b d, countdown.body? = some b ∧ (VerifyContext.of countdown b {} []).Balanced d ∧
      IsGreatest ((VerifyContext.of countdown b {} []).Heights d) 2 := by
  obtain ⟨b, hb⟩ : ∃ b, countdown.body? = some b := ⟨_, rfl⟩
  have hu : Unwrapped countdown b {} := by
    cases hb
    exact ⟨by decide, by decide, by decide⟩
  have hv : verifyBody countdown b {} = .ok 2 := by
    cases hb
    decide +kernel
  obtain ⟨-, -, rs, hrs, d, hd⟩ := ((verifyBody_eq_ok_iff_balanced countdown b {} hu).1 2).1 hv
  obtain rfl : rs = [] := by
    cases hb
    exact (Except.ok.inj hrs).symm
  exact ⟨b, d, hb, hd⟩

end Interpose
