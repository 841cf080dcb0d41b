import Interpose.Proofs.Verify.Guided
/-!
# Depths told in advance

Where the depths that a walk finds can be told in advance, and with them no check fails,
there the verifier accepts, and it finds no other depth. Unlike balanced depths, these are
the verifier's own, and there is no need to know which positions control reaches.

Results:
* `Expects.guides`: such depths guide a walk.
* `verifyWalk_of_expects`: the verifier's walk ends and finds only expected depths.
-/
namespace Interpose

/-- The depths that `R` tells are enough for a walk: there is one for each position at most,
the entries have theirs, no check fails, and what an instruction hands on is told too. No
depth rises above `top`. -/
structure VerifyContext.Expects (c : VerifyContext) (R : Nat → UInt16 → Prop) (top : UInt16) :
    Prop where
  unique : ∀ pos d e, R pos d → R pos e → d = e
  entries : ∀ t ∈ c.entries, R t.1 t.2
  caught : c.regions ≠ [] → 1 ≤ top
  step : ∀ pos d, R pos d → ∃ i p q l,
    Walk.Checked c pos d i p q l ∧ d - p + q ≤ top ∧ ∀ t ∈ l, R t.1 t.2

theorem VerifyContext.Expects.guides {c : VerifyContext} {R : Nat → UInt16 → Prop}
    {top : UInt16} (h : c.Expects R top) : c.Guides R := by
  refine ⟨h.unique, h.entries, fun w hs pos hp d hd hr => ?_⟩
  obtain ⟨i, p, q, l, hck, -, hl⟩ := h.step pos d hr
  exact ⟨i, p, q, l, hck, hl⟩

namespace Walk

variable {c : VerifyContext} {R : Nat → UInt16 → Prop} {top : UInt16}

/-- An instruction has one effect. -/
theorem Checked.unique {pos : Nat} {d : UInt16} {i i' : Instruction} {p p' q q' : UInt16}
    {l l' : List (Nat × UInt16)} (h : Checked c pos d i p q l) (h' : Checked c pos d i' p' q' l') :
    i = i' ∧ p = p' ∧ q = q' := by
  obtain rfl : i = i' := Option.some.inj (h.code.symm.trans h'.code)
  have heffect := Except.ok.inj (h.effect.symm.trans h'.effect)
  exact ⟨rfl, Prod.mk.inj heffect⟩

theorem maxStack_le (h : c.Expects R top) {w : Walk} (hs : Sound c w) (hw : w.Within R) :
    w.maxStack ≤ top := by
  rcases hs.attained with h0 | ⟨hr, h1⟩ | ⟨pos, d, i, p, q, l, hd, hck, hm⟩
  · rw [h0, UInt16.le_iff_toNat_le]
    exact Nat.zero_le _
  · rw [h1]
    exact h.caught hr
  · obtain ⟨i', p', q', l', hck', htop, -⟩ := h.step pos d (hw pos d hd)
    obtain ⟨-, rfl, rfl⟩ := hck.unique hck'
    rw [hm]
    exact htop

end Walk

/-- The verifier accepts a body whose depths can be told in advance, and finds no others. -/
theorem verifyWalk_of_expects {m : Method} {b : Body} {imports : ImportTable} {rs : List Region}
    {R : Nat → UInt16 → Prop} {top : UInt16} (hc : (VerifyContext.of m b imports rs).Formed)
    (h : (VerifyContext.of m b imports rs).Expects R top) :
    ∃ w, verifyWalk m b imports = .ok w ∧ w.Within R ∧ w.maxStack ≤ top := by
  have hguides := h.guides
  obtain ⟨w₀, hstart, hw₀⟩ := Walk.start_of_guides hc hguides
  have hs₀ := Walk.sound_start hc hstart
  have hends := Walk.ends_run (.of m b imports rs) w₀
  obtain ⟨w, hrun, hw⟩ := Walk.isOk_of_guides hc hguides hs₀ hw₀ hends
  obtain ⟨hs, -⟩ := Walk.sound_of_ends hc hs₀ (hrun ▸ hends)
  exact ⟨w, verifyWalk_eq_ok_iff.2 ⟨rs, hc, w₀, hstart, hrun⟩, hw, Walk.maxStack_le h hs hw⟩

end Interpose
