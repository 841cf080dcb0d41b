import Interpose.Proofs.Verify.Balance
import Mathlib.Logic.Relation
/-!
# Depths stay in range

The verifier counts with sixteen bits. In a body of `n` instructions no depth rises above
`n + 1`, loops and all: a depth is assigned where a position is reached for the first time,
so each instruction raises the greatest depth once at most, by one (`Capped`).

Results:
* `capped_start`, `capped_visits`: what is left to visit bounds the greatest depth.
* `inRange_of_visits`: no number that a walk comes to wraps, in whatever order it visits.
* `verifyBody_inRange`: the same of the verifier, with its other counts.
-/
namespace Interpose

namespace Walk

variable {c : VerifyContext} {w w' : Walk}

/-- The greatest depth leaves room for one more value at each position not yet visited. -/
def Capped (c : VerifyContext) (w : Walk) : Prop :=
  w.maxStack.toNat + w.unreached + w.work.length ≤ c.code.size + 1

theorem capped_start (hc : c.Formed) (h : start c = .ok w) : Capped c w := by
  obtain ⟨-, hleft, hmax⟩ := entered_of_start hc h
  have hone : w.maxStack.toNat ≤ 1 := hmax ▸ UInt16.le_iff_toNat_le.1 (entryDepth_le_one c)
  unfold Capped
  omega

/-- A visit raises the greatest depth by one at most, and uses up a position. -/
theorem capped_visits (hc : c.Formed) (hw : Sound c w) (hcap : Capped c w) (h : Visits c w w') :
    Capped c w' := by
  obtain ⟨front, back, pos, d, i, p, q, l, -, hd, hck, -, hleft, hmax⟩ := h.entered hc hw
  have hbelow := UInt16.le_iff_toNat_le.1 (hw.below pos d hd)
  have henough := UInt16.le_iff_toNat_le.1 hck.enough
  have hafter := toNat_after_le (q := q) hck.enough
  have hpushes := pushes_le hck.effect
  unfold Capped at hcap ⊢
  rw [hmax, toNat_max]
  omega

/-- No number of a walk has left the range of its body: the depths it has found, the
greatest of them, and what the next visit computes, whichever position it takes and
whether it fails or not. -/
structure InRange (c : VerifyContext) (w : Walk) : Prop where
  depth : ∀ pos d, w.depth? pos = some d → d.toNat ≤ c.body.size + 1
  maxStack : w.maxStack.toNat ≤ c.body.size + 1
  after : ∀ pos ∈ w.work, ∃ d i, w.depth? pos = some d ∧ c.code[pos]? = some i ∧
    ∀ p q, stackEffect c.method c.imports i = .ok (p, q) → p ≤ d →
      (d - p + q).toNat = d.toNat - p.toNat + q.toNat ∧
        d.toNat - p.toNat + q.toNat ≤ c.body.size + 1

theorem inRange_of_capped (hc : c.Formed) (hsize : c.body.size < 65535) (hw : Sound c w)
    (hcap : Capped c w) : InRange c w := by
  have hmax : w.maxStack.toNat + w.work.length ≤ c.body.size + 1 := by
    rw [Capped, hc.size] at hcap
    omega
  have hdepth {pos : Nat} {d : UInt16} (hd : w.depth? pos = some d) :
      d.toNat + w.work.length ≤ c.body.size + 1 := by
    have := UInt16.le_iff_toNat_le.1 (hw.below pos d hd)
    omega
  refine ⟨fun pos d hd => ?_, by omega, fun pos hp => ?_⟩
  · have := hdepth hd
    omega
  · obtain ⟨d, hd⟩ := hw.waiting pos hp
    have hlt : pos < c.code.size := hw.size ▸ lt_of_depth? hd
    refine ⟨d, c.code[pos], hd, Array.getElem?_eq_getElem hlt, fun p q he hpd => ?_⟩
    -- the position itself still waits, so its depth is below the bound
    have hwaits : 0 < w.work.length := List.length_pos_of_mem hp
    have hroom := hdepth hd
    have hpushes := pushes_le he
    have hpops := UInt16.le_iff_toNat_le.1 hpd
    have hafter : d.toNat - p.toNat + q.toNat ≤ c.body.size + 1 := by omega
    exact ⟨toNat_after hpd (by omega), hafter⟩

/-- A walk stays in range as long as it goes on, whatever the order of its visits. -/
theorem inRange_of_visits (hc : c.Formed) (hsize : c.body.size < 65535) {w₀ : Walk}
    (hs : start c = .ok w₀) (h : Relation.ReflTransGen (Visits c) w₀ w) : InRange c w := by
  have hkept : Sound c w ∧ Capped c w := by
    induction h with
    | refl => exact ⟨sound_start hc hs, capped_start hc hs⟩
    | tail _ hv ih => exact ⟨sound_visits hc ih.1 hv, capped_visits hc ih.1 ih.2 hv⟩
  exact inRange_of_capped hc hsize hkept.1 hkept.2

/-- A walk that ends has come there by visits. -/
theorem visits_of_ends {r : Except CodeError Walk} (h : Ends c w r) (hr : r = .ok w') :
    Relation.ReflTransGen (Visits c) w w' := by
  induction h with
  | finished => cases hr; exact .refl
  | failed => cases hr
  | visits hv _ ih => exact .head hv (ih hr)

end Walk

/-- Where sixteen bits suffice for the sizes of a method, a body and its imports, no count
of the verifier wraps: the arguments of the method, what an instruction takes and puts, and
every depth of a walk, none of which is above the number of instructions by more than one. -/
theorem verifyBody_inRange (m : Method) (b : Body) (imports : ImportTable)
    (hu : Unwrapped m b imports) :
    m.argCount.toNat = m.params.length + (if m.hasThis then 1 else 0) ∧
    (∀ i p q, stackEffect m imports i = .ok (p, q) → i.effect m imports = (p.toNat, q.toNat)) ∧
    (∀ rs, (VerifyContext.of m b imports rs).Formed →
      (∀ t ∈ (VerifyContext.of m b imports rs).entries, t.2.toNat ≤ b.size + 1) ∧
      ∀ w₀ w, Walk.start (.of m b imports rs) = .ok w₀ →
        Relation.ReflTransGen (Walk.Visits (.of m b imports rs)) w₀ w →
          w.InRange (.of m b imports rs)) ∧
    (∀ w, verifyWalk m b imports = .ok w →
      ∀ pos d, w.depth? pos = some d → d.toNat ≤ b.size + 1) ∧
    ∀ k, verifyBody m b imports = .ok k → k.toNat ≤ b.size + 1 := by
  have hwalk {w : Walk} (h : verifyWalk m b imports = .ok w) :
      ∃ rs, w.InRange (.of m b imports rs) := by
    obtain ⟨rs, hc, w₀, hs, hr⟩ := verifyWalk_eq_ok_iff.1 h
    exact ⟨rs, Walk.inRange_of_visits hc hu.body hs
      (Walk.visits_of_ends (Walk.ends_run _ w₀) hr)⟩
  refine ⟨toNat_argCount hu.params, fun i p q => effect_of_stackEffect hu.arities, ?_, ?_, ?_⟩
  · intro rs hc
    refine ⟨fun t ht => ?_, fun w₀ w hs h => Walk.inRange_of_visits hc hu.body hs h⟩
    have hone : t.2.toNat ≤ 1 := by
      rcases List.mem_cons.1 ht with rfl | ht
      · exact Nat.zero_le _
      · obtain ⟨r, -, rfl⟩ := List.mem_map.1 ht
        exact Nat.le_refl _
    omega
  · intro w h pos d hd
    obtain ⟨rs, hr⟩ := hwalk h
    exact hr.depth pos d hd
  · intro k h
    obtain ⟨w, hw, rfl⟩ := verifyBody_eq_ok_iff.1 h
    obtain ⟨rs, hr⟩ := hwalk hw
    exact hr.maxStack

/-- The loop that counts an argument down, with the depths of its walk and the greatest. -/
theorem verifyBody_inRange_countdown :
    ∃ b, countdown.body? = some b ∧ Unwrapped countdown b {} ∧
      (∃ w, verifyWalk countdown b {} = .ok w ∧
        ∀ pos d, w.depth? pos = some d → d.toNat ≤ b.size + 1) ∧
      ∃ k, verifyBody countdown b {} = .ok k ∧ k.toNat ≤ b.size + 1 := by
  obtain ⟨b, hb⟩ : ∃ b, countdown.body? = some b := ⟨_, rfl⟩
  have hu : Unwrapped countdown b {} := by
    cases hb
    exact ⟨by decide, by decide, by decide⟩
  have hv : verifyBody countdown b {} = .ok 2 := by
    cases hb
    decide +kernel
  obtain ⟨w, hw, -⟩ := verifyBody_eq_ok_iff.1 hv
  obtain ⟨-, -, -, hdepth, hk⟩ := verifyBody_inRange countdown b {} hu
  exact ⟨b, hb, hu, ⟨w, hw, hdepth w hw⟩, 2, hv, hk 2 hv⟩

end Interpose
