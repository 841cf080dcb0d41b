import Interpose.Proofs.Verify.Invariant
/-!
# Walks with a guide

Depths that are given for positions guide a walk where the entries have theirs, and where a
position that waits with its own depth passes its checks and hands on the depths that are
given. Such a walk cannot fail, and it finds no other depths. That a position passes may
follow from the invariant of the walk.

Results:
* `start_of_guides`, `visit_of_guides`: the start and each visit succeed.
* `isOk_of_guides`: so does a walk, in whatever order it visits.
-/
namespace Interpose

/-- The depths `R` guide a walk: there is one for each position at most, the entries have
theirs, and a position that waits with its own is in order and hands on others. -/
structure VerifyContext.Guides (c : VerifyContext) (R : Nat → UInt16 → Prop) : Prop where
  unique : ∀ pos d e, R pos d → R pos e → d = e
  entries : ∀ t ∈ c.entries, R t.1 t.2
  visit : ∀ w, Walk.Sound c w → ∀ pos ∈ w.work, ∀ d, w.depth? pos = some d → R pos d →
    ∃ i p q l, Walk.Checked c pos d i p q l ∧ ∀ t ∈ l, R t.1 t.2

namespace Walk

/-- Every depth that a walk has found is one of these. -/
def Within (w : Walk) (R : Nat → UInt16 → Prop) : Prop := ∀ pos d, w.depth? pos = some d → R pos d

variable {c : VerifyContext} {R : Nat → UInt16 → Prop} {w : Walk}

/-- Positions can be entered with the depths that are given for them. -/
theorem enterAll_of_guides (h : c.Guides R) {l : List (Nat × UInt16)} (hw : w.Within R)
    (hl : ∀ t ∈ l, t.1 < w.depths.size ∧ R t.1 t.2) :
    ∃ w', w.enterAll l = .ok w' ∧ w'.Within R := by
  classical
  -- the depths as a function; what it gives elsewhere does not matter
  have hf : ∃ f : Nat → UInt16, ∀ pos d, R pos d → d = f pos := by
    refine ⟨fun pos => if hd : ∃ d, R pos d then hd.choose else 0, fun pos d hd => ?_⟩
    have hex : ∃ e, R pos e := ⟨d, hd⟩
    simp only [dif_pos hex]
    exact h.unique pos d _ hd hex.choose_spec
  obtain ⟨f, hf⟩ := hf
  obtain ⟨w', he⟩ := enterAll_isOk (f := f) (fun t ht => ⟨(hl t ht).1, hf _ _ (hl t ht).2⟩)
    (fun pos d hd => hf pos d (hw pos d hd))
  refine ⟨w', he, fun pos d hd => ?_⟩
  rcases (entered_of_enterAll (fun t ht => (hl t ht).1) he).fresh pos d hd with hd | ⟨hm, -⟩
  · exact hw pos d hd
  · exact (hl _ hm).2

theorem start_of_guides (hc : c.Formed) (h : c.Guides R) : ∃ w, start c = .ok w ∧ w.Within R := by
  obtain ⟨w, he, hw⟩ := enterAll_of_guides (w := (fresh c).raise c.entryDepth) h
    (fun pos d hd => by rw [depth?_fresh] at hd; cases hd)
    (fun t ht => ⟨by simpa [fresh, raise] using hc.lt_of_entry ht, h.entries t ht⟩)
  exact ⟨w, (start_eq hc).trans he, hw⟩

theorem visit_of_guides (hc : c.Formed) (h : c.Guides R) (hs : Sound c w) (hw : w.Within R)
    {front back : List Nat} {pos : Nat} (hwork : w.work = front ++ pos :: back) :
    ∃ w', visit c { w with work := front ++ back } pos = .ok w' ∧ w'.Within R := by
  have hp : pos ∈ w.work := by rw [hwork]; simp
  obtain ⟨d, hd⟩ := hs.waiting pos hp
  obtain ⟨i, p, q, l, hck, hl⟩ := h.visit w hs pos hp d hd (hw pos d hd)
  obtain ⟨w', he, hw'⟩ := enterAll_of_guides
    (w := ({ w with work := front ++ back } : Walk).raise (d - p + q)) h hw
    (fun t ht => ⟨hs.size ▸ hck.passes.lt hc t ht, hl t ht⟩)
  exact ⟨w', (visit_eq_ok_iff (w := { w with work := front ++ back }) hs.size hd).2
    ⟨i, p, q, l, hck, he⟩, hw'⟩

/-- A guided walk ends without failing, whatever the order of its visits, and finds no other
depths. -/
theorem isOk_of_guides (hc : c.Formed) (h : c.Guides R) (hs : Sound c w) (hw : w.Within R)
    {r : Except CodeError Walk} (he : Ends c w r) : ∃ w', r = .ok w' ∧ w'.Within R := by
  induction he with
  | finished => exact ⟨_, rfl, hw⟩
  | failed hwork hv =>
    obtain ⟨w', hv', -⟩ := visit_of_guides hc h hs hw hwork
    rw [hv] at hv'
    cases hv'
  | visits hv _ ih =>
    refine ih (sound_visits hc hs hv) ?_
    obtain ⟨hwork, hv⟩ := hv
    obtain ⟨w', hv', hw'⟩ := visit_of_guides hc h hs hw hwork
    cases Except.ok.inj (hv.symm.trans hv')
    exact hw'

end Walk

end Interpose
