import Interpose.Proofs.Verify.Walk
/-!
# The invariant of a walk

What has a depth and no longer waits has passed its checks, and its successors have the
depths it asked for. Depths wrap at sixteen bits; that a body is too short for it is part
of the invariant (`room`), because each visit raises a depth by one at most.

Results:
* `sound_start`, `sound_visits`: the invariant holds at the start and after each visit.
* `sound_of_ends`: it holds at the end of a walk in any order.
-/
namespace Interpose

namespace Walk

/-! ## Depths as numbers -/

theorem pushes_le {m : Method} {imports : ImportTable} {i : Instruction} {p q : UInt16}
    (h : stackEffect m imports i = .ok (p, q)) : q.toNat ≤ p.toNat + 1 := by
  unfold stackEffect at h
  split at h
  · next e he =>
    cases h
    have fixed (op : Opcode) (he : op.fixedEffect? = some (p, q)) : q.toNat ≤ p.toNat + 1 := by
      cases op <;> cases he <;> decide
    exact fixed i.opcode he
  · split at h
    · cases h; exact Nat.zero_le _
    · split at h
      · cases h
      · split at h
        · cases h
        · simp only at h
          split at h
          · cases h
            show 1 ≤ _
            omega
          · cases h
            split
            · exact Nat.zero_le _
            · show 1 ≤ _
              omega

/-- The depth after an instruction may wrap, but is never greater for it. -/
theorem toNat_after_le {d p q : UInt16} (h : p ≤ d) :
    (d - p + q).toNat ≤ d.toNat - p.toNat + q.toNat := by
  rw [UInt16.toNat_add, UInt16.toNat_sub_of_le _ _ h]
  exact Nat.mod_le _ _

theorem toNat_after {d p q : UInt16} (h : p ≤ d) (hlt : d.toNat - p.toNat + q.toNat < 65536) :
    (d - p + q).toNat = d.toNat - p.toNat + q.toNat := by
  rw [UInt16.toNat_add, UInt16.toNat_sub_of_le _ _ h]
  exact Nat.mod_eq_of_lt hlt

/-- What is handed on is the depth after the instruction, or 0. -/
theorem Passes.le {c : VerifyContext} {pos : Nat} {i : Instruction} {after : UInt16}
    {l : List (Nat × UInt16)} (h : Passes c pos i after l) : ∀ t ∈ l, t.2 ≤ after := by
  cases h <;> simp [UInt16.le_iff_toNat_le]

/-! ## The invariant -/

/-- A position that was visited: what it handed on is found in the walk, and the depth
after its instruction counts for the greatest one. -/
structure Settled (c : VerifyContext) (w : Walk) (pos : Nat) (d : UInt16) (i : Instruction)
    (p q : UInt16) (l : List (Nat × UInt16)) : Prop extends Checked c pos d i p q l where
  handed : ∀ t ∈ l, w.depth? t.1 = some t.2
  below : d - p + q ≤ w.maxStack
  /-- In a body that is not too long the depth does not wrap. -/
  unwrapped : c.code.size < 65535 → (d - p + q).toNat = d.toNat - p.toNat + q.toNat

/-- The greatest depth is the one of an empty stack, of a handler, or one after an
instruction. -/
def Attained (c : VerifyContext) (w : Walk) : Prop :=
  w.maxStack = 0 ∨ (c.regions ≠ [] ∧ w.maxStack = 1) ∨
    ∃ pos d i p q l, w.depth? pos = some d ∧ Checked c pos d i p q l ∧ w.maxStack = d - p + q

/-- The invariant of a walk. -/
structure Sound (c : VerifyContext) (w : Walk) : Prop where
  size : w.depths.size = c.code.size
  waiting : ∀ pos ∈ w.work, ∃ d, w.depth? pos = some d
  settled : ∀ pos d, w.depth? pos = some d → pos ∉ w.work → ∃ i p q l, Settled c w pos d i p q l
  reached : ∀ pos d, w.depth? pos = some d → c.Reaches pos
  entries : ∀ t ∈ c.entries, w.depth? t.1 = some t.2
  /-- Each position not yet reached, or not yet visited, can raise a depth by one. -/
  room : ∀ pos d, w.depth? pos = some d →
    d.toNat + w.unreached + w.work.length ≤ c.code.size + 1
  below : ∀ pos d, w.depth? pos = some d → d ≤ w.maxStack
  handled : c.regions ≠ [] → 1 ≤ w.maxStack
  attained : Attained c w

theorem depth?_fresh (c : VerifyContext) (k : UInt16) (pos : Nat) :
    ((fresh c).raise k).depth? pos = none := by
  simp only [depth?, raise, fresh, Array.getElem?_replicate]
  split <;> rfl

theorem entryDepth_le_one (c : VerifyContext) : c.entryDepth ≤ 1 := by
  unfold VerifyContext.entryDepth
  split <;> decide

theorem le_entryDepth {c : VerifyContext} {t : Nat × UInt16} (h : t ∈ c.entries) :
    t.2 ≤ c.entryDepth := by
  rcases List.mem_cons.1 h with rfl | h
  · exact UInt16.le_iff_toNat_le.2 (Nat.zero_le _)
  · obtain ⟨r, hr, rfl⟩ := List.mem_map.1 h
    rw [VerifyContext.entryDepth, if_neg (List.ne_nil_of_mem hr)]
    exact UInt16.le_refl 1

/-- A walk starts with the entries, and all that waits is left to visit. -/
theorem entered_of_start {c : VerifyContext} (hc : c.Formed) {w : Walk} (h : start c = .ok w) :
    Entered ((fresh c).raise c.entryDepth) c.entries w ∧
      w.unreached + w.work.length = c.code.size ∧ w.maxStack = c.entryDepth := by
  rw [start_eq hc] at h
  have hE := entered_of_enterAll (fun t ht => by simpa [fresh, raise] using hc.lt_of_entry ht) h
  refine ⟨hE, ?_, hE.maxStack.trans ?_⟩
  · rw [hE.left]
    simp [fresh, raise, unreached]
  · rw [← UInt16.toNat_inj, raise, toNat_max]
    exact Nat.zero_max _

theorem sound_start {c : VerifyContext} (hc : c.Formed) {w : Walk} (h : start c = .ok w) :
    Sound c w := by
  obtain ⟨hE, hleft, hmax⟩ := entered_of_start hc h
  have hentry {pos : Nat} {d : UInt16} (hd : w.depth? pos = some d) :
      (pos, d) ∈ c.entries ∧ pos ∈ w.work := by
    rcases hE.fresh pos d hd with hd | hd
    · rw [depth?_fresh] at hd
      cases hd
    · exact hd
  refine ⟨hE.size.trans (by simp [fresh, raise]), fun pos hp => ?_, fun pos d hd hn => ?_,
    fun pos d hd => .entry (hentry hd).1, hE.entered, fun pos d hd => ?_, fun pos d hd => ?_,
    fun hr => ?_, ?_⟩
  · rcases hE.waiting pos hp with hp | ⟨d, hd⟩
    · cases hp
    · exact ⟨d, hE.entered _ hd⟩
  · exact absurd (hentry hd).2 hn
  · have hd : d.toNat ≤ 1 := UInt16.le_iff_toNat_le.1
      (UInt16.le_trans (le_entryDepth (hentry hd).1) (entryDepth_le_one c))
    omega
  · exact hmax ▸ le_entryDepth (hentry hd).1
  · rw [hmax, VerifyContext.entryDepth, if_neg hr]
    exact UInt16.le_refl 1
  · rw [Attained, hmax, VerifyContext.entryDepth]
    by_cases hr : c.regions = []
    · exact .inl (if_pos hr)
    · exact .inr (.inl ⟨hr, if_neg hr⟩)

theorem Settled.mono {c : VerifyContext} {w w' : Walk} {pos : Nat} {d : UInt16} {i : Instruction}
    {p q : UInt16} {l : List (Nat × UInt16)} (h : Settled c w pos d i p q l)
    (hk : ∀ pos d, w.depth? pos = some d → w'.depth? pos = some d)
    (hm : w.maxStack ≤ w'.maxStack) : Settled c w' pos d i p q l where
  toChecked := h.toChecked
  handed t ht := hk _ _ (h.handed t ht)
  below := UInt16.le_trans h.below hm
  unwrapped := h.unwrapped

/-- A visit takes a position from the work, passes its checks, and enters the positions it
hands on. It uses up what is left to visit by one, and may raise the greatest depth. -/
theorem Visits.entered {c : VerifyContext} (hc : c.Formed) {w w' : Walk} (hw : Sound c w)
    (h : Visits c w w') :
    ∃ front back pos d i p q l, w.work = front ++ pos :: back ∧ w.depth? pos = some d ∧
      Checked c pos d i p q l ∧
        Entered (({ w with work := front ++ back } : Walk).raise (d - p + q)) l w' ∧
        w'.unreached + w'.work.length + 1 = w.unreached + w.work.length ∧
        w'.maxStack = max w.maxStack (d - p + q) := by
  obtain @⟨front, back, pos, hwork, hv⟩ := h
  obtain ⟨d, hd⟩ := hw.waiting pos (by rw [hwork]; simp)
  obtain ⟨i, p, q, l, hck, he⟩ :=
    (visit_eq_ok_iff (w := { w with work := front ++ back }) hw.size hd).1 hv
  have hE := entered_of_enterAll (fun t ht => hw.size ▸ hck.passes.lt hc t ht) he
  have hleft : w'.unreached + w'.work.length = w.unreached + (front ++ back).length := hE.left
  refine ⟨front, back, pos, d, i, p, q, l, hwork, hd, hck, hE, ?_, hE.maxStack⟩
  rw [hleft, hwork]
  simp only [List.length_append, List.length_cons]
  omega

/-- A visit keeps the invariant. -/
theorem sound_visits {c : VerifyContext} (hc : c.Formed) {w w' : Walk} (hw : Sound c w)
    (h : Visits c w w') : Sound c w' := by
  obtain ⟨front, back, pos, d, i, p, q, l, hwork, hd, hck, hE, hleft, hmax⟩ := h.entered hc hw
  have mem_work {q : Nat} : q ∈ w.work ↔ q = pos ∨ q ∈ front ++ back := by
    rw [hwork]
    simp only [List.mem_append, List.mem_cons]
    exact or_left_comm
  have hraise : w.maxStack ≤ w'.maxStack := by
    rw [UInt16.le_iff_toNat_le, hmax, toNat_max]
    omega
  have hafter : d - p + q ≤ w'.maxStack := by
    rw [UInt16.le_iff_toNat_le, hmax, toNat_max]
    omega
  have hroom := hw.room pos d hd
  have hle := toNat_after_le (q := q) hck.enough
  have hpq := pushes_le hck.effect
  have hpd := UInt16.le_iff_toNat_le.1 hck.enough
  refine ⟨hE.size.trans hw.size, ?_, ?_, ?_, ?_, ?_, ?_, ?_, ?_⟩
  · intro q' hq'
    rcases hE.waiting q' hq' with hq' | ⟨e, he⟩
    · obtain ⟨e, he⟩ := hw.waiting q' (mem_work.2 (.inr hq'))
      exact ⟨e, hE.keeps _ _ he⟩
    · exact ⟨e, hE.entered _ he⟩
  · intro q' e hqe hn
    rcases hE.fresh q' e hqe with hold | ⟨-, hm⟩
    · by_cases hq : q' ∈ w.work
      · rcases mem_work.1 hq with rfl | hq
        · obtain rfl : d = e := Option.some.inj (hd.symm.trans hold)
          refine ⟨i, p, q, l, hck, hE.entered, hafter, fun hs => toNat_after hck.enough ?_⟩
          omega
        · exact absurd (hE.waits q' hq) hn
      · obtain ⟨i', p', q'', l', hs⟩ := hw.settled q' e hold hq
        exact ⟨i', p', q'', l', hs.mono hE.keeps hraise⟩
    · exact absurd hm hn
  · intro q' e hqe
    rcases hE.fresh q' e hqe with hold | ⟨hm, -⟩
    · exact hw.reached q' e hold
    · exact .edge (hw.reached pos d hd) hck.code (hck.passes.edge _ hm)
  · intro t ht
    exact hE.keeps _ _ (hw.entries t ht)
  · intro q' e hqe
    rcases hE.fresh q' e hqe with hold | ⟨hm, -⟩
    · have := hw.room q' e hold
      omega
    · have : e.toNat ≤ _ := UInt16.le_iff_toNat_le.1 (hck.passes.le _ hm)
      omega
  · intro q' e hqe
    rcases hE.fresh q' e hqe with hold | ⟨hm, -⟩
    · exact UInt16.le_trans (hw.below q' e hold) hraise
    · exact UInt16.le_trans (hck.passes.le _ hm) hafter
  · intro hr
    exact UInt16.le_trans (hw.handled hr) hraise
  · have hcase : w'.maxStack = w.maxStack ∨ w'.maxStack = d - p + q := by
      rw [← UInt16.toNat_inj, ← UInt16.toNat_inj, hmax, toNat_max]
      omega
    rcases hcase with hm | hm
    · rw [Attained, hm]
      rcases hw.attained with h0 | h1 | ⟨q', e, i', p', q'', l', he, hs, hm'⟩
      · exact .inl h0
      · exact .inr (.inl h1)
      · exact .inr (.inr ⟨q', e, i', p', q'', l', hE.keeps _ _ he, hs, hm'⟩)
    · exact .inr (.inr ⟨pos, d, i, p, q, l, hE.keeps _ _ hd, hck, hm⟩)

/-- The invariant holds however a walk ends, and then nothing waits. -/
theorem sound_of_ends {c : VerifyContext} (hc : c.Formed) {w w' : Walk} (hw : Sound c w)
    (h : Ends c w (.ok w')) : Sound c w' ∧ w'.work = [] := by
  generalize hr : (Except.ok w' : Except CodeError Walk) = r at h
  induction h with
  | finished h => cases hr; exact ⟨hw, h⟩
  | failed => cases hr
  | visits hv _ ih => exact ih (sound_visits hc hw hv) hr

end Walk

/-! ## The verifier -/

/-- The context in which the verifier walks over a body with these regions. -/
def VerifyContext.of (m : Method) (b : Body) (imports : ImportTable) (rs : List Region) :
    VerifyContext :=
  ⟨m, b, imports, b.code.toArray, rs⟩

theorem verifyWalk_eq_ok_iff {m : Method} {b : Body} {imports : ImportTable} {w : Walk} :
    verifyWalk m b imports = .ok w ↔
      ∃ rs, (VerifyContext.of m b imports rs).Formed ∧
        ∃ w₀, Walk.start (.of m b imports rs) = .ok w₀ ∧
          Walk.run (.of m b imports rs) w₀ = .ok w := by
  unfold verifyWalk
  constructor
  · intro h
    split at h
    · cases h
    · next hne =>
      obtain ⟨rs, hrs, h⟩ := bind_eq_ok.1 h
      obtain ⟨w₀, hs, h⟩ := bind_eq_ok.1 h
      rw [List.isEmpty_iff] at hne
      exact ⟨rs, ⟨hne, rfl, hrs⟩, w₀, hs, h⟩
  · rintro ⟨rs, ⟨hne, -, hrs⟩, w₀, hs, h⟩
    have hempty : ¬ b.stream.isEmpty = true := by
      rw [List.isEmpty_iff]
      exact hne
    rw [if_neg hempty]
    exact bind_eq_ok.2 ⟨rs, hrs, bind_eq_ok.2 ⟨w₀, hs, h⟩⟩

theorem verifyBody_eq_ok_iff {m : Method} {b : Body} {imports : ImportTable} {k : UInt16} :
    verifyBody m b imports = .ok k ↔ ∃ w, verifyWalk m b imports = .ok w ∧ w.maxStack = k := by
  unfold verifyBody
  simp only [bind_eq_ok, pure_eq_ok]

/-- The invariant holds where the verifier's walk ends. -/
theorem sound_of_verifyWalk {m : Method} {b : Body} {imports : ImportTable} {w : Walk}
    (h : verifyWalk m b imports = .ok w) :
    ∃ rs, (VerifyContext.of m b imports rs).Formed ∧ Walk.Sound (.of m b imports rs) w ∧
      w.work = [] := by
  obtain ⟨rs, hc, w₀, hs, hr⟩ := verifyWalk_eq_ok_iff.1 h
  exact ⟨rs, hc, Walk.sound_of_ends hc (Walk.sound_start hc hs) (hr ▸ Walk.ends_run _ w₀)⟩

end Interpose
