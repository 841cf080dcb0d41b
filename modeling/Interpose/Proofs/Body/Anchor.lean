import Interpose.Body.Region
import Interpose.Proofs.Except
/-!
# Positions of anchors

Where the ids that a handler or a branch names stand in the order of execution.

Results:
* `anchor_eq_ok`, `region_eq_ok`: when anchors are found, and what they give.
* `anchored_iff`: a body has regions iff its handlers' anchors belong to it.
* `exists_handler_of_regionsOf`: each region comes from a handler.
-/
namespace Interpose

namespace Body

theorem anchor_eq_ok {b : Body} {id : InstructionId} {pos : Nat} :
    b.anchor id = .ok pos ↔ b.position? id = some pos := by
  unfold anchor
  cases b.position? id with
  | none => simp
  | some p => simp

/-- No id occurs twice, so a position is the only one of its id. -/
theorem position?_eq_some_iff {b : Body} {id : InstructionId} {pos : Nat} :
    b.position? id = some pos ↔ b.ids[pos]? = some id := by
  rw [position?, List.idxOf?, List.findIdx?_eq_some_iff_getElem]
  refine ⟨fun ⟨hlt, hid, _⟩ => ?_, fun h => ?_⟩
  · rw [List.getElem?_eq_getElem hlt, eq_of_beq hid]
  · obtain ⟨hlt, hid⟩ := List.getElem?_eq_some_iff.1 h
    refine ⟨hlt, by rw [hid, beq_self_eq_true], fun j hj he => ?_⟩
    have hne := List.pairwise_iff_getElem.1 b.nodup_ids j pos (Nat.lt_trans hj hlt) hlt hj
    exact hne ((eq_of_beq he).trans hid.symm)

/-- A position holds an id and an instruction. -/
theorem stream_getElem? {b : Body} {id : InstructionId} {pos : Nat} {i : Instruction} :
    b.stream[pos]? = some (id, i) ↔ b.position? id = some pos ∧ b.code[pos]? = some i := by
  rw [position?_eq_some_iff, ids, code, List.getElem?_map, List.getElem?_map]
  cases b.stream[pos]? with
  | none => simp
  | some p => simp [Prod.ext_iff]

theorem lt_of_anchor {b : Body} {id : InstructionId} {pos : Nat}
    (h : b.anchor id = .ok pos) : pos < b.size := by
  have h := anchor_eq_ok.1 h
  rw [position?, List.idxOf?, List.findIdx?_eq_some_iff_getElem] at h
  obtain ⟨hlt, -⟩ := h
  simpa [ids, size] using hlt

theorem start_lt_of_span {b : Body} {start : InstructionId} {stop? : Option InstructionId}
    {s : Span} (h : b.span start stop? = .ok s) : s.start < b.size := by
  obtain ⟨pos, hpos, h⟩ := bind_eq_ok.1 h
  cases stop? with
  | none => cases h; exact lt_of_anchor hpos
  | some id =>
    obtain ⟨stop, -, h⟩ := bind_eq_ok.1 h
    cases h
    exact lt_of_anchor hpos

theorem stop_le_of_span {b : Body} {start : InstructionId} {stop? : Option InstructionId}
    {s : Span} (h : b.span start stop? = .ok s) : s.stop ≤ b.size := by
  obtain ⟨pos, hpos, h⟩ := bind_eq_ok.1 h
  cases stop? with
  | none => cases h; exact Nat.le_refl _
  | some id =>
    obtain ⟨stop, hstop, h⟩ := bind_eq_ok.1 h
    cases h
    exact Nat.le_of_lt (lt_of_anchor hstop)

theorem region_eq_ok {b : Body} {h : Handler} {r : Region} :
    b.region h = .ok r ↔ r.kind = h.kind ∧ b.span h.tryStart h.tryEnd? = .ok r.tryRange ∧
      b.span h.handlerStart h.handlerEnd? = .ok r.handlerRange := by
  simp only [region, bind_eq_ok, pure_eq_ok]
  constructor
  · rintro ⟨t, ht, s, hs, rfl⟩
    exact ⟨rfl, ht, hs⟩
  · rintro ⟨hk, ht, hs⟩
    refine ⟨_, ht, _, hs, ?_⟩
    rw [← hk]

theorem exists_handler_of_regionsOf {b : Body} {hs : List Handler} {rs : List Region}
    (h : b.regionsOf hs = .ok rs) {r : Region} (hr : r ∈ rs) :
    ∃ x ∈ hs, b.region x = .ok r := by
  induction hs generalizing rs with
  | nil => cases h; cases hr
  | cons x rest ih =>
    obtain ⟨r', hx, h⟩ := bind_eq_ok.1 h
    obtain ⟨rs', hrest, h⟩ := bind_eq_ok.1 h
    cases h
    rcases List.mem_cons.1 hr with rfl | hr
    · exact ⟨x, List.mem_cons_self, hx⟩
    · obtain ⟨y, hy, hyr⟩ := ih hrest hr
      exact ⟨y, List.mem_cons_of_mem _ hy, hyr⟩

/-- Every anchor of a handler belongs to the body. -/
def Anchored (b : Body) : Prop :=
  ∀ h ∈ b.handlers, h.tryStart ∈ b.ids ∧ (∀ id, h.tryEnd? = some id → id ∈ b.ids) ∧
    h.handlerStart ∈ b.ids ∧ ∀ id, h.handlerEnd? = some id → id ∈ b.ids

theorem anchor_isOk {b : Body} {id : InstructionId} :
    (∃ pos, b.anchor id = .ok pos) ↔ id ∈ b.ids := by
  simp only [anchor_eq_ok, position?]
  rw [← Option.isSome_iff_exists]
  simp [List.idxOf?]

theorem span_isOk {b : Body} {start : InstructionId} {stop? : Option InstructionId} :
    (∃ s, b.span start stop? = .ok s) ↔
      start ∈ b.ids ∧ ∀ id, stop? = some id → id ∈ b.ids := by
  constructor
  · rintro ⟨s, h⟩
    obtain ⟨pos, hpos, h⟩ := bind_eq_ok.1 h
    refine ⟨anchor_isOk.1 ⟨pos, hpos⟩, ?_⟩
    rintro id rfl
    obtain ⟨stop, hstop, -⟩ := bind_eq_ok.1 h
    exact anchor_isOk.1 ⟨stop, hstop⟩
  · rintro ⟨hs, he⟩
    obtain ⟨pos, hpos⟩ := anchor_isOk.2 hs
    cases stop? with
    | none => exact ⟨_, bind_eq_ok.2 ⟨pos, hpos, rfl⟩⟩
    | some id =>
      obtain ⟨stop, hstop⟩ := anchor_isOk.2 (he id rfl)
      exact ⟨_, bind_eq_ok.2 ⟨pos, hpos, bind_eq_ok.2 ⟨stop, hstop, rfl⟩⟩⟩

theorem regionsOf_isOk {b : Body} {hs : List Handler} :
    (∃ rs, b.regionsOf hs = .ok rs) ↔ ∀ h ∈ hs, ∃ r, b.region h = .ok r := by
  induction hs with
  | nil => exact ⟨fun _ h hm => absurd hm List.not_mem_nil, fun _ => ⟨[], rfl⟩⟩
  | cons x rest ih =>
    constructor
    · rintro ⟨rs, h⟩
      obtain ⟨r, hx, h⟩ := bind_eq_ok.1 h
      obtain ⟨rs', hrest, -⟩ := bind_eq_ok.1 h
      intro y hy
      rcases List.mem_cons.1 hy with rfl | hy
      · exact ⟨r, hx⟩
      · exact ih.1 ⟨rs', hrest⟩ y hy
    · intro h
      obtain ⟨r, hx⟩ := h x List.mem_cons_self
      obtain ⟨rs, hrest⟩ := ih.2 fun y hy => h y (List.mem_cons_of_mem _ hy)
      exact ⟨r :: rs, bind_eq_ok.2 ⟨r, hx, bind_eq_ok.2 ⟨rs, hrest, rfl⟩⟩⟩

theorem region_isOk {b : Body} {h : Handler} :
    (∃ r, b.region h = .ok r) ↔
      (∃ s, b.span h.tryStart h.tryEnd? = .ok s) ∧
        ∃ s, b.span h.handlerStart h.handlerEnd? = .ok s := by
  constructor
  · rintro ⟨r, hr⟩
    obtain ⟨-, ht, hs⟩ := region_eq_ok.1 hr
    exact ⟨⟨_, ht⟩, ⟨_, hs⟩⟩
  · rintro ⟨⟨t, ht⟩, ⟨s, hs⟩⟩
    exact ⟨⟨h.kind, t, s⟩, region_eq_ok.2 ⟨rfl, ht, hs⟩⟩

theorem anchored_iff {b : Body} : b.Anchored ↔ ∃ rs, b.regions = .ok rs := by
  unfold Anchored regions
  rw [regionsOf_isOk]
  simp only [region_isOk, span_isOk, and_assoc]

end Body

end Interpose
