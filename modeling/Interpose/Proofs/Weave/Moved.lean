import Interpose.Proofs.Verify.Effect
import Interpose.Proofs.Verify.Invariant
import Interpose.Proofs.Weave.Geometry
import Interpose.Proofs.Weave.Resolve
/-!
# A woven body under the verifier

What the verifier looks up in a body, it finds in the woven form at the shifted place: the
same instruction unless it returned, the same targets, the same handlers around it. So what
control reached it still reaches.

Results:
* `checked_shift`: an instruction that stays passes the same checks.
* `reaches_shift`: what was reachable is reachable at its new place.
* `not_inRegion_exit`: the code of the exit is in no region.
-/
namespace Interpose

theorem Opcode.eq_ret_of_flow {op : Opcode} (h : op.flow = .ret) : op = .ret := by
  cases op <;> first | rfl | cases h

/-- No edge leads out of a return. -/
theorem VerifyContext.Edge.ne_ret {c : VerifyContext} {p t : Nat} {i : Instruction}
    (h : c.Edge p i t) : i.opcode ≠ .ret := by
  intro hr
  cases h with
  | next hf =>
    rw [hr] at hf
    rcases hf with hf | hf <;> cases hf
  | target hf =>
    rw [hr] at hf
    rcases hf with hf | hf | hf <;> cases hf

/-! ## More slots and more imports -/

section

variable {m : Method} {b b' : Body} {imports imports' : ImportTable} {i : Instruction}

theorem checkOperand_mono (hl : b.locals.size ≤ b'.locals.size) (he : imports'.Extends imports)
    (h : checkOperand m b imports i = .ok ()) : checkOperand m b' imports' i = .ok () := by
  obtain ⟨hkind, hargument, hslot, hmember⟩ := checkOperand_eq_ok_iff.1 h
  exact checkOperand_eq_ok_iff.2 ⟨hkind, hargument,
    fun id ho => Nat.lt_of_lt_of_le (hslot id ho) hl,
    fun id ho => Nat.lt_of_lt_of_le (hmember id ho) he.size_le⟩

theorem stackEffect_mono (he : imports'.Extends imports) {p q : UInt16}
    (h : stackEffect m imports i = .ok (p, q)) : stackEffect m imports' i = .ok (p, q) := by
  unfold stackEffect at h ⊢
  split
  · next hfixed =>
    rw [hfixed] at h
    exact h
  · next hfixed =>
    rw [hfixed] at h
    dsimp only at h
    split
    · next hret =>
      rw [if_pos hret] at h
      exact h
    · next hret =>
      rw [if_neg hret] at h
      split at h
      · cases h
      · next id hid =>
        split at h
        · cases h
        · next r hr =>
          simp only [he.get? hr]
          exact h

end

/-- The context `c'` is that of the woven form of the body of `c`. -/
structure Layout.Moves (L : Layout) (c c' : VerifyContext) : Prop where
  formed : c.Formed
  woven : c'.Formed
  body : c.body = L.body
  describes : L.Describes c'.body
  method : c'.method = c.method
  imports : c'.imports.Extends c.imports
  regions : c'.regions = c.regions.map (·.shift L.shift) ++ [L.region]
  straight : Straight L.prologue

namespace Layout

variable {L : Layout} {c c' : VerifyContext}

theorem moves_of_describes {m : Method} {woven : Body} {imports imports' : ImportTable}
    {rs : List Region} (hc : (VerifyContext.of m L.body imports rs).Formed)
    (hd : L.Describes woven) (he : imports'.Extends imports) (hs : Straight L.prologue) :
    L.Moves (.of m L.body imports rs)
      (.of m woven imports' (rs.map (·.shift L.shift) ++ [L.region])) where
  formed := hc
  woven := by
    refine ⟨?_, rfl, hd.regions_of_describes hc.regions⟩
    show woven.stream ≠ []
    rw [hd.stream]
    exact List.cons_ne_nil _ _
  body := rfl
  describes := hd
  method := rfl
  imports := he
  regions := rfl
  straight := hs

namespace Moves

variable (h : L.Moves c c') {p t : Nat} {i : Instruction}
include h

theorem code_eq (p : Nat) : c.code[p]? = L.body.code[p]? := by
  rw [h.formed.code, List.getElem?_toArray, h.body]

theorem codeAt {pos : Nat} {run : List Instruction} (hat : CodeAt c'.body.code pos run) :
    CodeAt c'.code.toList pos run := by
  rw [h.woven.code]
  exact hat

theorem lt_size (hi : c.code[p]? = some i) : p < L.body.size := by
  rw [← h.body, ← h.formed.size]
  exact (Array.getElem?_eq_some_iff.1 hi).1

theorem exists_entry (hi : c.code[p]? = some i) : ∃ id, L.body.stream[p]? = some (id, i) := by
  rw [h.code_eq, Body.code, List.getElem?_map] at hi
  obtain ⟨⟨id, j⟩, hs, rfl⟩ := Option.map_eq_some_iff.1 hi
  exact ⟨id, hs⟩

theorem code_shift (hi : c.code[p]? = some i) (hr : i.opcode ≠ .ret) :
    c'.code[L.shift p]? = some i := by
  obtain ⟨id, hs⟩ := h.exists_entry hi
  rw [h.woven.code, List.getElem?_toArray]
  exact (h.describes.shift hs).2.1 hr

theorem codeAt_return (hi : c.code[p]? = some i) (hr : i.opcode = .ret) :
    CodeAt c'.code.toList (L.shift p)
      ((L.result?.map Instruction.stloc).toList ++ [.leave L.exit]) := by
  obtain ⟨id, hs⟩ := h.exists_entry hi
  exact h.codeAt ((h.describes.shift hs).2.2 hr)

theorem shift_next (hi : c.code[p]? = some i) (hr : i.opcode ≠ .ret) :
    L.shift (p + 1) = L.shift p + 1 := by
  rw [L.shift_succ (h.code_eq p ▸ hi), L.growth_of_ne_ret hr]

theorem shift_lt_size (hp : p ≤ L.body.size) : L.shift p < c'.code.size := by
  have hend := (List.getElem?_eq_some_iff.1 h.describes.code_fallthrough).1
  have hle := L.monotone_shift.le_iff.2 hp
  rw [h.woven.code, List.size_toArray]
  omega

theorem target?_shift (ht : c.target? i = some t) : c'.target? i = some (L.shift t) := by
  unfold VerifyContext.target? at ht ⊢
  obtain ⟨id, hid, hp⟩ := Option.bind_eq_some_iff.1 ht
  rw [h.body] at hp
  exact Option.bind_eq_some_iff.2 ⟨id, hid, h.describes.position?_shift hp⟩

theorem target?_exit : c'.target? (.leave L.exit) = some L.exitPos :=
  h.describes.position?_exit

/-! ## Regions -/

theorem inHandler_shift (hp : c.InHandler p) : c'.InHandler (L.shift p) := by
  obtain ⟨r, hr, hcontains⟩ := hp
  refine ⟨r.shift L.shift, ?_, ?_⟩
  · rw [h.regions]
    exact List.mem_append_left _ (List.mem_map_of_mem hr)
  · rw [← hcontains]
    exact contains_shift L.monotone_shift r.handlerRange p

theorem inHandler_rethrow : c'.InHandler L.rethrowPos := by
  refine ⟨L.region, ?_, ?_⟩
  · rw [h.regions]
    exact List.mem_append_right _ (List.mem_singleton.2 rfl)
  · rw [mem_span_iff]
    simp only [region, rethrowPos, exitPos]
    omega

/-- No region holds a position behind the handler of the guard. -/
theorem not_inRegion_exit {pos : Nat} (hpos : L.exitPos ≤ pos) : ¬ c'.InRegion pos := by
  rintro ⟨r, hr, hcontains⟩
  rw [h.regions] at hr
  have hexit : L.exitPos = L.shift L.body.size + 4 + L.guard.onException.length := rfl
  rcases List.mem_append.1 hr with hr | hr
  · obtain ⟨r₀, hr₀, rfl⟩ := List.mem_map.1 hr
    obtain ⟨x, -, hx⟩ := Body.exists_handler_of_regionsOf h.formed.regions hr₀
    obtain ⟨-, htry, hhandler⟩ := Body.region_eq_ok.1 hx
    have htry := L.monotone_shift.le_iff.2 (h.body ▸ Body.stop_le_of_span htry)
    have hhandler := L.monotone_shift.le_iff.2 (h.body ▸ Body.stop_le_of_span hhandler)
    rcases hcontains with hin | hin
    · rw [mem_span_iff] at hin
      simp only [Region.shift, Span.shift] at hin
      omega
    · rw [mem_span_iff] at hin
      simp only [Region.shift, Span.shift] at hin
      omega
  · obtain rfl := List.mem_singleton.1 hr
    rcases hcontains with hin | hin
    · rw [mem_span_iff] at hin
      simp only [region] at hin
      omega
    · rw [mem_span_iff] at hin
      simp only [region] at hin
      omega

/-! ## Edges -/

theorem edge_shift (hi : c.code[p]? = some i) (he : c.Edge p i t) :
    c'.Edge (L.shift p) i (L.shift t) := by
  cases he with
  | next hf =>
    rw [h.shift_next hi (VerifyContext.Edge.ne_ret (.next hf : c.Edge p i (p + 1)))]
    exact .next hf
  | target hf ht => exact .target hf (h.target?_shift ht)

/-- An instruction that stays hands on the same depths, to the shifted positions. -/
theorem passes_shift {after : UInt16} {l : List (Nat × UInt16)} (hi : c.code[p]? = some i)
    (hr : i.opcode ≠ .ret) (hl : Walk.Passes c p i after l) :
    Walk.Passes c' (L.shift p) i after (l.map fun t => (L.shift t.1, t.2)) := by
  have hnext : p + 1 < c.code.size → L.shift p + 1 < c'.code.size := by
    intro hlt
    rw [h.formed.size, h.body] at hlt
    rw [← h.shift_next hi hr]
    exact h.shift_lt_size (Nat.le_of_lt hlt)
  have hto : ((p + 1, after) :: []).map (fun t => (L.shift t.1, t.2)) =
      [(L.shift p + 1, after)] := by
    simp only [List.map_cons, List.map_nil, h.shift_next hi hr]
  cases hl with
  | next hf hlt =>
    rw [hto]
    exact .next hf (hnext hlt)
  | branch hf ht => exact .branch hf (h.target?_shift ht)
  | condBranch hf ht hlt =>
    rw [List.map_cons, hto]
    exact .condBranch hf (h.target?_shift ht) (hnext hlt)
  | leave hf ht => exact .leave hf (h.target?_shift ht)
  | ret hf => exact absurd (Opcode.eq_ret_of_flow hf) hr
  | throw hf hh => exact .throw hf fun ho => h.inHandler_shift (hh ho)

/-- An instruction that stays passes the same checks in the woven body. -/
theorem checked_shift {d a b : UInt16} {l : List (Nat × UInt16)}
    (hck : Walk.Checked c p d i a b l) (hr : i.opcode ≠ .ret) :
    Walk.Checked c' (L.shift p) d i a b (l.map fun t => (L.shift t.1, t.2)) where
  code := h.code_shift hck.code hr
  operand := by
    have hlocals : c.body.locals.size ≤ c'.body.locals.size := by
      rw [h.body, h.describes.size_locals]
      exact Nat.le_add_right _ _
    rw [h.method]
    exact checkOperand_mono hlocals h.imports hck.operand
  effect := by
    rw [h.method]
    exact stackEffect_mono h.imports hck.effect
  enough := hck.enough
  passes := h.passes_shift hck.code hr hck.passes

/-! ## Reachable positions -/

omit h in
/-- Control goes through straight code. -/
theorem reaches_of_straight {run : List Instruction} {pos : Nat} (hp : c'.Reaches pos)
    (hat : CodeAt c'.code.toList pos run) (hrun : Straight run) :
    c'.Reaches (pos + run.length) := by
  induction run generalizing pos with
  | nil => exact hp
  | cons i rest ih =>
    have hnext : c'.Reaches (pos + 1) :=
      .edge hp hat.fetch (.next (.inl (hrun i List.mem_cons_self)))
    rw [List.length_cons, Nat.add_comm rest.length, ← Nat.add_assoc]
    exact ih hnext hat.tail fun j hj => hrun j (List.mem_cons_of_mem _ hj)

theorem codeAt_front : CodeAt c'.code.toList 0 (.plain .nop :: L.prologue) := by
  refine h.codeAt fun k i hi => ?_
  cases k with
  | zero =>
    cases hi
    exact h.describes.anchor.2
  | succ k =>
    rw [Nat.zero_add, Nat.add_comm k 1]
    exact h.describes.prologue k i hi

/-- What control reached, it still reaches. -/
theorem reaches_shift (hp : c.Reaches p) : c'.Reaches (L.shift p) := by
  induction hp with
  | @entry t ht =>
    rcases List.mem_cons.1 ht with rfl | ht
    · have hstart : c'.Reaches 0 := .entry (t := (0, 0)) List.mem_cons_self
      have hfront := reaches_of_straight hstart h.codeAt_front (.cons rfl h.straight)
      rw [Nat.zero_add, List.length_cons, Nat.add_comm, ← L.length_front, ← L.shift_zero] at hfront
      exact hfront
    · obtain ⟨r, hr, rfl⟩ := List.mem_map.1 ht
      refine .entry (t := (L.shift r.handlerRange.start, 1)) (List.mem_cons_of_mem _ ?_)
      rw [h.regions, List.map_append]
      exact List.mem_append_left _ (List.mem_map.2 ⟨_, List.mem_map_of_mem hr, rfl⟩)
  | edge hp hi he ih => exact .edge ih (h.code_shift hi he.ne_ret) (h.edge_shift hi he)

end Moves

end Layout

end Interpose
