import Interpose.Proofs.Weave.Weavable
/-!
# What regions cover in a woven method

Weaving moves the instructions of a body apart: a prologue goes before the first, a leave
behind what was a return, the guard's own code to the end. The regions are told by ids and so
move along. Each covers the original instructions that it covered before, and the leave behind
a return if it covers the return; what was put before and behind the original code is outside.
That holds for every region whose anchors belong to the body, also for one that is open, empty
or upside down, since all that is used of a range is where it starts and where it stops.

Results:
* `contains_of_between`: what stands in the place of a position is in the moved range iff the
  position was in the range.
* `Describes.origin`: where each instruction of a woven body comes from.
* `Describes.carries`: what a range covers in a woven body.
* `instrument_coverage`: what the regions of a woven method cover.
-/
namespace Interpose

/-- Does an instruction with this id stand in the range? -/
def Body.Covers (b : Body) (s : Span) (id : InstructionId) : Prop :=
  ∃ pos, b.position? id = some pos ∧ s.contains pos = true

theorem Body.covers_iff {b : Body} {s : Span} {id : InstructionId} {pos : Nat}
    (h : b.position? id = some pos) : b.Covers s id ↔ s.contains pos = true := by
  refine ⟨fun ⟨pos', h', hc⟩ => ?_, fun hc => ⟨pos, h, hc⟩⟩
  rw [h] at h'
  obtain rfl := Option.some.inj h'
  exact hc

/-- A handler whose anchors belong to the body has its ranges there. -/
theorem Body.exists_region {b : Body} {x : Handler} (h : ∀ id ∈ x.anchors, id ∈ b.ids) :
    ∃ r, b.region x = .ok r := by
  simp only [Handler.anchors, List.mem_cons, List.mem_append, Option.mem_toList] at h
  refine region_isOk.2 ⟨span_isOk.2 ⟨h _ (.inl rfl), fun id hid => ?_⟩,
    span_isOk.2 ⟨h _ (.inr (.inr (.inl rfl))), fun id hid => ?_⟩⟩
  · exact h id (.inr (.inl hid))
  · exact h id (.inr (.inr (.inr hid)))

/-- A range that is moved takes along what stands in the place of its positions. -/
theorem contains_of_between {f : Nat → Nat} (h : Monotone f) (s : Span) {p q : Nat}
    (hp : f p ≤ q) (hq : q < f (p + 1)) : (s.shift f).contains q = s.contains p := by
  have hstart : f s.start ≤ q ↔ s.start ≤ p := by
    refine ⟨fun hle => ?_, fun hle => Nat.le_trans (h.le_iff.2 hle) hp⟩
    exact Nat.lt_succ_iff.1 (h.lt_iff.1 (Nat.lt_of_le_of_lt hle hq))
  have hstop : q < f s.stop ↔ p < s.stop := by
    refine ⟨fun hlt => h.lt_iff.1 (Nat.lt_of_le_of_lt hp hlt), fun hlt => ?_⟩
    exact Nat.lt_of_lt_of_le hq (h.le_iff.2 hlt)
  simp only [Span.contains, Span.shift, hstart, hstop]

namespace Layout

variable {L : Layout} {woven : Body}

/-- The leave `leave` was inserted behind what was the return `ret`. -/
structure Leaves (L : Layout) (woven : Body) (ret leave : InstructionId) : Prop where
  result : L.result?.isSome = true
  returned : ret ∈ L.body.returns
  fresh : leave ∉ L.body.ids
  beside : ∃ pos, woven.position? ret = some pos ∧ woven.position? leave = some (pos + 1) ∧
    woven.code[pos + 1]? = some (.leave L.exit)

/-- A range of the woven body covers what the other one covered in the original one, with the
inserted leaves, and nothing that was put before or behind that. -/
structure Carries (L : Layout) (woven : Body) (s s' : Span) : Prop where
  original : ∀ id ∈ L.body.ids, (woven.Covers s' id ↔ L.body.Covers s id)
  leaves : ∀ ret leave, L.Leaves woven ret leave → (woven.Covers s' leave ↔ L.body.Covers s ret)
  added : ∀ id ∈ (L.front ++ L.back).map (·.1), ¬ woven.Covers s' id

/-- The regions of a woven body. -/
structure Sheltered (L : Layout) (woven : Body) : Prop where
  stream : woven.stream = L.stream
  handlers : woven.handlers = L.body.handlers.map (·.close L.fallthrough) ++ [L.handler]
  origin : ∀ id ∈ woven.ids, id ∈ L.body.ids ∨ (∃ ret, L.Leaves woven ret id) ∨
    id ∈ (L.front ++ L.back).map (·.1)
  leaves : L.result?.isSome = true → ∀ ret ∈ L.body.returns, ∃ leave, L.Leaves woven ret leave
  regions : ∀ x ∈ L.body.handlers, (∀ id ∈ x.anchors, id ∈ L.body.ids) →
    ∃ r r', L.body.region x = .ok r ∧ woven.region (x.close L.fallthrough) = .ok r' ∧
      r'.kind = r.kind ∧ L.Carries woven r.tryRange r'.tryRange ∧
      L.Carries woven r.handlerRange r'.handlerRange
  guard : woven.region L.handler = .ok L.region
  guarded : ∀ id, woven.Covers L.region.tryRange id ↔
    id ∈ (L.front ++ L.middle).map (·.1) ∨ id = L.fallthrough

namespace Describes

variable (h : L.Describes woven)

include h

theorem exists_position {id : InstructionId} (hid : id ∈ L.body.ids) :
    ∃ p, L.body.position? id = some p ∧ woven.position? id = some (L.shift p) := by
  obtain ⟨p, hp⟩ := Body.anchor_isOk.2 hid
  have hp := Body.anchor_eq_ok.1 hp
  exact ⟨p, hp, h.position?_shift hp⟩

theorem covers_shift (s : Span) {id : InstructionId} (hid : id ∈ L.body.ids) :
    woven.Covers (s.shift L.shift) id ↔ L.body.Covers s id := by
  obtain ⟨p, hp, hp'⟩ := h.exists_position hid
  rw [Body.covers_iff hp, Body.covers_iff hp', contains_shift L.monotone_shift]

omit h in
theorem exists_return {ret : InstructionId} (hret : ret ∈ L.body.returns) :
    ∃ (p : Nat) (i : Instruction), L.body.stream[p]? = some (ret, i) ∧ i.opcode = .ret := by
  obtain ⟨x, hx, rfl⟩ := List.mem_map.1 hret
  obtain ⟨hmem, hop⟩ := List.mem_filter.1 hx
  obtain ⟨p, hlt, hp⟩ := List.getElem_of_mem hmem
  exact ⟨p, x.2, by rw [List.getElem?_eq_getElem hlt, hp], eq_of_beq hop⟩

omit h in
/-- A return that keeps its value makes room for a leave. -/
theorem shift_return (hresult : L.result?.isSome = true) {p : Nat} {id : InstructionId}
    {i : Instruction} (hs : L.body.stream[p]? = some (id, i)) (hop : i.opcode = .ret) :
    L.shift (p + 1) = L.shift p + 2 := by
  have hcode := (Body.stream_getElem?.1 hs).2
  rw [L.shift_succ hcode, growth, if_pos hop, if_pos hresult]

/-- Behind what was a return stands a leave that has an id of its own. -/
theorem exists_leaves (hresult : L.result?.isSome = true) {p : Nat} {ret : InstructionId}
    {i : Instruction} (hs : L.body.stream[p]? = some (ret, i)) (hop : i.opcode = .ret) :
    ∃ leave, L.Leaves woven ret leave ∧ woven.position? leave = some (L.shift p + 1) := by
  obtain ⟨slot, hslot⟩ := Option.isSome_iff_exists.1 hresult
  obtain ⟨hposition, -, hcode⟩ := h.shift hs
  have hat := hcode hop
  rw [hslot] at hat
  have hleave : woven.code[L.shift p + 1]? = some (.leave L.exit) := hat.tail.head
  obtain ⟨⟨leave, j⟩, hentry⟩ : ∃ x, woven.stream[L.shift p + 1]? = some x := by
    rw [Body.code, List.getElem?_map] at hleave
    exact (Option.map_eq_some_iff.1 hleave).imp fun _ hx => hx.1
  have hbeside := (Body.stream_getElem?.1 hentry).1
  have hret : ret ∈ L.body.returns :=
    List.mem_map.2 ⟨(ret, i), List.mem_filter.2 ⟨List.mem_of_getElem? hs, by simp [hop]⟩, rfl⟩
  refine ⟨leave, ⟨hresult, hret, fun hold => ?_, _, hposition, hbeside, hleave⟩, hbeside⟩
  -- no original instruction stands between the places of two neighbours
  obtain ⟨q, -, hq⟩ := h.exists_position hold
  have hq : L.shift q = L.shift p + 1 := Option.some.inj (hq.symm.trans hbeside)
  have hnext := shift_return hresult hs hop
  have hpq : p < q := L.monotone_shift.lt_iff.1 (by omega)
  have hqp : q < p + 1 := L.monotone_shift.lt_iff.1 (by omega)
  omega

theorem exists_entry {id : InstructionId} (hid : id ∈ woven.ids) :
    ∃ (pos : Nat) (i : Instruction), L.stream[pos]? = some (id, i) ∧
      woven.position? id = some pos := by
  obtain ⟨x, hx, rfl⟩ := List.mem_map.1 hid
  obtain ⟨pos, hlt, hpos⟩ := List.getElem_of_mem hx
  have hentry : woven.stream[pos]? = some (x.1, x.2) := by
    rw [List.getElem?_eq_getElem hlt, hpos]
  exact ⟨pos, x.2, h.stream ▸ hentry, (Body.stream_getElem?.1 hentry).1⟩

omit h in
theorem eq_of_position {id id' : InstructionId} {pos : Nat} (hid : woven.position? id = some pos)
    (hid' : woven.position? id' = some pos) : id = id' :=
  Option.some.inj
    ((Body.position?_eq_some_iff.1 hid).symm.trans (Body.position?_eq_some_iff.1 hid'))

/-- Where the instructions of a woven body come from. -/
theorem origin {id : InstructionId} (hid : id ∈ woven.ids) :
    id ∈ L.body.ids ∨ (∃ ret, L.Leaves woven ret id) ∨ id ∈ (L.front ++ L.back).map (·.1) := by
  obtain ⟨pos, j, hentry, hpos⟩ := h.exists_entry hid
  by_cases hfront : pos < L.front.length
  · rw [L.stream_front hfront] at hentry
    exact .inr (.inr (List.mem_map_of_mem
      (List.mem_append_left _ (List.mem_of_getElem? hentry))))
  by_cases hback : L.shift L.body.size ≤ pos
  · obtain ⟨k, rfl⟩ := Nat.exists_eq_add_of_le hback
    rw [L.stream_back] at hentry
    exact .inr (.inr (List.mem_map_of_mem
      (List.mem_append_right _ (List.mem_of_getElem? hentry))))
  obtain ⟨p, old, i, k, hs, hk, rfl⟩ :=
    L.exists_shift (Nat.not_lt.1 hfront) (Nat.not_le.1 hback)
  cases k with
  | zero =>
    obtain rfl := eq_of_position hpos (h.shift hs).1
    exact .inl (List.mem_map_of_mem (List.mem_of_getElem? hs))
  | succ k =>
    obtain ⟨hop, hresult, rfl⟩ : i.opcode = .ret ∧ L.result?.isSome = true ∧ k = 0 := by
      unfold growth at hk
      split at hk
      · next hop =>
        split at hk
        · next hresult => exact ⟨hop, hresult, by omega⟩
        · omega
      · omega
    obtain ⟨leave, hleaves, hleave⟩ := h.exists_leaves hresult hs hop
    obtain rfl := eq_of_position hpos hleave
    exact .inr (.inl ⟨old, hleaves⟩)

/-- What was added stands before the original instructions or behind them. -/
theorem exists_position_of_added {id : InstructionId}
    (hid : id ∈ (L.front ++ L.back).map (·.1)) : ∃ pos, woven.position? id = some pos ∧
      (pos < L.front.length ∨ L.shift L.body.size ≤ pos) := by
  obtain ⟨x, hx, rfl⟩ := List.mem_map.1 hid
  rcases List.mem_append.1 hx with hx | hx
  · obtain ⟨k, hlt, hk⟩ := List.getElem_of_mem hx
    have hentry : L.stream[k]? = some (x.1, x.2) := by
      rw [L.stream_front hlt, List.getElem?_eq_getElem hlt, hk]
    exact ⟨k, (h.entry hentry).1, .inl hlt⟩
  · obtain ⟨k, hlt, hk⟩ := List.getElem_of_mem hx
    have hentry : L.stream[L.shift L.body.size + k]? = some (x.1, x.2) := by
      rw [L.stream_back, List.getElem?_eq_getElem hlt, hk]
    exact ⟨_, (h.entry hentry).1, .inr (Nat.le_add_right _ _)⟩

/-! ## Ranges -/

/-- What a range covers in a woven body. -/
theorem carries {start : InstructionId} {stop? : Option InstructionId} {s : Span}
    (hs : L.body.span start stop? = .ok s) : L.Carries woven s (s.shift L.shift) := by
  refine ⟨fun id => h.covers_shift s, fun ret leave hl => ?_, fun id hid => ?_⟩
  · obtain ⟨p, i, hentry, hop⟩ := exists_return hl.returned
    obtain ⟨pos, hret, hleave, -⟩ := hl.beside
    obtain rfl : L.shift p = pos := Option.some.inj ((h.shift hentry).1.symm.trans hret)
    have hnext := shift_return hl.result hentry hop
    rw [Body.covers_iff hleave, Body.covers_iff (Body.stream_getElem?.1 hentry).1,
      contains_of_between L.monotone_shift s (p := p) (by omega) (by omega)]
  · have hstart : L.shift 0 ≤ L.shift s.start := L.monotone_shift.le_iff.2 (Nat.zero_le _)
    have hstop : L.shift s.stop ≤ L.shift L.body.size :=
      L.monotone_shift.le_iff.2 (Body.stop_le_of_span hs)
    rw [L.shift_zero] at hstart
    obtain ⟨pos, hpos, hout⟩ := h.exists_position_of_added hid
    rw [Body.covers_iff hpos, mem_span_iff]
    show ¬ (L.shift s.start ≤ pos ∧ pos < L.shift s.stop)
    omega

/-- What the guard protects. -/
theorem guarded (id : InstructionId) : woven.Covers L.region.tryRange id ↔
    id ∈ (L.front ++ L.middle).map (·.1) ∨ id = L.fallthrough := by
  have hlength : L.shift L.body.size = (L.front ++ L.middle).length := by
    rw [List.length_append, L.length_middle]
  have hlast : woven.position? L.fallthrough = some (L.shift L.body.size) :=
    Body.anchor_eq_ok.1 (h.anchor_fallthrough (Nat.zero_le _))
  constructor
  · rintro ⟨pos, hpos, hc⟩
    have hlt : pos < L.shift L.body.size + 1 := ((mem_span_iff _ _).1 hc).2
    rcases Nat.lt_succ_iff_lt_or_eq.1 hlt with hlt | rfl
    · left
      have hid := Body.position?_eq_some_iff.1 hpos
      rw [Body.ids, h.stream, Layout.stream, List.map_append,
        List.getElem?_append_left (by rwa [List.length_map, ← hlength])] at hid
      exact List.mem_of_getElem? hid
    · exact .inr (eq_of_position hpos hlast)
  · rintro (hid | rfl)
    · obtain ⟨x, hx, rfl⟩ := List.mem_map.1 hid
      obtain ⟨pos, hlt, hk⟩ := List.getElem_of_mem hx
      have hentry : L.stream[pos]? = some (x.1, x.2) := by
        rw [Layout.stream, List.getElem?_append_left hlt, List.getElem?_eq_getElem hlt, hk]
      refine ⟨pos, (h.entry hentry).1, (mem_span_iff _ _).2 ⟨Nat.zero_le _, ?_⟩⟩
      show pos < L.shift L.body.size + 1
      omega
    · exact ⟨_, hlast, (mem_span_iff _ _).2 ⟨Nat.zero_le _, Nat.lt_succ_self _⟩⟩

theorem sheltered : L.Sheltered woven where
  stream := h.stream
  handlers := h.handlers
  origin _ := h.origin
  leaves hresult ret hret := by
    obtain ⟨p, i, hs, hop⟩ := exists_return hret
    exact (h.exists_leaves hresult hs hop).imp fun _ hl => hl.1
  regions x _ hx := by
    obtain ⟨r, hr⟩ := Body.exists_region hx
    obtain ⟨-, htry, hhandler⟩ := Body.region_eq_ok.1 hr
    exact ⟨r, _, hr, h.region_close hr, rfl, h.carries htry, h.carries hhandler⟩
  guard := h.region_guard
  guarded := h.guarded

end Describes

end Layout

/-- What the regions of a woven method cover. -/
theorem instrument_coverage {p : WeavePass} {d d' : Method} {hooks : WovenHooks}
    (h : p.context.instrumentInPlace p.config p.imports d = (.ok hooks, d')) :
    ∃ (L : Layout) (woven : Body), d.body? = some L.body ∧ d'.body? = some woven ∧
      L.result?.isSome = !d.returnType.isVoid ∧ L.Sheltered woven := by
  rw [HookContext.instrumentInPlace_eq] at h
  cases hi : p.context.instrument p.config p.imports d with
  | error reason =>
    rw [hi] at h
    cases h
  | ok r =>
    rw [hi] at h
    cases h
    obtain ⟨L, array, exception, woven, maxStack, hw⟩ := WeavePass.wovenMethod_of_instrument hi
    refine ⟨L, { woven with maxStack := maxStack }, hw.body, ?_, hw.parts.result,
      (hw.describes.withMaxStack maxStack).sheltered⟩
    rw [hw.method]

/-- The open handler of the method that polls still ends with its last instruction. -/
theorem poll_instrument_coverage :
    ∃ (hooks : WovenHooks) (d' : Method) (L : Layout) (woven : Body) (r : Region),
      (station.pass thorough).context.instrumentInPlace (station.pass thorough).config
        (station.pass thorough).imports poll = (.ok hooks, d') ∧
      d'.body? = some woven ∧ L.Sheltered woven ∧
      woven.region (Handler.close L.fallthrough ⟨.catchAll, 0, some 3, 5, none⟩) = .ok r ∧
      woven.Covers r.handlerRange 6 ∧ ¬ woven.Covers r.handlerRange 4 ∧
      ¬ woven.Covers r.handlerRange L.fallthrough := by
  have hwoven : ((station.pass thorough).context.instrumentInPlace (station.pass thorough).config
      (station.pass thorough).imports poll).1.toOption.isSome = true := by
    decide +kernel
  obtain ⟨hooks, hhooks⟩ := Option.isSome_iff_exists.1 hwoven
  have hi : (station.pass thorough).context.instrumentInPlace (station.pass thorough).config
      (station.pass thorough).imports poll = (.ok hooks, _) :=
    Prod.ext (toOption_eq_some.1 hhooks) rfl
  obtain ⟨L, woven, hbody, hbody', -, hs⟩ := instrument_coverage hi
  have hpoll : L.body = poll.body?.getD (.ofList []) := by
    rw [hbody]
    rfl
  have hregion : L.body.region ⟨.catchAll, 0, some 3, 5, none⟩ =
      .ok ⟨.catchAll, ⟨0, 3⟩, ⟨5, 7⟩⟩ := by
    rw [hpoll]
    rfl
  have hhandler : ⟨.catchAll, 0, some 3, 5, none⟩ ∈ L.body.handlers := by
    rw [hpoll]
    exact List.mem_cons_self
  have hanchors : ∀ id ∈ Handler.anchors ⟨.catchAll, 0, some 3, 5, none⟩, id ∈ L.body.ids := by
    rw [hpoll]
    decide
  obtain ⟨r₀, r, hr₀, hr, -, -, hcarries⟩ := hs.regions _ hhandler hanchors
  obtain rfl := Except.ok.inj (hr₀.symm.trans hregion)
  have hposition : L.body.position? 6 = some 6 ∧ L.body.position? 4 = some 4 := by
    rw [hpoll]
    exact ⟨rfl, rfl⟩
  have hids : 6 ∈ L.body.ids ∧ 4 ∈ L.body.ids := by
    rw [hpoll]
    decide
  refine ⟨hooks, _, L, woven, r, hi, hbody', hs, hr, ?_, ?_, hcarries.added _ ?_⟩
  · rw [hcarries.original 6 hids.1, Body.covers_iff hposition.1]
    rfl
  · rw [hcarries.original 4 hids.2, Body.covers_iff hposition.2]
    decide
  · have hlt : 4 + L.guard.onException.length < L.epilogue.length :=
      Layout.Describes.lt_length_epilogue
    rw [List.map_append, Layout.back, Body.map_fst_number]
    refine List.mem_append_right _ (List.mem_range'_1.2 ⟨Nat.le_refl _, ?_⟩)
    exact Nat.lt_add_of_pos_right (by omega)

end Interpose
