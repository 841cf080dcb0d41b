import Interpose.Proofs.Body.Closed
import Interpose.Proofs.Machine.Lifetime
import Interpose.Proofs.Weave.Segments
/-!
# The phases of a woven activation

A woven activation runs its prologue, then the original code, and from there the exit or
the handler of the guard. It cannot leave the original code in another way, since
whatever is thrown there is caught, and every return has become a leave.

Results:
* `inBody_or_exit_of_goesOn`: where an instruction of the original code leads.
* `exists_catch_inBody`, `inBody_or_caught_of_catch`: an exception in the original code is
  always caught, by a handler of the original code or by the guard.
* `amongBody_step`: what a step makes of an activation that is in the original code.
-/
namespace Interpose

/-- A handler keeps its anchors where its open ends are closed. -/
theorem Handler.anchors_subset_close (x : Handler) (stop : InstructionId) :
    x.anchors ⊆ (x.close stop).anchors := by
  have hend (end? : Option InstructionId) : end?.toList ⊆ [end?.getD stop] := by
    cases end? <;> simp
  refine List.cons_subset_cons _ (List.append_subset.2 ⟨?_, ?_⟩)
  · exact List.subset_append_of_subset_left _ (hend _)
  · exact List.subset_append_of_subset_right _ (List.cons_subset_cons _ (hend _))

namespace WovenRoutine

variable {vm : Machine} {p : WeavePass} {d : Method} {hooks : WovenHooks} {L : Layout}
  {array exception : SlotId} {r : Routine}

/-- The activation is in the original code. -/
structure InBody (L : Layout) (r : Routine) (f : Frame) : Prop where
  first : L.front.length ≤ f.pc
  last : f.pc ≤ L.shift L.body.size
  locals : f.locals.length = r.body.locals.size

/-- The activation is at the start of the exit. -/
structure AtExit (L : Layout) (r : Routine) (f : Frame) : Prop where
  pc : f.pc = L.exitPos
  locals : f.locals.length = r.body.locals.size

/-- The guard has caught this exception. -/
structure Caught (L : Layout) (r : Routine) (e : Value) (f : Frame) : Prop where
  pc : f.pc = L.shift L.body.size + 1
  stack : f.stack = [e]
  handling : ∃ range rest, f.handling = ⟨range, e⟩ :: rest
  locals : f.locals.length = r.body.locals.size

theorem shift_mem_body (L : Layout) {q : Nat} (hq : q ≤ L.body.size) :
    L.front.length ≤ L.shift q ∧ L.shift q ≤ L.shift L.body.size := by
  refine ⟨?_, L.monotone_shift.le_iff.2 hq⟩
  unfold Layout.shift
  omega

section

variable (h : WovenRoutine vm p d hooks L array exception r) {f g : Frame} {i : Instruction}
include h

theorem code_fetch {pos : Nat} : r.code[pos]? = r.body.code[pos]? := by
  rw [h.code, List.getElem?_toArray]

/-- What stands in the original code, its end included. -/
theorem code_inBody (hf : InBody L r f) :
    (∃ q id i, L.body.stream[q]? = some (id, i) ∧ i.opcode ≠ .ret ∧ f.pc = L.shift q ∧
      r.code[f.pc]? = some i) ∨
    (∃ slot, f.pc < L.shift L.body.size ∧ r.code[f.pc]? = some (.stloc slot)) ∨
    r.code[f.pc]? = some (.leave L.exit) := by
  rw [h.code_fetch]
  rcases Nat.lt_or_eq_of_le hf.last with hlt | heq
  · rcases h.describes.inside hf.first hlt with horiginal | ⟨slot, -, hcode⟩ | hleave
    · exact .inl horiginal
    · exact .inr (.inl ⟨slot, hlt, hcode⟩)
    · exact .inr (.inr hleave)
  · rw [heq]
    exact .inr (.inr h.describes.code_fallthrough)

theorem exists_code_inBody (hf : InBody L r f) : ∃ i, r.code[f.pc]? = some i := by
  rcases h.code_inBody hf with ⟨_, _, _, -, -, -, hi⟩ | ⟨_, -, hi⟩ | hi
  · exact ⟨_, hi⟩
  · exact ⟨_, hi⟩
  · exact ⟨_, hi⟩

theorem ne_ret_of_inBody (hf : InBody L r f) (hi : r.code[f.pc]? = some i) : i.opcode ≠ .ret := by
  rcases h.code_inBody hf with ⟨q, id, j, -, hr, -, hj⟩ | ⟨slot, -, hj⟩ | hj
  · obtain rfl := Option.some.inj (hi.symm.trans hj)
    exact hr
  · obtain rfl := Option.some.inj (hi.symm.trans hj)
    nofun
  · obtain rfl := Option.some.inj (hi.symm.trans hj)
    nofun

/-- The instruction after one of the original code, if control can go on to it. -/
theorem inBody_of_next (hf : InBody L r f) (hi : r.code[f.pc]? = some i)
    (hflow : i.opcode.flow = .next ∨ i.opcode.flow = .condBranch) (hpc : g.pc = f.pc + 1)
    (hl : g.locals.length = f.locals.length) : InBody L r g := by
  have hfirst := hf.first
  refine ⟨by omega, ?_, hl.trans hf.locals⟩
  rcases h.code_inBody hf with ⟨q, id, j, hs, hr, hq, hj⟩ | ⟨slot, hlt, -⟩ | hj
  · obtain ⟨hqlt, -⟩ := List.getElem?_eq_some_iff.1 hs
    have hnext := L.shift_succ (Body.stream_getElem?.1 hs).2
    rw [L.growth_of_ne_ret hr] at hnext
    have := (shift_mem_body L (q := q + 1) hqlt).2
    omega
  · omega
  · obtain rfl := Option.some.inj (hi.symm.trans hj)
    rcases hflow with hflow | hflow <;> cases hflow

/-- A branch in the original code stays in it. -/
theorem target_of_original (hapart : L.body.Apart r.body) {q pos : Nat} {id : InstructionId}
    (hs : L.body.stream[q]? = some (id, i)) {imports : ImportTable}
    (ht : (r.context imports).target? i = some pos) :
    L.front.length ≤ pos ∧ pos ≤ L.shift L.body.size := by
  obtain ⟨target, htarget, hpos⟩ := Option.bind_eq_some_iff.1 ht
  have hpos : r.body.position? target = some pos := hpos
  have hcode : i ∈ L.body.code := List.mem_iff_getElem?.2 ⟨q, (Body.stream_getElem?.1 hs).2⟩
  have hmem : target ∈ L.body.ids := by
    refine hapart target (mem_references.2 (.inl ⟨i, hcode, htarget⟩)) ?_
    exact List.mem_of_getElem? (Body.position?_eq_some_iff.1 hpos)
  obtain ⟨q', hq'⟩ := Body.exists_position?_of_lt ((L.body.mem_ids target).1 hmem)
  obtain rfl := Option.some.inj ((h.describes.position?_shift hq').symm.trans hpos)
  exact shift_mem_body L (Nat.le_of_lt (Body.lt_of_anchor (Body.anchor_eq_ok.2 hq')))

/-- An instruction of the original code leads to another one, or to the exit. -/
theorem inBody_or_exit_of_goesOn (hapart : L.body.Apart r.body) (hf : InBody L r f)
    {imports : ImportTable} (hi : r.code[f.pc]? = some i)
    (hg : GoesOn (r.context imports) f i g) : InBody L r g ∨ AtExit L r g := by
  have hlocals := hg.locals.trans hf.locals
  have hedge := hg.edge
  generalize hpos : g.pc = pos at hedge
  cases hedge with
  | next hflow => exact .inl (h.inBody_of_next hf hi hflow hpos hg.locals)
  | target hflow ht =>
    rcases h.code_inBody hf with ⟨q, id, j, hs, -, -, hj⟩ | ⟨slot, -, hj⟩ | hj
    · obtain rfl := Option.some.inj (hi.symm.trans hj)
      obtain ⟨hfirst, hlast⟩ := h.target_of_original hapart hs ht
      exact .inl ⟨by omega, by omega, hlocals⟩
    · obtain rfl := Option.some.inj (hi.symm.trans hj)
      rcases hflow with hflow | hflow | hflow <;> cases hflow
    · obtain rfl := Option.some.inj (hi.symm.trans hj)
      have hexit : r.body.position? L.exit = some pos := ht
      exact .inr ⟨hpos.trans (Option.some.inj (hexit.symm.trans h.describes.position?_exit)),
        hlocals⟩

/-! ## Exceptions -/

variable {e : Value}

theorem regions_eq {rs : List Region} (hrs : L.body.regions = .ok rs) :
    r.regions = rs.map (·.shift L.shift) ++ [L.region] :=
  Except.ok.inj (h.regions.symm.trans (h.describes.regions_of_describes hrs))

/-- The woven body has regions, so the original one has them too. -/
theorem exists_regions (hapart : L.body.Apart r.body) : ∃ rs, L.body.regions = .ok rs := by
  have hanchored := Body.anchored_iff.2 ⟨_, h.regions⟩
  refine Body.anchored_iff.1 (hapart.anchored fun x hx id hid => ?_)
  have hmem : x.close L.fallthrough ∈ r.body.handlers := by
    rw [h.describes.handlers]
    exact List.mem_append_left _ (List.mem_map_of_mem hx)
  exact Body.anchored_iff_forall.1 hanchored _ hmem id (x.anchors_subset_close _ hid)

/-- An exception in the original code is always caught. -/
theorem exists_catch_inBody (hapart : L.body.Apart r.body) (hf : InBody L r f) (e : Value) :
    ∃ g, f.catch? r.regions e = some g := by
  obtain ⟨rs, hrs⟩ := h.exists_regions hapart
  have hguard : L.region ∈ r.regions := by
    rw [h.regions_eq hrs]
    exact List.mem_append_right _ List.mem_cons_self
  have hcontains : (L.region.tryRange.contains f.pc && Frame.catches e L.region.kind) = true := by
    have := hf.last
    rw [Bool.and_eq_true, mem_span_iff]
    exact ⟨⟨Nat.zero_le _, by unfold Layout.region; dsimp only; omega⟩, rfl⟩
  cases hfind : r.regions.find? fun x => x.tryRange.contains f.pc && Frame.catches e x.kind with
  | none => exact absurd hcontains (List.find?_eq_none.1 hfind _ hguard)
  | some x => exact ⟨_, by unfold Frame.catch?; rw [hfind]; rfl⟩

theorem catch_ne_none_inBody (hapart : L.body.Apart r.body) (hf : InBody L r f) (e : Value) :
    (⟨r, f⟩ : Activation).catch? e ≠ none := by
  obtain ⟨g, hg⟩ := h.exists_catch_inBody hapart hf e
  unfold Activation.catch?
  rw [hg]
  nofun

/-- What is caught goes to a handler of the original code, or to the guard. -/
theorem inBody_or_caught_of_catch (hapart : L.body.Apart r.body)
    (hl : f.locals.length = r.body.locals.size) (hg : f.catch? r.regions e = some g) :
    InBody L r g ∨ Caught L r e g := by
  obtain ⟨x, hx, rfl⟩ := Option.map_eq_some_iff.1 hg
  obtain ⟨rs, hrs⟩ := h.exists_regions hapart
  have hmem := List.mem_of_find?_eq_some hx
  rw [h.regions_eq hrs] at hmem
  rcases List.mem_append.1 hmem with hmem | hmem
  · obtain ⟨y, hy, rfl⟩ := List.mem_map.1 hmem
    obtain ⟨handler, -, hregion⟩ := Body.exists_handler_of_regionsOf hrs hy
    have hstart := Body.start_lt_of_span (Body.region_eq_ok.1 hregion).2.2
    obtain ⟨hfirst, hlast⟩ := shift_mem_body L (Nat.le_of_lt hstart)
    exact .inl ⟨hfirst, hlast, hl⟩
  · obtain rfl := List.mem_singleton.1 hmem
    exact .inr ⟨rfl, rfl, ⟨_, _, rfl⟩, hl⟩

/-- Where the guard raises the exception again, nothing catches it. -/
theorem catch_rethrow {rs : List Region} (hrs : L.body.regions = .ok rs)
    (hpc : f.pc = L.rethrowPos) (e : Value) : f.catch? r.regions e = none := by
  have hafter : L.shift L.body.size + 1 < f.pc := by
    rw [hpc, Layout.rethrowPos]
    omega
  unfold Frame.catch?
  rw [Option.map_eq_none_iff, List.find?_eq_none]
  intro x hx
  rw [h.regions_eq hrs] at hx
  have hstop : x.tryRange.stop ≤ f.pc := by
    rcases List.mem_append.1 hx with hx | hx
    · obtain ⟨y, hy, rfl⟩ := List.mem_map.1 hx
      obtain ⟨handler, -, hregion⟩ := Body.exists_handler_of_regionsOf hrs hy
      have hle := Body.stop_le_of_span (Body.region_eq_ok.1 hregion).2.1
      have hshift := (shift_mem_body L hle).2
      show L.shift y.tryRange.stop ≤ f.pc
      omega
    · obtain rfl := List.mem_singleton.1 hx
      exact Nat.le_of_lt hafter
  rw [Bool.and_eq_true, mem_span_iff]
  omega

/-! ## Steps -/

/-- An activation is in the original code, or it waits there for a call. -/
inductive AmongBody (L : Layout) (r : Routine) (base : List Caller) : State → Prop
  | current {f : Frame} {w : World} (hf : InBody L r f) : AmongBody L r base ⟨⟨r, f⟩, base, w⟩
  | waiting {a : Activation} (front : List Caller) {f : Frame} {keeps : Bool} {w : World}
    (hf : InBody L r f) (hnext : InBody L r f.advance) :
    AmongBody L r base ⟨a, front ++ ⟨⟨r, f⟩, keeps⟩ :: base, w⟩

/-- Where an activation can get from the original code. -/
inductive Onward (L : Layout) (r : Routine) (base : List Caller) : State → Prop
  | among {s : State} (hs : AmongBody L r base s) : Onward L r base s
  | exit {f : Frame} {w : World} (hf : AtExit L r f) : Onward L r base ⟨⟨r, f⟩, base, w⟩
  | caught {f : Frame} {w : World} {e : Value} (hf : Caught L r e f) :
    Onward L r base ⟨⟨r, f⟩, base, w⟩

variable {base : List Caller} {s s' : State} {w : World} {e : Value}

omit h in
theorem inBody_resumed (hnext : InBody L r f.advance) (keeps : Bool) (v : Value) :
    InBody L r (f.resumed keeps v) := by
  cases keeps <;> exact ⟨hnext.first, hnext.last, hnext.locals⟩

/-- A call of the original code waits there, and goes on there. -/
theorem inBody_of_call (hf : InBody L r f) {imports : ImportTable} {heap : Heap}
    {member : MemberRef} {args : List Value} {keeps : Bool} (hi : r.code[f.pc]? = some i)
    (hstep : f.step r imports heap i = .ok (.call member args keeps g)) :
    InBody L r g ∧ InBody L r g.advance := by
  have hshape := Frame.holds_step f r imports heap i
  rw [hstep] at hshape
  refine ⟨⟨by rw [hshape.pc]; exact hf.first, by rw [hshape.pc]; exact hf.last, ?_⟩, ?_⟩
  · rw [hshape.locals, hf.locals]
  · exact h.inBody_of_next hf hi (.inl hshape.flow) (congrArg (· + 1) hshape.pc)
      (congrArg List.length hshape.locals)

theorem onward_unwind (hapart : L.body.Apart r.body) (hf : InBody L r f)
    (hs : Machine.unwind w e ⟨r, f⟩ base = .running s') : Onward L r base s' := by
  obtain ⟨g, hg⟩ := h.exists_catch_inBody hapart hf e
  rw [Machine.unwind_of_catch hg] at hs
  cases hs
  rcases h.inBody_or_caught_of_catch hapart hf.locals hg with hbody | hcaught
  · exact .among (.current hbody)
  · exact .caught hcaught

/-- A step leaves an activation in the original code, or at the exit or the handler of the
guard. -/
theorem onward_step (hapart : L.body.Apart r.body) (ha : AmongBody L r base s)
    (hs : vm.step s = .running s') : Onward L r base s' := by
  cases ha with
  | waiting front hf hnext =>
    rcases Machine.suspended_cases rfl hs with ⟨front', hfront⟩ | ⟨v, rfl⟩ | ⟨e, w, hreach⟩
    · obtain ⟨a, callers, w⟩ := s'
      obtain rfl : callers = _ := hfront
      exact .among (.waiting front' hf hnext)
    · exact .among (.current (inBody_resumed hnext _ v))
    · exact h.onward_unwind hapart hf hreach
  | @current f w hf =>
    have hstepped := Machine.stepped vm ⟨⟨r, f⟩, base, w⟩
    generalize vm.step _ = progress at hstepped hs
    cases hstepped with
    | fault w cause => cases hs
    | @next i g heap hi hstep =>
      cases hs
      have hshape := Frame.holds_step f r vm.module.imports w.heap i
      rw [hstep] at hshape
      rcases h.inBody_or_exit_of_goesOn hapart hf hi hshape with hbody | hexit
      · exact .among (.current hbody)
      · exact .exit hexit
    | @ret i v hi hstep =>
      have hshape := Frame.holds_step f r vm.module.imports w.heap i
      rw [hstep] at hshape
      exact absurd hshape (h.ne_ret_of_inBody hf hi)
    | enter hi hstep =>
      cases hs
      obtain ⟨hg, hnext⟩ := h.inBody_of_call hf hi hstep
      exact .among (.waiting [] hg hnext)
    | member hi hstep =>
      cases hs
      obtain ⟨-, hnext⟩ := h.inBody_of_call hf hi hstep
      exact .among (.current (inBody_resumed hnext _ _))
    | raise hr hpc hl =>
      refine h.onward_unwind hapart ⟨?_, ?_, ?_⟩ hs
      · rw [hpc]
        exact hf.first
      · rw [hpc]
        exact hf.last
      · rw [hl]
        exact hf.locals

end

end WovenRoutine

end Interpose
