import Interpose.Proofs.Weave.Mirror
import Interpose.Proofs.Weave.Phases
/-!
# A routine and what weaving made of it

Every routine of a module has a counterpart in the woven one: itself, or the routine with
the woven body. What the original code does in one step the counterpart does too, for a
return or an uncaught exception after more steps, in which the hooks are called.

Results:
* `Counterpart.code`, `Counterpart.target`, `Counterpart.catch`: instructions, branches and
  handlers of the original code stand at the positions that correspond.
* `Counterpart.leads_giveBack`: the counterpart gives its caller the same value.
* `Counterpart.leads_handOn`: the counterpart hands on what it does not catch.
-/
namespace Interpose

/-- Does a routine run its body? -/
structure Routine.Formed (r : Routine) : Prop where
  code : r.code = r.body.code.toArray
  regions : r.body.regions = .ok r.regions

/-- What weaving made of a routine, and where the positions of its body have gone. -/
inductive Counterpart (vm : Machine) (p : WeavePass) (r : Routine) : Routine → (Nat → Nat) → Prop
  | same : Counterpart vm p r r id
  | woven {hooks : WovenHooks} {L : Layout} {array exception : SlotId} {r' : Routine}
    (h : WovenRoutine vm p r.method hooks L array exception r') (body : L.body = r.body)
    (typeName : r'.typeName = r.typeName) (name : r'.method.name = r.method.name) :
    Counterpart vm p r r' L.shift

namespace WovenRoutine

variable {vm : Machine} {p : WeavePass} {d : Method} {hooks : WovenHooks} {L : Layout}
  {array exception : SlotId} {r : Routine} {f : Frame} {e : Value} {rs : List Region}

/-- What the original handlers let through, in their new places, the guard catches. -/
theorem catch_guard (h : WovenRoutine vm p d hooks L array exception r)
    (hrs : L.body.regions = .ok rs) {pos : Nat} (hpos : pos ≤ L.body.size)
    (hpc : f.pc = L.shift pos)
    (hnone : (rs.map (·.shift L.shift)).find? (fun x =>
      x.tryRange.contains (L.shift pos) && Frame.catches e x.kind) = none) :
    ∃ g, f.catch? r.regions e = some g ∧ g.pc = L.region.handlerRange.start ∧ g.stack = [e] ∧
      g.handling = ⟨L.region.handlerRange, e⟩ :: f.dropHandling.handling ∧
      g.locals = f.locals := by
  have hinside : (L.region.tryRange.contains (L.shift pos) &&
      Frame.catches e L.region.kind) = true := by
    have hle := (shift_mem_body L hpos).2
    rw [Bool.and_eq_true, mem_span_iff]
    exact ⟨⟨Nat.zero_le _, Nat.lt_succ_of_le hle⟩, rfl⟩
  unfold Frame.catch?
  rw [hpc, h.regions_eq hrs, List.find?_append, hnone, Option.none_or, List.find?_cons, hinside]
  exact ⟨_, rfl, rfl, rfl, rfl, rfl⟩

/-- The handler of the guard hands on what it has caught. -/
theorem leads_rethrow (h : WovenRoutine vm p d hooks L array exception r)
    (hrs : L.body.regions = .ok rs) {older : List Handling}
    (hpc : f.pc = L.region.handlerRange.start) (hstack : f.stack = [e])
    (hhandling : f.handling = ⟨L.region.handlerRange, e⟩ :: older)
    (hl : f.locals.length = r.body.locals.size) (w : World) (callers : List Caller) :
    ∃ w', w'.heap = w.heap ∧
      vm.Leads (.running ⟨⟨r, f⟩, callers, w⟩) (Machine.handOn w' e callers) := by
  obtain ⟨hrethrow, locals, w', ⟨log, hp, -⟩, hheap, -⟩ :=
    h.announces_handler (w := w) hpc hstack hl
  let last : Frame := { f with locals := locals, stack := [], pc := L.rethrowPos }
  have hactive : last.handling = ⟨L.region.handlerRange, e⟩ :: older := hhandling
  have hthrow : last.step r vm.module.imports w'.heap (.plain .rethrow) =
      .error (.failed (.thrown e)) := Machine.step_rethrow hactive
  have hstep : vm.step ⟨⟨r, last⟩, callers, w'⟩ = Machine.unwind w' e ⟨r, last⟩ callers :=
    Machine.step_of_thrown hrethrow hthrow callers
  -- no region contains the instruction that raises the exception again
  have hout : (⟨r, last⟩ : Activation).catch? e = none := by
    unfold Activation.catch?
    rw [h.catch_rethrow hrs rfl]
    rfl
  refine ⟨w', hheap, (Machine.steps_of_proceeds hp callers).leads.trans (.step ?_)⟩
  rw [hstep, Machine.unwind_of_catch_none hout]
  exact .refl _

end WovenRoutine

namespace Counterpart

variable {vm : Machine} {p : WeavePass} {r r' : Routine} {σ : Nat → Nat} {pos : Nat}
  {i : Instruction}

theorem monotone (h : Counterpart vm p r r' σ) : Monotone σ := by
  cases h with
  | same => exact monotone_id
  | @woven hooks L array exception r' h body typeName name => exact L.monotone_shift

theorem describe (h : Counterpart vm p r r' σ) : r'.describe = r.describe := by
  cases h with
  | same => rfl
  | woven h body typeName name =>
    unfold Routine.describe
    rw [typeName, name]

/-- The instruction at a position, if it is not a return. -/
theorem code (h : Counterpart vm p r r' σ) (hr : r.Formed) (hi : r.code[pos]? = some i)
    (hret : i.opcode ≠ .ret) : r'.code[σ pos]? = some i ∧ σ (pos + 1) = σ pos + 1 := by
  cases h with
  | same => exact ⟨hi, rfl⟩
  | @woven hooks L array exception r' h body typeName name =>
    rw [hr.code, List.getElem?_toArray, ← body] at hi
    obtain ⟨⟨id, i'⟩, hs, rfl⟩ : ∃ x, L.body.stream[pos]? = some x ∧ x.2 = i := by
      rw [Body.code, List.getElem?_map] at hi
      exact Option.map_eq_some_iff.1 hi
    refine ⟨?_, ?_⟩
    · rw [h.code_fetch]
      exact (h.describes.shift hs).2.1 hret
    · rw [L.shift_succ hi, L.growth_of_ne_ret hret]

theorem target (h : Counterpart vm p r r' σ) {t : Nat} (ht : r.target i = .ok t) :
    r'.target i = .ok (σ t) := by
  cases h with
  | same => exact ht
  | @woven hooks L array exception r' h body typeName name =>
    unfold Routine.target at ht ⊢
    cases hi : i.target? with
    | none =>
      rw [hi] at ht
      cases ht
    | some id =>
      rw [hi] at ht
      have ha : r.body.anchor id = .ok t := mapError_eq_ok.1 ht
      rw [← body] at ha
      exact mapError_eq_ok.2 (h.describes.anchor_shift ha)

theorem size_eq (hr : r.Formed) : r.code.size = r.body.size := by
  rw [hr.code]
  simp only [List.size_toArray, Body.code, Body.size, List.length_map]

theorem regions (h : Counterpart vm p r r' σ) (hr : r.Formed) :
    ∃ guard, r'.regions = r.regions.map (·.shift σ) ++ guard := by
  cases h with
  | same =>
    refine ⟨[], ?_⟩
    rw [List.append_nil]
    exact (List.map_id' r.regions).symm
  | @woven hooks L array exception r' h body typeName name =>
    exact ⟨[L.region], h.regions_eq (body ▸ hr.regions)⟩

/-! ## Exceptions -/

variable {ρ : Renaming} {f f' g : Frame} {e e' : Value}

/-- The first handler that catches, among those whose positions have moved. -/
theorem find?_shift (hσ : Monotone σ) (he : e.Matches ρ e') (regions : List Region) (pos : Nat) :
    (regions.map (·.shift σ)).find? (fun x =>
        x.tryRange.contains (σ pos) && Frame.catches e' x.kind) =
      (regions.find? fun x => x.tryRange.contains pos && Frame.catches e x.kind).map
        (·.shift σ) := by
  rw [List.find?_map]
  congr 2
  funext x
  show ((x.tryRange.shift σ).contains (σ pos) && Frame.catches e' x.kind) = _
  rw [contains_shift hσ, Frame.catches_matches he]

/-- What the original code catches the counterpart catches in the same handler. -/
theorem «catch» (h : Counterpart vm p r r' σ) (hr : r.Formed) (hf : f.Matches ρ σ pos f')
    (he : e.Matches ρ e') (hg : f.catch? r.regions e = some g) :
    ∃ g' pos', f'.catch? r'.regions e' = some g' ∧ g.Matches ρ σ pos' g' ∧
      g'.locals = f'.locals := by
  obtain ⟨x, hx, rfl⟩ := Option.map_eq_some_iff.1 hg
  obtain ⟨guard, hguard⟩ := h.regions hr
  have hfound := find?_shift h.monotone he r.regions pos
  rw [hf.here] at hx
  rw [hx, Option.map_some] at hfound
  have hdrop := hf.dropHandling h.monotone
  unfold Frame.catch?
  rw [hguard, hf.there, List.find?_append, hfound]
  exact ⟨_, x.handlerRange.start, rfl, ⟨hf.args, hf.locals, .cons he .nil,
    .cons ⟨rfl, he⟩ hdrop.handling, rfl, rfl⟩, rfl⟩

theorem find?_of_catch_none (hf : f.pc = pos) (hn : f.catch? r.regions e = none) :
    (r.regions.find? fun x => x.tryRange.contains pos && Frame.catches e x.kind) = none := by
  rw [← hf]
  exact Option.map_eq_none_iff.1 hn

/-- What the original code does not catch the counterpart hands on in the end. -/
theorem leads_handOn (h : Counterpart vm p r r' σ) (hr : r.Formed) (hf : f.Matches ρ σ pos f')
    (hpos : pos ≤ r.body.size) (hl : f'.locals.length = r'.body.locals.size)
    (he : e.Matches ρ e') (hn : f.catch? r.regions e = none) (w : World)
    (callers : List Caller) :
    ∃ w', w'.heap = w.heap ∧ vm.Leads (Machine.unwind w e' ⟨r', f'⟩ callers)
      (Machine.handOn w' e' callers) := by
  have hnone := find?_of_catch_none hf.here hn
  have hshift := find?_shift h.monotone he r.regions pos
  rw [hnone, Option.map_none] at hshift
  cases h with
  | same =>
    have hmap : r.regions.map (·.shift id) = r.regions := List.map_id' r.regions
    rw [hmap] at hshift
    have hcatch : (⟨r, f'⟩ : Activation).catch? e' = none := by
      unfold Activation.catch? Frame.catch?
      rw [hf.there, hshift]
      rfl
    rw [Machine.unwind_of_catch_none hcatch]
    exact ⟨w, rfl, .refl _⟩
  | @woven hooks L array exception r' h body typeName name =>
    have hrs : L.body.regions = .ok r.regions := body ▸ hr.regions
    obtain ⟨g, hcatch, hpc, hstack, hhandling, hlocals⟩ :=
      h.catch_guard hrs (body ▸ hpos) hf.there hshift
    rw [Machine.unwind_of_catch hcatch]
    exact h.leads_rethrow hrs hpc hstack hhandling (hlocals ▸ hl) w callers

/-! ## Returns -/

/-- The counterpart gives its caller the value on top of its stack. -/
theorem leads_giveBack (h : Counterpart vm p r r' σ) (hr : r.Formed)
    (hi : r.code[pos]? = some i) (hret : i.opcode = .ret) (hpc : f'.pc = σ pos) {v : Value}
    (hv : if r.method.returnType.isVoid then v = .null else ∃ rest, f'.stack = v :: rest)
    (hl : f'.locals.length = r'.body.locals.size) (w : World) (callers : List Caller) :
    ∃ w', w'.heap = w.heap ∧ vm.Leads (.running ⟨⟨r', f'⟩, callers, w⟩)
      (Machine.giveBack w' v callers) := by
  cases h with
  | same =>
    have hpc : f'.pc = pos := hpc
    have hstep : f'.step r vm.module.imports w.heap i = .ok (.ret v) := by
      cases hvoid : r.method.returnType.isVoid with
      | true =>
        rw [hvoid, if_pos rfl] at hv
        rw [hv]
        exact Machine.step_ret_void hret hvoid
      | false =>
        rw [hvoid, if_neg Bool.false_ne_true] at hv
        obtain ⟨rest, hs⟩ := hv
        exact Machine.step_ret_value hret hvoid hs
    refine ⟨w, rfl, .step ?_⟩
    rw [Machine.step_of_ret (hpc ▸ hi) hstep callers]
    exact .refl _
  | @woven hooks L array exception r' h body typeName name =>
    have hcode : L.body.code[pos]? = some i := by
      rw [hr.code, List.getElem?_toArray, ← body] at hi
      exact hi
    have hvoid : r.method.returnType.isVoid = L.result?.isNone := by
      rw [← Option.not_isSome, h.parts.result, Bool.not_not]
    rw [hvoid] at hv
    have hstack (slot : SlotId) (hs : L.result? = some slot) : ∃ rest, f'.stack = v :: rest := by
      simpa [hs] using hv
    have hnull (hs : L.result? = none) : v = .null := by simpa [hs] using hv
    obtain ⟨g, hsteps, hexit, hslot⟩ := h.steps_return (w := w) hcode hret hpc hstack hl callers
    obtain ⟨g', w', ⟨log, hp, -⟩, hheap, hcode', hstep⟩ :=
      h.announces_exit (w := w) hexit hslot hnull
    refine ⟨w', hheap, (hsteps.trans (Machine.steps_of_proceeds hp callers)).leads.trans
      (.step ?_)⟩
    rw [Machine.step_of_ret hcode' (hstep _) callers]
    exact .refl _

/-- So does it fault at a return for want of a value. -/
theorem step_return_empty (h : Counterpart vm p r r' σ) (hr : r.Formed)
    (hi : r.code[pos]? = some i) (hret : i.opcode = .ret) (hpc : f'.pc = σ pos)
    (hv : r.method.returnType.isVoid = false) (hs : f'.stack = []) (w : World)
    (callers : List Caller) :
    vm.step ⟨⟨r', f'⟩, callers, w⟩ = Machine.faulted w (.stackUnderflow f'.pc) := by
  cases h with
  | same =>
    have hpc : f'.pc = pos := hpc
    exact Machine.step_of_fault (hpc ▸ hi) (Machine.step_ret_empty hret hv hs) callers
  | @woven hooks L array exception r' h body typeName name =>
    rw [hr.code, List.getElem?_toArray, ← body, Body.code, List.getElem?_map] at hi
    obtain ⟨⟨id, i'⟩, hentry, rfl⟩ := Option.map_eq_some_iff.1 hi
    have hresult := h.parts.result
    rw [hv] at hresult
    obtain ⟨slot, hslot⟩ := Option.isSome_iff_exists.1 hresult
    have hat := h.codeAt ((h.describes.shift hentry).2.2 hret)
    rw [hslot, ← hpc] at hat
    refine Machine.step_of_fault hat.fetch ?_ callers
    show (f'.pop >>= _) = _
    unfold Frame.pop
    rw [hs]
    rfl

end Counterpart

end Interpose
