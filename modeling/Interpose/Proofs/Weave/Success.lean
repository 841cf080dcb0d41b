import Interpose.Proofs.Weave.Edits
/-!
# Edits that succeed

An edit fails only where an id does not belong to the body or there is no room for another
slot. Weaving edits at ids it has just made or found, and declares three slots at most.

Results:
* `leaveAtReturns_isOk`, `insertAllAfter_isOk`: runs of edits succeed.
* `weave_isOk`: a body with room for three slots can be woven, whatever is woven into it.
-/
namespace Interpose

variable {b : Body} {anchor id : InstructionId}

namespace Body

theorem contains_iff : b.contains id = true ↔ id ∈ b.ids := List.contains_iff_mem

theorem insertBefore_isOk (h : anchor ∈ b.ids) (i : Instruction) :
    ∃ id b', b.insertBefore anchor i = .ok (id, b') := by
  unfold insertBefore
  rw [if_pos (contains_iff.2 h)]
  exact ⟨_, _, rfl⟩

/-- An insertion succeeds, and the ids of the body stay in it, with the new one. -/
theorem insertAfter_isOk (h : anchor ∈ b.ids) (i : Instruction) :
    ∃ id b', b.insertAfter anchor i = .ok (id, b') ∧ id ∈ b'.ids ∧ ∀ x ∈ b.ids, x ∈ b'.ids := by
  have hok : ∃ id b', b.insertAfter anchor i = .ok (id, b') := by
    unfold insertAfter
    rw [if_pos (contains_iff.2 h)]
    exact ⟨_, _, rfl⟩
  obtain ⟨id, b', hok⟩ := hok
  obtain ⟨-, front, back, hids, hids'⟩ := ids_insertAfter hok
  refine ⟨id, b', hok, ?_, fun x hx => ?_⟩
  · rw [hids']
    simp
  · rw [hids] at hx
    rw [hids']
    simp only [List.mem_append, List.mem_cons] at hx ⊢
    grind

theorem insertAllAfter_isOk (code : List Instruction) (h : anchor ∈ b.ids) :
    ∃ id b', b.insertAllAfter anchor code = .ok (id, b') := by
  induction code generalizing b anchor with
  | nil => exact ⟨anchor, b, rfl⟩
  | cons i rest ih =>
    obtain ⟨id, b₁, h₁, hid, -⟩ := insertAfter_isOk h i
    obtain ⟨id', b', h'⟩ := ih hid
    exact ⟨id', b', bind_eq_ok.2 ⟨(id, b₁), h₁, h'⟩⟩

theorem replace_isOk (h : id ∈ b.ids) (i : Instruction) :
    ∃ old b', b.replace id i = .ok (old, b') ∧ b'.ids = b.ids := by
  obtain ⟨p, hp, rfl⟩ := List.mem_map.1 h
  have hget : (b.get? p.1).isSome := by
    rw [get?, List.lookup_isSome_iff]
    exact ⟨p, hp, beq_self_eq_true _⟩
  obtain ⟨old, hold⟩ := Option.isSome_iff_exists.1 hget
  unfold replace
  split
  · next hnone =>
    rw [hold] at hnone
    cases hnone
  · exact ⟨_, _, rfl, map_fst_putAt ..⟩

theorem leaveAtReturn_isOk (h : id ∈ b.ids) (exit : InstructionId) (result? : Option SlotId) :
    ∃ b', b.leaveAtReturn exit result? id = .ok b' ∧ ∀ x ∈ b.ids, x ∈ b'.ids := by
  cases result? with
  | none =>
    obtain ⟨old, b', hb', hids⟩ := replace_isOk h (.leave exit)
    exact ⟨b', bind_eq_ok.2 ⟨(old, b'), hb', rfl⟩, fun x hx => hids ▸ hx⟩
  | some slot =>
    obtain ⟨old, b₁, h₁, hids⟩ := replace_isOk h (.stloc slot)
    obtain ⟨id', b', hb', -, hmem⟩ := insertAfter_isOk (hids ▸ h) (.leave exit)
    exact ⟨b', bind_eq_ok.2 ⟨(old, b₁), h₁, bind_eq_ok.2 ⟨(id', b'), hb', rfl⟩⟩,
      fun x hx => hmem x (hids ▸ hx)⟩

theorem leaveAtReturns_isOk {ids : List InstructionId} (h : ∀ id ∈ ids, id ∈ b.ids)
    (exit : InstructionId) (result? : Option SlotId) :
    ∃ b', b.leaveAtReturns exit result? ids = .ok b' := by
  induction ids generalizing b with
  | nil => exact ⟨b, rfl⟩
  | cons id rest ih =>
    obtain ⟨b₁, h₁, hmem⟩ := leaveAtReturn_isOk (h id List.mem_cons_self) exit result?
    obtain ⟨b', h'⟩ := ih fun x hx => hmem x (h x (List.mem_cons_of_mem _ hx))
    exact ⟨b', bind_eq_ok.2 ⟨b₁, h₁, h'⟩⟩

theorem addSlot_isOk (h : b.locals.size < 65536) (s : Slot) :
    ∃ slot b', b.addSlot s = .ok (slot, b') ∧ b'.ids = b.ids ∧
      b'.locals.size = b.locals.size + 1 := by
  unfold addSlot
  dsimp only
  rw [if_pos h]
  exact ⟨_, _, rfl, rfl, Array.size_push _⟩

end Body

namespace HookContext

variable {c : HookContext} {config : WeaveConfig}

theorem prologue_isOk (h : b.locals.size < 65536) (c : HookContext) (trace : Bool)
    (capture : Capture) (name : String) :
    ∃ code hooks b', c.prologue trace capture name b = .ok (code, hooks, b') ∧ b'.ids = b.ids ∧
      b'.locals.size ≤ b.locals.size + 1 := by
  unfold prologue
  by_cases hc : (c.init?.isSome || trace) = true
  · rw [if_pos hc]
    obtain ⟨slot, b', hslot, hids, hsize⟩ :=
      Body.addSlot_isOk h ⟨.objectArray, some "<>params", true⟩
    have hemit : capture.emit b = .ok (slot, capture.code slot, b') :=
      bind_eq_ok.2 ⟨(slot, b'), hslot, rfl⟩
    exact ⟨_, _, b', bind_eq_ok.2 ⟨_, hemit, rfl⟩, hids, Nat.le_of_eq hsize⟩
  · rw [if_neg hc]
    exact ⟨_, _, b, rfl, rfl, Nat.le_succ _⟩

theorem guardFor_isOk (h : b.locals.size < 65536) (c : HookContext) (config : WeaveConfig) :
    ∃ g hooks b', c.guardFor config b = .ok (g, hooks, b') ∧ b'.ids = b.ids ∧
      b'.locals.size ≤ b.locals.size + 1 := by
  unfold guardFor
  by_cases hc : (config.notifyException && c.onException?.isSome) = true
  · rw [if_pos hc]
    obtain ⟨slot, b', hslot, hids, hsize⟩ :=
      Body.addSlot_isOk h ⟨.named exceptionType, some "<>exception", true⟩
    have hkeep : ({} : Guard).captureException b =
        .ok (slot, { exception? := some slot }, b') := bind_eq_ok.2 ⟨(slot, b'), hslot, rfl⟩
    exact ⟨_, _, b', bind_eq_ok.2 ⟨_, hkeep, rfl⟩, hids, Nat.le_of_eq hsize⟩
  · rw [if_neg hc]
    exact ⟨_, _, b, rfl, rfl, Nat.le_succ _⟩

end HookContext

namespace Guard

theorem declareResult_isOk {returnType : Ty}
    (h : returnType.isVoid = true ∨ b.locals.size < 65536) :
    ∃ result? b', declareResult b returnType = .ok (result?, b') := by
  unfold declareResult
  split
  · exact ⟨none, b, rfl⟩
  · next hv =>
    obtain ⟨slot, b', hslot, -⟩ :=
      Body.addSlot_isOk (h.resolve_left hv) ⟨returnType, some "<>result", true⟩
    exact ⟨some slot, b', bind_eq_ok.2 ⟨(slot, b'), hslot, rfl⟩⟩

theorem ids_declareResult {returnType : Ty} {result? : Option SlotId} {b' : Body}
    (h : declareResult b returnType = .ok (result?, b')) : b'.ids = b.ids := by
  unfold declareResult at h
  split at h
  · cases h
    rfl
  · obtain ⟨⟨slot, b₁⟩, hslot, h⟩ := bind_eq_ok.1 h
    cases h
    unfold Body.addSynthetic Body.addSlot at hslot
    dsimp only at hslot
    split at hslot
    · cases hslot
      rfl
    · cases hslot

/-- The returns of a body are still there when a slot was declared and code appended. -/
theorem leaveAtReturns_appended_isOk {returnType : Ty} {result? : Option SlotId} {b' : Body}
    (h : declareResult b returnType = .ok (result?, b')) (code : List Instruction)
    (exit : InstructionId) :
    ∃ b'', (b'.appendAll code).leaveAtReturns exit result? b.returns = .ok b'' := by
  refine Body.leaveAtReturns_isOk (fun id hid => ?_) exit result?
  obtain ⟨p, hp, rfl⟩ := List.mem_map.1 hid
  have hp : p.1 ∈ b'.ids := ids_declareResult h ▸ List.mem_map_of_mem (List.mem_filter.1 hp).1
  rw [Body.ids, (Body.stream_appendAll code).1, List.map_append]
  exact List.mem_append_left _ hp

theorem wrap_isOk {returnType : Ty} (h : returnType.isVoid = true ∨ b.locals.size < 65536)
    (g : Guard) (start : InstructionId) :
    ∃ region b', g.wrap b start returnType = .ok (region, b') := by
  obtain ⟨result?, b₁, h₁⟩ := declareResult_isOk h
  obtain ⟨b₂, h₂⟩ := leaveAtReturns_appended_isOk h₁
    (g.epilogue (b₁.size + 4 + g.onException.length) result?)
    (b₁.size + 4 + g.onException.length)
  exact ⟨_, _, bind_eq_ok.2 ⟨(result?, b₁), h₁, bind_eq_ok.2 ⟨b₂, h₂, rfl⟩⟩⟩

end Guard

/-- No edit of weaving fails in a body that has room for three more slots. -/
theorem weave_isOk (hne : b.stream ≠ []) (hl : b.locals.size ≤ 65533) (c : HookContext)
    (config : WeaveConfig) (capture : Capture) (name : String) (returnType : Ty) :
    ∃ hooks woven, c.weave config capture name returnType b = .ok (hooks, woven) := by
  obtain ⟨first, hfirst⟩ : ∃ first, b.first? = some first := by
    cases hs : b.stream with
    | nil => exact absurd hs hne
    | cons p rest => exact ⟨p.1, by rw [Body.first?, Body.ids, hs]; rfl⟩
  have hmem : first ∈ b.ids := List.mem_of_mem_head? (by rw [← Body.first?, hfirst]; rfl)
  obtain ⟨anchor, b₁, h₁⟩ := Body.insertBefore_isOk hmem (.plain .nop)
  obtain ⟨rfl, hs₁, hl₁, -⟩ := Body.stream_insertBefore_first hfirst h₁
  obtain ⟨code, before, b₂, h₂, hids₂, hl₂⟩ := HookContext.prologue_isOk (b := b₁)
    (by rw [hl₁]; omega) c (config.traceArguments && c.canTrace) capture name
  have hanchor : b.size ∈ b₂.ids := by
    rw [hids₂, Body.ids, hs₁]
    exact List.mem_cons_self
  obtain ⟨last, b₃, h₃⟩ := Body.insertAllAfter_isOk code hanchor
  have hl₃ : b₃.locals.size = b₂.locals.size := by
    obtain ⟨p, hp, hpid⟩ := List.mem_map.1 hanchor
    obtain ⟨front, back, hs₂⟩ := List.append_of_mem hp
    obtain ⟨pid, i⟩ := p
    obtain rfl : pid = b.size := hpid
    rw [(Body.stream_insertAllAfter hs₂ h₃).2.locals]
  rw [hl₁] at hl₂
  obtain ⟨guard, after, b₄, h₄, -, hl₄⟩ := HookContext.guardFor_isOk (b := b₃) (by omega) c config
  have hroom : returnType.isVoid = true ∨ b₄.locals.size < 65536 := .inr (by omega)
  obtain ⟨region, b₅, h₅⟩ := Guard.wrap_isOk hroom guard b.size
  unfold HookContext.weave
  rw [hfirst]
  exact ⟨_, _, bind_eq_ok.2 ⟨(b.size, b₁), h₁, bind_eq_ok.2 ⟨(code, before, b₂), h₂,
    bind_eq_ok.2 ⟨(last, b₃), h₃, bind_eq_ok.2 ⟨(guard, after, b₄), h₄,
      bind_eq_ok.2 ⟨(region, b₅), h₅, rfl⟩⟩⟩⟩⟩⟩

end Interpose
