import Interpose.Proofs.Weave.Geometry
import Interpose.Proofs.Weave.Order
/-!
# What a guard makes of a body

The whole of a guarded body: its stream with the returns retired and the code of the handler
and the exit behind it, its slots and its handlers. The only return left is the last
instruction, whatever the returns were, if what is done at the exits does not return itself.

Results:
* `returnIds_retire`, `returnIds_epilogue`: the returns that are left.
* `guarded_of_wrap`: a guarded body, part by part.
* `wrap_eq_error_iff`: a guard fails only for want of a slot.
-/
namespace Interpose

variable {b b' : Body} {g : Guard} {start : InstructionId} {returnType : Ty}
  {region : GuardedRegion}

/-- What is done at the exit of a guard. -/
def Guard.exitCode (g : Guard) (result? : Option SlotId) : List Instruction :=
  g.onReturn ++ (result?.map Instruction.ldloc).toList ++ [.plain .ret]

/-- Neither on an exception nor on a return does the guard's own code return. -/
def Guard.Returnless (g : Guard) : Prop := ∀ i ∈ g.onException ++ g.onReturn, i.opcode ≠ .ret

/-! ## The returns that are left -/

theorem returnIds_append (l l' : List (InstructionId × Instruction)) :
    returnIds (l ++ l') = returnIds l ++ returnIds l' := by
  rw [returnIds, List.filter_append, List.map_append]
  rfl

theorem returnIds_retired (exit : InstructionId) (result? : Option SlotId)
    (fresh id : InstructionId) (i : Instruction) :
    returnIds (retired exit result? fresh id i) = [] := by
  unfold retired
  split
  · cases result? <;> rfl
  · next hi =>
    have hone : ∀ j ∈ [i], j.opcode ≠ .ret := by simpa using hi
    exact returnIds_number hone

theorem returnIds_retire (exit : InstructionId) (result? : Option SlotId) (fresh : Nat)
    (l : List (InstructionId × Instruction)) : returnIds (retire exit result? fresh l) = [] := by
  induction l generalizing fresh with
  | nil => rfl
  | cons p rest ih =>
    rw [retire, returnIds_append, returnIds_retired, ih]
    rfl

theorem epilogue_eq_exitCode (g : Guard) (exit : InstructionId) (result? : Option SlotId) :
    g.epilogue exit result? = [.leave exit, g.keep] ++ g.onException ++
      [.plain .rethrow, .leave exit] ++ g.exitCode result? :=
  Chain.epilogue_keep g exit result?

theorem length_epilogue (g : Guard) (exit : InstructionId) (result? : Option SlotId) :
    (g.epilogue exit result?).length = 4 + g.onException.length + (g.exitCode result?).length := by
  rw [epilogue_eq_exitCode]
  simp only [List.length_append, List.length_cons, List.length_nil]
  omega

/-- An epilogue returns at its end, and only there. -/
theorem returnIds_epilogue (hg : g.Returnless) (n : Nat) (exit : InstructionId)
    (result? : Option SlotId) :
    ∃ last, returnIds (Body.number n (g.epilogue exit result?)) = [last] ∧
      ((Body.number n (g.epilogue exit result?)).map (·.1)).getLast? = some last := by
  obtain ⟨code, hcode, hret⟩ : ∃ code, g.epilogue exit result? = code ++ [.plain .ret] ∧
      ∀ i ∈ code, i.opcode ≠ .ret := by
    refine ⟨[.leave exit, g.keep] ++ g.onException ++ [.plain .rethrow, .leave exit] ++
      (g.onReturn ++ (result?.map Instruction.ldloc).toList), ?_, ?_⟩
    · rw [epilogue_eq_exitCode, Guard.exitCode]
      simp only [List.append_assoc]
    · have hkeep : g.keep.opcode ≠ .ret := by
        unfold Guard.keep
        split <;> exact nofun
      intro i hi
      simp only [List.mem_append, List.mem_cons, List.not_mem_nil, or_false, Option.mem_toList,
        Option.map_eq_some_iff] at hi
      rcases hi with (((rfl | rfl) | hi) | rfl | rfl) | hi | ⟨slot, -, rfl⟩
      · exact nofun
      · exact hkeep
      · exact hg i (List.mem_append_left _ hi)
      · exact nofun
      · exact nofun
      · exact hg i (List.mem_append_right _ hi)
      · exact nofun
  refine ⟨n + code.length, ?_, ?_⟩
  · rw [hcode, Chain.number_append, returnIds_append, returnIds_number hret]
    rfl
  · rw [hcode, Chain.number_append, List.map_append]
    simp [Body.number]

/-! ## The guarded body -/

/-- Where appended code stands. -/
theorem Body.position?_appended {front : List (InstructionId × Instruction)} {n : Nat}
    {code : List Instruction} (hs : b.stream = front ++ Body.number n code) (k : Nat)
    (hk : k < code.length) : b.position? (n + k) = some (front.length + k) := by
  refine (Body.stream_getElem? (i := code[k]).1 ?_).1
  rw [hs, List.getElem?_append_right (Nat.le_add_right _ _), Nat.add_sub_cancel_left,
    Body.getElem?_number, List.getElem?_eq_getElem hk]
  rfl

/-- What a guard makes of a body. What follows the original code has the next ids in order, and
so have the leaves that stand beside a store. -/
structure Guarded (g : Guard) (b : Body) (start : InstructionId) (returnType : Ty)
    (region : GuardedRegion) (b' : Body) : Prop where
  exit : region.exit = b.size + 4 + g.onException.length
  hasResult : region.result?.isSome = !returnType.isVoid
  result : ∀ slot ∈ region.result?, slot.toNat = b.locals.size
  locals : b'.locals.toList = b.locals.toList ++
    if returnType.isVoid then [] else [⟨returnType, some "<>result", true⟩]
  stream : b'.stream =
    retire region.exit region.result? (region.exit + (g.exitCode region.result?).length) b.stream ++
      ((b.size, .leave region.exit) :: (b.size + 1, g.keep) ::
        (Body.number (b.size + 2) g.onException ++
          (b.size + 2 + g.onException.length, .plain .rethrow) ::
          (b.size + 3 + g.onException.length, .leave region.exit) ::
          Body.number region.exit (g.exitCode region.result?)))
  returns : ∃ last, b'.returns = [last] ∧ b'.ids.getLast? = some last
  handlers : b'.handlers = b.handlers.map (·.close b.size) ++ [region.handler]
  handler : region.handler =
    ⟨.catchAll, start, some (b.size + 1), b.size + 1, some region.exit⟩
  /-- From the start to the handler everything is protected, and from there to the exit is the
  handler's own code. -/
  spans : ∃ first last, b'.position? start = some first ∧ b'.position? b.size = some last ∧
    b'.region region.handler = .ok ⟨.catchAll, ⟨first, last + 1⟩,
      ⟨last + 1, last + 4 + g.onException.length⟩⟩
  exception : region.exception? = g.exception?
  returnsReplaced : region.returnsReplaced = b.returns.length

theorem guarded_of_wrap (hg : g.Returnless) (hstart : start ∈ b.ids)
    (h : g.wrap b start returnType = .ok (region, b')) :
    Guarded g b start returnType region b' := by
  have hsplit : b.stream = [] ++ b.stream := rfl
  obtain ⟨result?, slots, exit, hexit, hvoid, hslot, rfl, hs, hh, hl, rfl⟩ :=
    Guard.wrap_eq_ok hsplit rfl h
  have hlength : b.size + (g.epilogue exit result?).length =
      exit + (g.exitCode result?).length := by
    rw [length_epilogue, hexit]
    omega
  rw [List.nil_append, hlength] at hs
  have hstream := hs
  rw [Chain.number_epilogue] at hstream
  refine ⟨hexit, hvoid, hslot, hl, ?_, ?_, hh, rfl, ?_, rfl, rfl⟩
  · rw [hstream, hexit]
    rfl
  · obtain ⟨last, hreturns, hlast⟩ := returnIds_epilogue hg b.size exit result?
    refine ⟨last, ?_, ?_⟩
    · show returnIds b'.stream = _
      rw [hs, returnIds_append, returnIds_retire, hreturns, List.nil_append]
    · rw [Body.ids, hs, List.map_append, List.getLast?_append, hlast]
      rfl
  · obtain ⟨first, hfirst⟩ : ∃ first, b'.position? start = some first := by
      obtain ⟨pos, hlt, hid⟩ := List.getElem_of_mem ((Body.grows_wrap h).ids.subset hstart)
      exact ⟨pos, Body.position?_eq_some_iff.2 (hid ▸ List.getElem?_eq_getElem hlt)⟩
    have happended := Body.position?_appended hs
    have hlen := length_epilogue g exit result?
    have hlast := happended 0 (by omega)
    have hkeep := happended 1 (by omega)
    have hexitPos := happended (4 + g.onException.length) (by
      rw [hlen, Guard.exitCode]
      simp only [List.length_append, List.length_singleton]
      omega)
    rw [← Nat.add_assoc, ← hexit, ← Nat.add_assoc] at hexitPos
    refine ⟨first, _, hfirst, hlast, Body.region_eq_ok.2 ⟨rfl, ?_, ?_⟩⟩
    · exact bind_eq_ok.2 ⟨_, Body.anchor_eq_ok.2 hfirst,
        bind_eq_ok.2 ⟨_, Body.anchor_eq_ok.2 hkeep, rfl⟩⟩
    · exact bind_eq_ok.2 ⟨_, Body.anchor_eq_ok.2 hkeep,
        bind_eq_ok.2 ⟨_, Body.anchor_eq_ok.2 hexitPos, rfl⟩⟩

/-- A guard fails where it needs a slot and there is no room for one. -/
theorem wrap_eq_error_iff {e : CodeError} : g.wrap b start returnType = .error e ↔
    returnType.isVoid = false ∧ 65536 ≤ b.locals.size ∧
      e = .tooManySlots (b.locals.size + 1) := by
  by_cases hroom : returnType.isVoid = true ∨ b.locals.size < 65536
  · obtain ⟨region, b', hok⟩ := Guard.wrap_isOk hroom g start
    rw [hok]
    refine ⟨nofun, fun ⟨hv, hl, _⟩ => ?_⟩
    rcases hroom with hroom | hroom
    · rw [hv] at hroom
      cases hroom
    · exact absurd hroom (Nat.not_lt.2 hl)
  · obtain ⟨hv, hl⟩ := not_or.1 hroom
    have hslot : b.addSynthetic returnType "<>result" =
        .error (.tooManySlots (b.locals.size + 1)) := by
      unfold Body.addSynthetic Body.addSlot
      exact if_neg hl
    have hdeclare : Guard.declareResult b returnType =
        .error (.tooManySlots (b.locals.size + 1)) := by
      unfold Guard.declareResult
      rw [if_neg hv, hslot]
      rfl
    have hwrap : g.wrap b start returnType = .error (.tooManySlots (b.locals.size + 1)) := by
      unfold Guard.wrap
      rw [hdeclare]
      rfl
    rw [hwrap]
    refine ⟨fun he => ⟨by simpa using hv, Nat.not_lt.1 hl, ?_⟩, fun ⟨_, _, he⟩ => he ▸ rfl⟩
    cases he
    rfl

/-- What a guard leaves of a chain. If it has the slot for the result, the chain stores the
guarded body, and otherwise it stores the old one still. -/
theorem wrap_layout {c : Chain} (hc : c.Stores b) (hstart : start ∈ b.ids) (hg : g.Returnless)
    (returnType : Ty) :
    Chain.Agrees b (Chain.wrap g start returnType c) (g.wrap b start returnType) ∧
      (∀ region b', g.wrap b start returnType = .ok (region, b') →
        Guarded g b start returnType region b') ∧
      ∀ e, g.wrap b start returnType = .error e ↔
        returnType.isVoid = false ∧ 65536 ≤ b.locals.size ∧
          e = .tooManySlots (b.locals.size + 1) :=
  ⟨Chain.agrees_wrap hc g start returnType, fun _ _ => guarded_of_wrap hg hstart,
    fun _ => wrap_eq_error_iff⟩

/-- A choice of two returns. -/
def choice : List Instruction :=
  [.ldarg 0, ⟨.brtrue, .target 4⟩, .ldcI4 1, .plain .ret, .ldcI4 2, .plain .ret]

theorem choice_wrap_layout :
    let g : Guard := { onReturn := [.plain .nop] }
    ∃ region c' b', Chain.wrap g 2 .int32 (.ofList choice) = .ok region c' ∧ c'.Stores b' ∧
      Guarded g (.ofList choice) 2 .int32 region b' ∧
      b'.ids = [0, 1, 2, 3, 13, 4, 5, 14, 6, 7, 8, 9, 10, 11, 12] := by
  intro g
  have hg : g.Returnless := by
    unfold Guard.Returnless
    decide
  have hstart : 2 ∈ (Body.ofList choice).ids := by decide
  obtain ⟨hagrees, hguarded, -⟩ :=
    wrap_layout (Chain.Made.ofList choice).stores hstart hg .int32
  have hroom : Ty.int32.isVoid = true ∨ (Body.ofList choice).locals.size < 65536 :=
    .inr (by decide)
  have hids : (g.wrap (.ofList choice) 2 .int32).toOption.map (·.2.ids) =
      some [0, 1, 2, 3, 13, 4, 5, 14, 6, 7, 8, 9, 10, 11, 12] := by
    decide +kernel
  obtain ⟨region, b', hok⟩ := Guard.wrap_isOk hroom g 2
  rw [hok] at hagrees hids
  generalize hc : Chain.wrap g 2 .int32 (.ofList choice) = r at hagrees
  cases hagrees with
  | ok hs => exact ⟨region, _, b', rfl, hs, hguarded region b' hok, Option.some.inj hids⟩

end Interpose
