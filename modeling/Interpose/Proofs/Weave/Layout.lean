import Interpose.Proofs.Weave.Edits
import Interpose.Proofs.Weave.Resolve
/-!
# The layout of a woven body

What a woven body looks like: the anchor, the prologue, the original stream with its
returns retired, and the epilogue of the guard. Fresh ids go to the anchor, the prologue
and the epilogue in this order, then to the leaves of the returns.

Results:
* `speaks_announceCode`: what is said before a body, and to whom.
* `layout_of_weave`: a body that was woven has such a layout, with these parts.
-/
namespace Interpose

/-- The parts of a woven body. -/
structure Layout where
  /-- The body as it was. -/
  body : Body
  prologue : List Instruction
  guard : Guard
  result? : Option SlotId
  /-- The slots that weaving declared. -/
  slots : List Slot

namespace Layout

variable (L : Layout)

/-- The id of the leave at the end of the guarded part. -/
def fallthrough : InstructionId := L.body.size + 1 + L.prologue.length

/-- The id at which the code of the exit starts. -/
def exit : InstructionId := L.fallthrough + 4 + L.guard.onException.length

def epilogue : List Instruction := L.guard.epilogue L.exit L.result?

/-- The anchor and the prologue. -/
def front : List (InstructionId × Instruction) :=
  (L.body.size, .plain .nop) :: Body.number (L.body.size + 1) L.prologue

/-- The original stream with its returns retired. -/
def middle : List (InstructionId × Instruction) :=
  retire L.exit L.result? (L.fallthrough + L.epilogue.length) L.body.stream

def back : List (InstructionId × Instruction) := Body.number L.fallthrough L.epilogue

def stream : List (InstructionId × Instruction) := L.front ++ L.middle ++ L.back

/-- The handler of the guard. -/
def handler : Handler :=
  ⟨.catchAll, L.body.size, some (L.fallthrough + 1), L.fallthrough + 1, some L.exit⟩

def handlers : List Handler := L.body.handlers.map (·.close L.fallthrough) ++ [L.handler]

/-- The woven body is laid out like this. -/
structure Describes (woven : Body) : Prop where
  stream : woven.stream = L.stream
  handlers : woven.handlers = L.handlers
  locals : woven.locals.toList = L.body.locals.toList ++ L.slots

/-- A slot that weaving declared. -/
def Owns (slot : SlotId) : Prop :=
  L.body.locals.size ≤ slot.toNat ∧ slot.toNat < L.body.locals.size + L.slots.length

end Layout

namespace Body

theorem addSlot_eq_ok {b b' : Body} {s : Slot} {slot : SlotId}
    (h : b.addSlot s = .ok (slot, b')) :
    slot.toNat = b.locals.size ∧ b'.stream = b.stream ∧ b'.handlers = b.handlers ∧
      b'.locals = b.locals.push s := by
  unfold addSlot at h
  dsimp only at h
  split at h
  · next hlt =>
    cases h
    refine ⟨?_, rfl, rfl, rfl⟩
    rw [UInt16.toNat_ofNat']
    exact Nat.mod_eq_of_lt hlt
  · cases h

end Body

namespace HookContext

variable (c : HookContext) (config : WeaveConfig) (capture : Capture) (name : String)

/-- Is the method's call printed? -/
def traces : Bool := config.traceArguments && c.canTrace

/-- Are the arguments of the method captured? -/
def captures : Bool := c.init?.isSome || c.traces config

/-- The code that announces a call, with the arguments in a slot. -/
def announceCode (array : SlotId) : List Instruction :=
  (if c.captures config then
    capture.code array ++ (c.initCode? array).getD [] ++
      (if c.traces config then c.traceCode? name array else none).getD []
  else []) ++ (c.emitHook c.onEntry? []).getD []

/-- The code that announces an exception, with the exception in a slot. -/
def exceptionCode (slot : SlotId) : List Instruction :=
  if config.notifyException && c.onException?.isSome then
    (c.emitHook c.onException? [.ldloc slot]).getD []
  else []

/-- The code that announces the end of a call. -/
def exitCode : List Instruction := (c.emitHook c.onExit? []).getD []

/-- The slots that weaving declares: for the arguments, for a caught exception and for the
result, as far as they are wanted. -/
def slots (returnType : Ty) : List Slot :=
  (if c.captures config then [⟨.objectArray, some "<>params", true⟩] else []) ++
    (if config.notifyException && c.onException?.isSome then
      [⟨.named exceptionType, some "<>exception", true⟩] else []) ++
      if returnType.isVoid then [] else [⟨returnType, some "<>result", true⟩]

/-- Number of slots that weaving declares. -/
def slotCount (returnType : Ty) : Nat :=
  (if c.captures config then 1 else 0) +
    (if config.notifyException && c.onException?.isSome then 1 else 0) +
      if returnType.isVoid then 0 else 1

theorem length_slots (returnType : Ty) :
    (c.slots config returnType).length = c.slotCount config returnType := by
  simp only [slots, slotCount, List.length_append, apply_ite List.length, List.length_singleton,
    List.length_nil]

end HookContext

/-- What weaving makes of a body, with the slots for the arguments and for the exception. -/
structure WovenBody (c : HookContext) (config : WeaveConfig) (capture : Capture) (name : String)
    (returnType : Ty) (hooks : WovenHooks) (L : Layout) (array exception : SlotId) : Prop where
  nonempty : L.body.stream ≠ []
  prologue : L.prologue = c.announceCode config capture name array
  onException : L.guard.onException = c.exceptionCode config exception ++ c.exitCode
  onReturn : L.guard.onReturn = if config.notifyExitOnReturn then c.exitCode else []
  keeps : L.guard.exception? =
    if config.notifyException && c.onException?.isSome then some exception else none
  result : L.result?.isSome = !returnType.isVoid
  arraySlot : c.captures config = true → L.Owns array
  exceptionSlot : L.guard.exception?.isSome → L.Owns exception
  resultSlot : ∀ slot, L.result? = some slot → L.Owns slot
  slots : L.slots = c.slots config returnType
  init : hooks.init = (c.captures config && (c.initCode? array).isSome)
  trace : hooks.trace = (c.traces config && (c.traceCode? name array).isSome)
  entry : hooks.entry = (c.emitHook c.onEntry? []).isSome
  exit : hooks.exit = (c.emitHook c.onExit? []).isSome
  exception : hooks.exception = (config.notifyException && c.onException?.isSome &&
    (c.emitHook c.onException? [.ldloc exception]).isSome)

namespace HookContext

variable {c : HookContext} {config : WeaveConfig} {capture : Capture} {name : String}
  {b b' : Body} {hooks : WovenHooks} {code : List Instruction}

theorem prologue_eq_ok
    (h : c.prologue (config.traceArguments && c.canTrace) capture name b = .ok (code, hooks, b')) :
    ∃ array slots, code = c.announceCode config capture name array ∧
      (c.captures config = true → array.toNat = b.locals.size) ∧
      slots = (if c.captures config then [⟨.objectArray, some "<>params", true⟩] else []) ∧
      b'.stream = b.stream ∧ b'.handlers = b.handlers ∧
      b'.locals.toList = b.locals.toList ++ slots ∧
      hooks = {
        init := c.captures config && (c.initCode? array).isSome
        trace := c.traces config && (c.traceCode? name array).isSome
        entry := (c.emitHook c.onEntry? []).isSome } := by
  unfold prologue at h
  dsimp only at h
  by_cases hc : c.captures config = true
  · have hc' : (c.init?.isSome || config.traceArguments && c.canTrace) = true := hc
    rw [if_pos hc'] at h
    obtain ⟨⟨array, store, b₂⟩, h₂, h⟩ := bind_eq_ok.1 h
    obtain ⟨⟨slot, b₃⟩, h₃, h₂⟩ := bind_eq_ok.1 h₂
    cases h₂
    cases h
    obtain ⟨hslot, hs, hh, hl⟩ := Body.addSlot_eq_ok h₃
    refine ⟨array, _, ?_, fun _ => hslot, (if_pos hc).symm, hs, hh, ?_, ?_⟩
    · rw [announceCode, if_pos hc]
      rfl
    · rw [hl, Array.toList_push]
    · simp only [hc, traces, Bool.true_and]
      congr 1
      cases config.traceArguments && c.canTrace <;> rfl
  · have hc' : ¬ (c.init?.isSome || config.traceArguments && c.canTrace) = true := hc
    rw [if_neg hc'] at h
    cases h
    refine ⟨0, [], ?_, fun h => absurd h hc, (if_neg hc).symm, rfl, rfl, by simp, ?_⟩
    · simp [announceCode, hc]
    · have htrace : c.traces config = false := by
        rw [Bool.not_eq_true] at hc
        exact (Bool.or_eq_false_iff.1 hc).2
      rw [Bool.not_eq_true] at hc
      simp [hc, htrace]

theorem guardFor_eq_ok {g : Guard} (h : c.guardFor config b = .ok (g, hooks, b')) :
    ∃ exception slots, g.onException = c.exceptionCode config exception ++ c.exitCode ∧
      g.onReturn = (if config.notifyExitOnReturn then c.exitCode else []) ∧
      g.exception? =
        (if config.notifyException && c.onException?.isSome then some exception else none) ∧
      (g.exception?.isSome → exception.toNat = b.locals.size) ∧
      slots = (if config.notifyException && c.onException?.isSome then
        [⟨.named exceptionType, some "<>exception", true⟩] else []) ∧
      b'.stream = b.stream ∧ b'.handlers = b.handlers ∧
      b'.locals.toList = b.locals.toList ++ slots ∧
      hooks = {
        exit := (c.emitHook c.onExit? []).isSome
        exception := config.notifyException && c.onException?.isSome &&
          (c.emitHook c.onException? [.ldloc exception]).isSome } := by
  unfold guardFor at h
  dsimp only at h
  by_cases hc : (config.notifyException && c.onException?.isSome) = true
  · rw [if_pos hc] at h
    obtain ⟨⟨slot, g₂, b₂⟩, h₂, h⟩ := bind_eq_ok.1 h
    obtain ⟨⟨slot', b₃⟩, h₃, h₂⟩ := bind_eq_ok.1 h₂
    cases h₂
    cases h
    obtain ⟨hslot, hs, hh, hl⟩ := Body.addSlot_eq_ok h₃
    refine ⟨slot, _, ?_, rfl, ?_, fun _ => hslot, (if_pos hc).symm, hs, hh, ?_, ?_⟩
    · simp only [exceptionCode, hc, if_true, exitCode]
    · simp only [hc, if_true]
    · rw [hl, Array.toList_push]
    · simp only [hc, Bool.true_and]
  · rw [if_neg hc] at h
    cases h
    refine ⟨0, [], ?_, rfl, ?_, fun h => ?_, (if_neg hc).symm, rfl, rfl, by simp, ?_⟩
    · simp [exceptionCode, hc, exitCode]
    · rw [if_neg hc]
    · cases h
    · rw [Bool.not_eq_true] at hc
      simp [hc]

end HookContext

namespace Guard

variable {g : Guard} {b b' : Body} {start : InstructionId} {returnType : Ty}

theorem declareResult_eq_ok {result? : Option SlotId}
    (h : declareResult b returnType = .ok (result?, b')) :
    ∃ slots, result?.isSome = !returnType.isVoid ∧
      (∀ slot, result? = some slot → slot.toNat = b.locals.size) ∧
      slots = (if returnType.isVoid then [] else [⟨returnType, some "<>result", true⟩]) ∧
      b'.stream = b.stream ∧ b'.handlers = b.handlers ∧
      b'.locals.toList = b.locals.toList ++ slots := by
  unfold declareResult at h
  split at h
  · next hv =>
    cases h
    refine ⟨[], by simp [hv], ?_, (if_pos hv).symm, rfl, rfl, by simp⟩
    intro slot hs
    cases hs
  · next hv =>
    obtain ⟨⟨slot, b₁⟩, h₁, h⟩ := bind_eq_ok.1 h
    cases h
    obtain ⟨hslot, hs, hh, hl⟩ := Body.addSlot_eq_ok h₁
    refine ⟨_, ?_, ?_, (if_neg hv).symm, hs, hh, ?_⟩
    · rw [Bool.not_eq_true] at hv
      rw [hv]
      rfl
    · intro slot' he
      cases he
      exact hslot
    · rw [hl, Array.toList_push]

/-- What a guard makes of a body whose first part has no returns. -/
theorem wrap_eq_ok {region : GuardedRegion} {front middle : List (InstructionId × Instruction)}
    (hs : b.stream = front ++ middle) (hf : returnIds front = [])
    (h : g.wrap b start returnType = .ok (region, b')) :
    ∃ result? slots exit, exit = b.size + 4 + g.onException.length ∧
      result?.isSome = !returnType.isVoid ∧
      (∀ slot, result? = some slot → slot.toNat = b.locals.size) ∧
      slots = (if returnType.isVoid then [] else [⟨returnType, some "<>result", true⟩]) ∧
      b'.stream = front ++
        retire exit result? (b.size + (g.epilogue exit result?).length) middle ++
          Body.number b.size (g.epilogue exit result?) ∧
      b'.handlers = b.handlers.map (·.close b.size) ++
        [⟨.catchAll, start, some (b.size + 1), b.size + 1, some exit⟩] ∧
      b'.locals.toList = b.locals.toList ++ slots ∧
      region = ⟨⟨.catchAll, start, some (b.size + 1), b.size + 1, some exit⟩, exit, result?,
        g.exception?, b.returns.length⟩ := by
  unfold wrap at h
  obtain ⟨⟨result?, b₁⟩, h₁, h⟩ := bind_eq_ok.1 h
  obtain ⟨slots, hvoid, hslot, hcount, hs₁, hh₁, hl₁⟩ := declareResult_eq_ok h₁
  dsimp only at h
  obtain ⟨b₂, h₂, h⟩ := bind_eq_ok.1 h
  cases h
  have hsize : b₁.size = b.size := by rw [Body.size, hs₁, Body.size]
  rw [hsize] at h₂ ⊢
  have hreturns : b.returns = returnIds middle := by
    show returnIds b.stream = _
    rw [hs, returnIds, List.filter_append, List.map_append]
    exact congrArg (· ++ _) hf
  rw [hreturns] at h₂
  refine ⟨result?, slots, _, rfl, hvoid, hslot, hcount, ?_⟩
  obtain ⟨happ, hparts⟩ := Body.stream_appendAll (b := b₁)
    (g.epilogue (b.size + 4 + g.onException.length) result?)
  rw [hs₁, hs, hsize] at happ
  obtain ⟨hstream, hparts₂⟩ := Body.stream_leaveAtReturns happ h₂
  refine ⟨?_, ?_, ?_, rfl⟩
  · rw [Body.size_appendAll, hsize] at hstream
    exact hstream
  · rw [hh₁]
  · show b₂.locals.toList = _
    rw [hparts₂.locals, hparts.locals, hl₁]

end Guard

/-! ## What weaving says -/

/-- Does control go on to the next instruction after each of these? -/
def Straight (code : List Instruction) : Prop := ∀ i ∈ code, i.opcode.flow = .next

theorem Straight.cons {i : Instruction} {code : List Instruction} (hi : i.opcode.flow = .next)
    (h : Straight code) : Straight (i :: code) := by
  intro j hj
  rcases List.mem_cons.1 hj with rfl | hj
  · exact hi
  · exact h j hj

namespace HookContext

variable {c : HookContext} {capture : Capture} {code code' args : List Instruction}
  {s : HookSymbol}

/-- What announcements have as operands: they name members of the context and types that are boxed,
and no targets. -/
def Utters (c : HookContext) (capture : Capture) : Operand → Prop
  | .member id => ∃ s, c.id? s = some id
  | .ty t => t = .object ∨ ∃ a ∈ capture.arguments, a.boxed? = some t
  | .target _ | .float64 _ => False
  | _ => True

/-- The instruction may be part of an announcement. Control goes on after it. -/
structure Says (c : HookContext) (capture : Capture) (i : Instruction) : Prop where
  next : i.opcode.flow = .next
  utters : c.Utters capture i.operand

/-- The code may be part of an announcement. -/
def Speaks (c : HookContext) (capture : Capture) (code : List Instruction) : Prop :=
  ∀ i ∈ code, c.Says capture i

theorem speaks_nil : c.Speaks capture [] := List.forall_mem_nil _

theorem Speaks.append (h : c.Speaks capture code) (h' : c.Speaks capture code') :
    c.Speaks capture (code ++ code') :=
  List.forall_mem_append.2 ⟨h, h'⟩

theorem Speaks.cons {i : Instruction} (hi : c.Says capture i) (h : c.Speaks capture code) :
    c.Speaks capture (i :: code) :=
  List.forall_mem_cons.2 ⟨hi, h⟩

theorem Speaks.getD {code? : Option (List Instruction)}
    (h : ∀ code, code? = some code → c.Speaks capture code) :
    c.Speaks capture (code?.getD []) := by
  cases code? with
  | none => exact speaks_nil
  | some code => exact h code rfl

theorem speaks_capture (array : SlotId) : c.Speaks capture (capture.code array) := by
  have store (index : Nat) (args : List CapturedArgument) (hargs : args ⊆ capture.arguments) :
      c.Speaks capture (Capture.storeAll array index args) := by
    induction args generalizing index with
    | nil => exact speaks_nil
    | cons a rest ih =>
      obtain ⟨ha, hrest⟩ := List.cons_subset.1 hargs
      refine Speaks.append ?_ (ih (index + 1) hrest)
      obtain ⟨slot, boxed?⟩ := a
      have hstore : c.Speaks capture [.plain .stelem] := .cons ⟨rfl, trivial⟩ speaks_nil
      have hbox : c.Speaks capture
          ((boxed?.map Instruction.box).toList ++ [.plain .stelem]) := by
        cases boxed? with
        | none => exact hstore
        | some t => exact .cons ⟨rfl, .inr ⟨_, ha, rfl⟩⟩ hstore
      rw [Capture.storeCode, List.append_assoc]
      exact .cons ⟨rfl, trivial⟩ (.cons ⟨rfl, trivial⟩ (.cons ⟨rfl, trivial⟩ hbox))
  have hall := store 0 capture.arguments (List.Subset.refl _)
  exact .cons ⟨rfl, trivial⟩ (.cons ⟨rfl, .inl rfl⟩ (.cons ⟨rfl, trivial⟩ hall))

theorem speaks_emitHook (hargs : c.Speaks capture args)
    (h : c.emitHook (c.hook? s) args = some code) : c.Speaks capture code := by
  unfold emitHook at h
  split at h
  · cases h
  · next hook hhook =>
    have hid := id?_of_hook? hhook
    split at h
    · obtain ⟨get, hget, rfl⟩ := Option.map_eq_some_iff.1 h
      exact .cons ⟨rfl, .accessor, hget⟩ (hargs.append (.cons ⟨rfl, s, hid⟩ speaks_nil))
    · cases h
      exact hargs.append (.cons ⟨rfl, s, hid⟩ speaks_nil)

theorem speaks_initCode? {array : SlotId} (h : c.initCode? array = some code) :
    c.Speaks capture code := by
  refine speaks_emitHook (s := .init) ?_ h
  refine .cons ⟨rfl, trivial⟩ (.cons ?_ (.cons ⟨rfl, trivial⟩ speaks_nil))
  cases hget : c.currentMethod? with
  | none => exact ⟨rfl, trivial⟩
  | some get => exact ⟨rfl, .currentMethod, hget⟩

theorem speaks_traceCode? {name : String} {array : SlotId}
    (h : c.traceCode? name array = some code) : c.Speaks capture code := by
  unfold traceCode? at h
  obtain ⟨join, hjoin, h⟩ := Option.bind_eq_some_iff.1 h
  obtain ⟨format, hformat, h⟩ := Option.bind_eq_some_iff.1 h
  obtain ⟨writeLine, hwriteLine, h⟩ := Option.bind_eq_some_iff.1 h
  cases h
  have hcalls : c.Speaks capture [.call join, .call format, .call writeLine] :=
    .cons ⟨rfl, .join, hjoin⟩ (.cons ⟨rfl, .format, hformat⟩
      (.cons ⟨rfl, .writeLine, hwriteLine⟩ speaks_nil))
  exact .cons ⟨rfl, trivial⟩ (.cons ⟨rfl, trivial⟩ (.cons ⟨rfl, trivial⟩ hcalls))

theorem speaks_announceCode (config : WeaveConfig) (name : String) (array : SlotId) :
    c.Speaks capture (c.announceCode config capture name array) := by
  refine Speaks.append ?_ (.getD fun code h => speaks_emitHook (s := .onEntry) speaks_nil h)
  split
  · refine ((speaks_capture array).append ?_).append ?_
    · exact .getD fun code h => speaks_initCode? h
    · refine .getD fun code h => ?_
      split at h
      · exact speaks_traceCode? h
      · cases h
  · exact speaks_nil

theorem speaks_exitCode : c.Speaks capture c.exitCode :=
  .getD fun _ h => speaks_emitHook (s := .onExit) speaks_nil h

theorem speaks_exceptionCode (config : WeaveConfig) (slot : SlotId) :
    c.Speaks capture (c.exceptionCode config slot) := by
  unfold exceptionCode
  split
  · have hslot : c.Speaks capture [.ldloc slot] := .cons ⟨rfl, trivial⟩ speaks_nil
    exact .getD fun code h => speaks_emitHook (s := .onException) hslot h
  · exact speaks_nil

theorem straight_announceCode (c : HookContext) (config : WeaveConfig) (capture : Capture)
    (name : String) (array : SlotId) : Straight (c.announceCode config capture name array) :=
  fun i hi => (speaks_announceCode config name array i hi).next

end HookContext

theorem returnIds_number {n : Nat} {code : List Instruction} (h : ∀ i ∈ code, i.opcode ≠ .ret) :
    returnIds (Body.number n code) = [] := by
  induction code generalizing n with
  | nil => rfl
  | cons i rest ih =>
    have hi : (i.opcode == .ret) = false := beq_false_of_ne (h i List.mem_cons_self)
    rw [Body.number, returnIds, List.filter_cons_of_neg (by simp [hi])]
    exact ih fun j hj => h j (List.mem_cons_of_mem _ hj)

theorem Straight.returnIds_number {n : Nat} {code : List Instruction} (h : Straight code) :
    returnIds (Body.number n code) = [] := by
  refine Interpose.returnIds_number fun i hi hr => ?_
  have hf := h i hi
  rw [hr] at hf
  cases hf

/-! ## Weaving -/

variable {c : HookContext} {config : WeaveConfig} {capture : Capture} {name : String}
  {returnType : Ty} {hooks : WovenHooks} {b woven : Body}

/-- A body that was woven has a layout. -/
theorem layout_of_weave (h : c.weave config capture name returnType b = .ok (hooks, woven)) :
    ∃ L array exception, L.body = b ∧ L.Describes woven ∧
      WovenBody c config capture name returnType hooks L array exception := by
  unfold HookContext.weave at h
  split at h
  · cases h
  · next first hfirst =>
    obtain ⟨⟨anchor, b₁⟩, h₁, h⟩ := bind_eq_ok.1 h
    obtain ⟨rfl, hs₁, hl₁, hh₁⟩ := Body.stream_insertBefore_first hfirst h₁
    obtain ⟨⟨code, before, b₂⟩, h₂, h⟩ := bind_eq_ok.1 h
    obtain ⟨array, slotsA, rfl, harray, hslotsA, hs₂, hh₂, hl₂, rfl⟩ := HookContext.prologue_eq_ok h₂
    obtain ⟨⟨last, b₃⟩, h₃, h⟩ := bind_eq_ok.1 h
    have hs₂' : b₂.stream = [] ++ (b.size, .plain .nop) :: b.stream := hs₂.trans hs₁
    obtain ⟨hs₃, hp₃⟩ := Body.stream_insertAllAfter hs₂' h₃
    obtain ⟨⟨guard, after, b₄⟩, h₄, h⟩ := bind_eq_ok.1 h
    obtain ⟨exception, slotsE, hon, hret, hkeep, hexc, hslotsE, hs₄, hh₄, hl₄, rfl⟩ :=
      HookContext.guardFor_eq_ok h₄
    obtain ⟨⟨region, b₅⟩, h₅, h⟩ := bind_eq_ok.1 h
    cases h
    have hstraight := HookContext.straight_announceCode (c := c) config capture name array
    generalize hcode : c.announceCode config capture name array = code at hs₃ hstraight
    have hsize₂ : b₂.size = b.size + 1 := by
      rw [Body.size, hs₂']
      rfl
    have hsize : b₄.size = b.size + 1 + code.length := by
      rw [Body.size, hs₄, hs₃, List.nil_append, List.length_append, List.length_cons,
        Body.length_number, Body.size]
      omega
    have hstream : b₄.stream =
        ((b.size, .plain .nop) :: Body.number (b.size + 1) code) ++ b.stream := by
      rw [hs₄, hs₃, hsize₂]
      rfl
    have hreturns : returnIds ((b.size, .plain .nop) :: Body.number (b.size + 1) code) = [] :=
      hstraight.returnIds_number
    obtain ⟨result?, slotsR, exit, hexit, hvoid, hresult, hslotsR, hs, hh, hl, -⟩ :=
      Guard.wrap_eq_ok hstream hreturns h₅
    rw [hsize] at hexit hs hh
    have hlocals : woven.locals.toList = b.locals.toList ++ (slotsA ++ slotsE ++ slotsR) := by
      rw [hl, hl₄, hp₃.locals, hl₂, hl₁]
      simp only [List.append_assoc]
    have hlen₂ : b₃.locals.size = b.locals.size + slotsA.length := by
      rw [hp₃.locals, ← Array.length_toList, hl₂, hl₁, List.length_append, Array.length_toList]
    have hlen₄ : b₄.locals.size = b.locals.size + slotsA.length + slotsE.length := by
      rw [← Array.length_toList, hl₄, List.length_append, Array.length_toList, hlen₂]
    subst hexit
    refine ⟨⟨b, code, guard, result?, slotsA ++ slotsE ++ slotsR⟩, array, exception, rfl,
      ⟨hs, ?_, hlocals⟩, ?_⟩
    · rw [hh, hh₄, hp₃.handlers, hh₂, hh₁]
      rfl
    · refine ⟨?_, hcode.symm, hon, hret, hkeep, hvoid, fun hc => ?_, fun he => ?_,
        fun slot hr => ?_, ?_, rfl, rfl, rfl, rfl, rfl⟩
      · intro hn
        rw [Body.first?, Body.ids, hn] at hfirst
        cases hfirst
      · have hslot := harray hc
        rw [if_pos hc] at hslotsA
        rw [hl₁] at hslot
        simp only [Layout.Owns, hslotsA, List.length_append, List.length_singleton]
        omega
      · have hslot := hexc he
        have hwanted : (config.notifyException && c.onException?.isSome) = true := by
          refine Decidable.byContradiction fun hn => ?_
          rw [hkeep, if_neg hn] at he
          cases he
        rw [if_pos hwanted] at hslotsE
        simp only [Layout.Owns, hslotsE, List.length_append, List.length_singleton]
        omega
      · have hslot := hresult slot hr
        have hwanted : ¬ returnType.isVoid = true := by
          have hr : result? = some slot := hr
          rw [hr, Option.isSome_some] at hvoid
          simpa using hvoid
        rw [if_neg hwanted] at hslotsR
        simp only [Layout.Owns, hslotsR, List.length_append, List.length_singleton]
        omega
      · rw [hslotsA, hslotsE, hslotsR]
        rfl

end Interpose
