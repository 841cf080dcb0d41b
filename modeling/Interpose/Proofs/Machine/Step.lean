import Interpose.Machine.Frame
import Interpose.Proofs.Verify.Effect
import Interpose.Proofs.Verify.Walk
/-!
# The shape of a step

What an instruction does to the size of its frame: where it goes on, how many values it
takes and puts, and for which reasons it ends the run with a fault. The values
themselves play no part.

Results:
* `holds_step`: the shape of every instruction's step (`StepShape`), and the reasons for
  its faults (`Cause`).
-/
namespace Interpose

/-! ## Results of steps that may trap -/

section

variable {α β : Type} {x : Except Trap α} {f : α → Except Trap β} {P : α → Prop} {Q : β → Prop}
  {E : MachineFault → Prop}

/-- `P` holds of the result, or `E` of the fault, if there is one of them. -/
def Holds (x : Except Trap α) (P : α → Prop) (E : MachineFault → Prop) : Prop :=
  match x with
  | .ok a => P a
  | .error (.failed (.fault e)) => E e
  | .error _ => True

theorem Holds.bind (h : Holds x (fun a => Holds (f a) Q E) E) : Holds (x >>= f) Q E := by
  unfold Holds at h
  split at h
  · exact h
  · exact h
  · next hne =>
    show Holds (Except.error _) Q E
    unfold Holds
    split
    · next he => cases he
    · next he => cases he; exact absurd rfl (hne _)
    · trivial

end

/-! ## Shapes and causes -/

/-- Is it the fault of a value of the wrong type? -/
def Mismatch.IsOfValue : Mismatch → Prop
  | .noArgument _ | .noLocal _ | .wrongOperand _ _ => False
  | _ => True

/-- Why the instruction `i` ends the run with a fault in the frame `f`. -/
inductive Cause (c : VerifyContext) (f : Frame) (i : Instruction) : MachineFault → Prop
  | underflow (h : f.stack.length < (i.effect c.method c.imports).1) :
    Cause c f i (.stackUnderflow f.pc)
  | noArgument {index : UInt16} (ho : i.operand = .argument index)
    (h : f.args.length ≤ index.toNat) : Cause c f i (.typeMismatch f.pc (.noArgument index))
  | noLocal {id : SlotId} (ho : i.operand = .slot id) (h : f.locals.length ≤ id.toNat) :
    Cause c f i (.typeMismatch f.pc (.noLocal id))
  | wrongOperand (h : i.opcode.operandKind ≠ i.operand.kind) :
    Cause c f i (.typeMismatch f.pc (.wrongOperand i.opcode i.operand))
  | target {e : CodeError}
    (hf : i.opcode.flow = .branch ∨ i.opcode.flow = .condBranch ∨ i.opcode.flow = .leave)
    (h : c.target? i = none) : Cause c f i (.code e)
  | member {id : MemberId} (ho : i.operand = .member id) (h : c.imports.get? id = none) :
    Cause c f i (.code (.unknownMember id))
  | value {pos : Nat} {detail : Mismatch} (h : detail.IsOfValue) :
    Cause c f i (.typeMismatch pos detail)
  | noException (ho : i.opcode = .rethrow) : Cause c f i (.noActiveException f.pc)

/-- The frame `g` goes on from `f` after the instruction `i`. -/
structure GoesOn (c : VerifyContext) (f : Frame) (i : Instruction) (g : Frame) : Prop where
  args : g.args.length = f.args.length
  locals : g.locals.length = f.locals.length
  edge : c.Edge f.pc i g.pc
  stack : i.opcode.flow ≠ .leave → (i.effect c.method c.imports).1 ≤ f.stack.length ∧
    g.stack.length =
      f.stack.length - (i.effect c.method c.imports).1 + (i.effect c.method c.imports).2
  left : i.opcode.flow = .leave → g.stack = []
  handling : i.opcode.flow ≠ .leave → g.handling = f.handling
  dropped : i.opcode.flow = .leave → g.handling = f.dropHandling.handling

/-- The frame `g` waits at the call `i` for the value of the call. -/
structure Awaits (c : VerifyContext) (f : Frame) (i : Instruction) (keeps : Bool) (g : Frame) :
    Prop where
  args : g.args = f.args
  locals : g.locals = f.locals
  pc : g.pc = f.pc
  flow : i.opcode.flow = .next
  enough : (i.effect c.method c.imports).1 ≤ f.stack.length
  stack : g.stack.length = f.stack.length - (i.effect c.method c.imports).1
  kept : (i.effect c.method c.imports).2 = if keeps then 1 else 0
  handling : g.handling = f.handling

/-- What a step of the instruction `i` looks like. -/
def StepShape (c : VerifyContext) (f : Frame) (i : Instruction) : Step → Prop
  | .next g _ => GoesOn c f i g
  | .ret _ => i.opcode = .ret
  | .call _ _ keeps g => Awaits c f i keeps g

/-- Where the instructions of a routine are looked up. -/
def Routine.context (r : Routine) (imports : ImportTable) : VerifyContext :=
  ⟨r.method, r.body, imports, r.code, r.regions⟩

namespace Frame

/-- The frame `g` is `f` with the `k` topmost values taken. -/
structure Popped (k : Nat) (f g : Frame) : Prop where
  args : g.args = f.args
  locals : g.locals = f.locals
  pc : g.pc = f.pc
  enough : k ≤ f.stack.length
  stack : g.stack.length = f.stack.length - k
  handling : g.handling = f.handling

theorem popped_zero (f : Frame) : Popped 0 f f := ⟨rfl, rfl, rfl, Nat.zero_le _, rfl, rfl⟩

section

variable {c : VerifyContext} {f g : Frame} {i : Instruction} {h : Heap} {k n q : Nat}
  {β : Type} {P : β → Prop}

/-- Takes one more value of the `n` that the instruction takes. -/
theorem Popped.pop (hg : Popped k f g) (he : (i.effect c.method c.imports).1 = n) (hk : k < n)
    {F : Value × Frame → Except Trap β}
    (hF : ∀ v g', Popped (k + 1) f g' → Holds (F (v, g')) P (Cause c f i)) :
    Holds (g.pop >>= F) P (Cause c f i) := by
  apply Holds.bind
  have hlen := hg.stack
  have henough := hg.enough
  unfold Frame.pop
  split
  · next hs =>
    rw [hs, List.length_nil] at hlen
    rw [hg.pc]
    exact .underflow (by omega)
  · next v rest hs =>
    rw [hs, List.length_cons] at hlen
    refine hF v _ ⟨hg.args, hg.locals, hg.pc, by omega, ?_, hg.handling⟩
    show rest.length = _
    omega

theorem Popped.popMany (hg : Popped 0 f g) (he : (i.effect c.method c.imports).1 = n)
    {F : List Value × Frame → Except Trap β}
    (hF : ∀ vs g', Popped n f g' → Holds (F (vs, g')) P (Cause c f i)) :
    Holds (g.popMany n >>= F) P (Cause c f i) := by
  apply Holds.bind
  have hlen := hg.stack
  unfold Frame.popMany
  split
  · next hs =>
    rw [hg.pc]
    exact .underflow (by omega)
  · next hs =>
    refine hF _ _ ⟨hg.args, hg.locals, hg.pc, by omega, ?_, hg.handling⟩
    simp only [List.length_drop]
    omega

/-- Goes on to the next instruction, all values taken and put. -/
theorem goesOn_next (ha : g.args.length = f.args.length) (hl : g.locals.length = f.locals.length)
    (hpc : g.pc = f.pc) (hh : g.handling = f.handling)
    (hf : i.opcode.flow = .next ∨ i.opcode.flow = .condBranch)
    (he : i.effect c.method c.imports = (k, q)) (hk : k ≤ f.stack.length)
    (hs : g.stack.length = f.stack.length - k + q) : GoesOn c f i g.advance := by
  have hflow : i.opcode.flow ≠ .leave := fun hn => by simp [hn] at hf
  refine ⟨ha, hl, ?_, fun _ => ?_, fun hn => absurd hn hflow, fun _ => hh,
    fun hn => absurd hn hflow⟩
  · show c.Edge f.pc i (g.pc + 1)
    rw [hpc]
    exact .next hf
  · rw [he]
    exact ⟨hk, hs⟩

theorem Popped.next (hg : Popped k f g)
    (hf : i.opcode.flow = .next ∨ i.opcode.flow = .condBranch)
    (he : i.effect c.method c.imports = (k, 0)) : GoesOn c f i g.advance :=
  goesOn_next (by rw [hg.args]) (by rw [hg.locals]) hg.pc hg.handling hf he hg.enough hg.stack

theorem Popped.give (hg : Popped k f g) (hf : i.opcode.flow = .next)
    (he : i.effect c.method c.imports = (k, 1)) (v : Value) :
    Holds (g.give h v) (StepShape c f i) (Cause c f i) :=
  goesOn_next (by rw [← hg.args]; rfl) (by rw [← hg.locals]; rfl) hg.pc hg.handling (.inl hf) he
    hg.enough (congrArg (· + 1) hg.stack)

theorem Popped.jump {t : Nat} (hg : Popped k f g)
    (hf : i.opcode.flow = .branch ∨ i.opcode.flow = .condBranch) (ht : c.target? i = some t)
    (he : i.effect c.method c.imports = (k, 0)) : GoesOn c f i (g.jump t) := by
  have hflow : i.opcode.flow ≠ .leave := fun hn => by simp [hn] at hf
  refine ⟨congrArg _ hg.args, congrArg _ hg.locals, ?_, fun _ => ?_, fun hn => absurd hn hflow,
    fun _ => hg.handling, fun hn => absurd hn hflow⟩
  · refine .target ?_ ht
    rcases hf with hf | hf
    · exact .inl hf
    · exact .inr (.inl hf)
  · rw [he]
    exact ⟨hg.enough, hg.stack⟩

end

/-! ## Faults of values -/

/-- Does a computation fault only over the types of its values? -/
def FaultsOnValues {α : Type} (x : Except Trap α) : Prop :=
  Holds x (fun _ => True) fun e => ∃ pos detail, detail.IsOfValue ∧ e = .typeMismatch pos detail

theorem FaultsOnValues.bind {α β : Type} {x : Except Trap α} {F : α → Except Trap β}
    {P : β → Prop} {c : VerifyContext} {f : Frame} {i : Instruction} (hx : FaultsOnValues x)
    (hF : ∀ a, Holds (F a) P (Cause c f i)) : Holds (x >>= F) P (Cause c f i) := by
  apply Holds.bind
  unfold FaultsOnValues at hx
  cases x with
  | ok a => exact hF a
  | error t =>
    cases t with
    | raise e => trivial
    | failed failure =>
      cases failure with
      | thrown v => trivial
      | fault e =>
        obtain ⟨pos, detail, hd, rfl⟩ := hx
        exact .value hd

theorem faultsOnValues_mapError {α : Type} (x : Except Raise α) :
    FaultsOnValues (x.mapError Trap.raise) := by
  cases x <;> trivial

theorem faultsOnValues_mismatch {α : Type} (f : Frame) {detail : Mismatch}
    (hd : detail.IsOfValue) : FaultsOnValues (f.mismatch detail : Except Trap α) :=
  ⟨f.pc, detail, hd, rfl⟩

theorem faultsOnValues_arith (f : Frame) (h : Heap) (op : Opcode) (a b : Value) :
    FaultsOnValues (f.arith h op a b) := by
  unfold arith
  split
  · exact faultsOnValues_mapError _
  · exact faultsOnValues_mapError _
  · trivial
  · exact faultsOnValues_mismatch f trivial

theorem faultsOnValues_negate (f : Frame) (h : Heap) (v : Value) :
    FaultsOnValues (f.negate h v) := by
  unfold negate
  split
  · trivial
  · trivial
  · trivial
  · exact faultsOnValues_mismatch f trivial

theorem faultsOnValues_elementsOf (h : Heap) (v : Value) : FaultsOnValues (elementsOf h v) := by
  unfold elementsOf
  split
  · trivial
  · trivial
  · exact ⟨0, .notArray _, trivial, rfl⟩

theorem faultsOnValues_indexOf (index : Value) (size : Nat) :
    FaultsOnValues (indexOf index size) := by
  unfold indexOf
  split
  · split <;> trivial
  · trivial

theorem faultsOnValues_lengthOf (f : Frame) (v : Value) : FaultsOnValues (f.lengthOf v) := by
  unfold lengthOf
  split
  · split <;> trivial
  · exact faultsOnValues_mismatch f trivial

theorem faultsOnValues_store (f : Frame) (h : Heap) (array index v : Value) :
    FaultsOnValues (f.store h array index v) := by
  unfold store
  split
  · unfold indexOf
    split
    · split <;> trivial
    · trivial
  · trivial
  · exact faultsOnValues_mismatch f trivial

theorem faultsOnValues_unbox (v : Value) : FaultsOnValues (unbox v) := by
  unfold unbox
  split <;> trivial

/-! ## Operands -/

section

variable {c : VerifyContext} {f g : Frame} {i : Instruction} {h : Heap} {k : Nat}
  {β : Type} {P : β → Prop}

theorem Popped.wrongOperand (hg : Popped 0 f g) (hk : i.opcode.operandKind ≠ i.operand.kind) :
    Holds (g.wrongOperand i) P (Cause c f i) := by
  unfold Frame.wrongOperand mismatch
  rw [hg.pc]
  exact .wrongOperand hk

theorem Popped.loadArg (hg : Popped 0 f g) {index : UInt16} (ho : i.operand = .argument index)
    {F : Value → Except Trap β} (hF : ∀ v, Holds (F v) P (Cause c f i)) :
    Holds (g.loadArg index >>= F) P (Cause c f i) := by
  apply Holds.bind
  unfold Frame.loadArg
  split
  · exact hF _
  · next hn =>
    unfold mismatch
    rw [hg.pc]
    rw [List.getElem?_eq_none_iff, hg.args] at hn
    exact .noArgument ho hn

theorem Popped.loadSlot (hg : Popped 0 f g) {id : SlotId} (ho : i.operand = .slot id)
    {F : Value → Except Trap β} (hF : ∀ v, Holds (F v) P (Cause c f i)) :
    Holds (g.loadSlot id >>= F) P (Cause c f i) := by
  apply Holds.bind
  unfold Frame.loadSlot
  split
  · exact hF _
  · next hn =>
    unfold mismatch
    rw [hg.pc]
    rw [List.getElem?_eq_none_iff, hg.locals] at hn
    exact .noLocal ho hn

theorem Popped.storeArg (hg : Popped k f g) {index : UInt16} (ho : i.operand = .argument index)
    (v : Value) {F : Frame → Except Trap β}
    (hF : ∀ g' : Frame, g'.args.length = f.args.length → g'.locals.length = f.locals.length →
      g'.pc = f.pc → g'.stack = g.stack → g'.handling = f.handling → Holds (F g') P (Cause c f i)) :
    Holds (g.storeArg index v >>= F) P (Cause c f i) := by
  apply Holds.bind
  unfold Frame.storeArg
  split
  · refine hF _ ?_ (congrArg _ hg.locals) hg.pc rfl hg.handling
    rw [← hg.args]
    exact List.length_set
  · next hn =>
    unfold mismatch
    rw [hg.pc]
    rw [hg.args] at hn
    exact .noArgument ho (Nat.le_of_not_lt hn)

theorem Popped.storeSlot (hg : Popped k f g) {id : SlotId} (ho : i.operand = .slot id)
    (v : Value) {F : Frame → Except Trap β}
    (hF : ∀ g' : Frame, g'.args.length = f.args.length → g'.locals.length = f.locals.length →
      g'.pc = f.pc → g'.stack = g.stack → g'.handling = f.handling → Holds (F g') P (Cause c f i)) :
    Holds (g.storeSlot id v >>= F) P (Cause c f i) := by
  apply Holds.bind
  unfold Frame.storeSlot
  split
  · refine hF _ (congrArg _ hg.args) ?_ hg.pc rfl hg.handling
    rw [← hg.locals]
    exact List.length_set
  · next hn =>
    unfold mismatch
    rw [hg.pc]
    rw [hg.locals] at hn
    exact .noLocal ho (Nat.le_of_not_lt hn)

theorem holds_target {r : Routine} {imports : ImportTable}
    (hf : i.opcode.flow = .branch ∨ i.opcode.flow = .condBranch ∨ i.opcode.flow = .leave)
    {F : Nat → Except Trap β}
    (hF : ∀ t, (r.context imports).target? i = some t →
      Holds (F t) P (Cause (r.context imports) f i)) :
    Holds (r.target i >>= F) P (Cause (r.context imports) f i) := by
  apply Holds.bind
  unfold Routine.target
  cases ht : i.target? with
  | none => exact Cause.target hf (by rw [VerifyContext.target?, ht]; rfl)
  | some id =>
    have htarget : (r.context imports).target? i = r.body.position? id := by
      rw [VerifyContext.target?, ht]
      rfl
    dsimp only
    unfold Body.anchor
    cases hp : r.body.position? id with
    | none => exact Cause.target hf (htarget.trans hp)
    | some t => exact hF t (htarget.trans hp)

end

/-! ## Steps -/

section

variable (f : Frame) (r : Routine) (imports : ImportTable) (h : Heap) (operand : Operand)

theorem holds_beginCall {op : Opcode} (ho : op = .call ∨ op = .callvirt ∨ op = .newobj) :
    Holds (f.beginCall imports ⟨op, operand⟩) (StepShape (r.context imports) f ⟨op, operand⟩)
      (Cause (r.context imports) f ⟨op, operand⟩) := by
  have hkind : op.operandKind = .member := by rcases ho with rfl | rfl | rfl <;> rfl
  have hflow : op.flow = .next := by rcases ho with rfl | rfl | rfl <;> rfl
  unfold beginCall
  split
  · next id hid =>
    obtain rfl : operand = .member id := hid
    split
    · next hn => exact .member rfl hn
    · next member hm =>
      have heff := effect_of_member (m := r.method) ho hm
      refine (popped_zero f).popMany (n := _) (by rw [Routine.context, heff]) fun vs g hg => ?_
      refine ⟨hg.args, hg.locals, hg.pc, hflow, ?_, ?_, ?_, hg.handling⟩
      · rw [Routine.context, heff]
        exact hg.enough
      · rw [Routine.context, heff]
        exact hg.stack
      · rw [Routine.context, heff]
        rfl
  · next hn =>
    refine (popped_zero f).wrongOperand ?_
    rw [hkind]
    cases operand with
    | member id => exact absurd rfl (hn id)
    | _ => intro hk; cases hk

theorem holds_branchIf {op : Opcode} (hf : op.flow = .condBranch)
    (he : op.fixedEffect? = some (1, 0)) (wanted : Bool) :
    Holds (f.branchIf r h ⟨op, operand⟩ wanted) (StepShape (r.context imports) f ⟨op, operand⟩)
      (Cause (r.context imports) f ⟨op, operand⟩) := by
  have heff : (⟨op, operand⟩ : Instruction).effect r.method imports = (1, 0) := by
    unfold Instruction.effect
    rw [he]
    rfl
  refine (popped_zero f).pop (n := 1) (by rw [Routine.context, heff]) Nat.zero_lt_one
    fun v g hg => ?_
  dsimp only
  split
  · refine holds_target (.inr (.inl hf)) fun t ht => ?_
    exact hg.jump (.inr hf) ht heff
  · exact hg.next (.inr hf) heff

/-- The shape of a step. Each case takes its values, computes, and goes on. -/
theorem holds_step (i : Instruction) :
    Holds (f.step r imports h i) (StepShape (r.context imports) f i)
      (Cause (r.context imports) f i) := by
  obtain ⟨op, operand⟩ := i
  have h0 := popped_zero f
  cases op with
  | nop => exact h0.next (.inl rfl) rfl
  | ldnull => exact h0.give rfl rfl .null
  | ldcI4 =>
    cases operand with
    | int32 v => exact h0.give rfl rfl _
    | _ => exact h0.wrongOperand nofun
  | ldcI8 =>
    cases operand with
    | int64 v => exact h0.give rfl rfl _
    | _ => exact h0.wrongOperand nofun
  | ldcR8 =>
    cases operand with
    | float64 v => exact h0.give rfl rfl _
    | _ => exact h0.wrongOperand nofun
  | ldstr =>
    cases operand with
    | text s => exact h0.give rfl rfl _
    | _ => exact h0.wrongOperand nofun
  | ldarg =>
    cases operand with
    | argument index => exact h0.loadArg rfl fun v => h0.give rfl rfl v
    | _ => exact h0.wrongOperand nofun
  | starg =>
    cases operand with
    | argument index =>
      refine h0.pop (n := 1) rfl (by decide) fun v g hg => ?_
      refine hg.storeArg rfl v fun g' ha hl hpc hs hh => ?_
      exact goesOn_next ha hl hpc hh (.inl rfl) rfl hg.enough (by rw [hs, hg.stack]; rfl)
    | _ => exact h0.wrongOperand nofun
  | ldloc =>
    cases operand with
    | slot id => exact h0.loadSlot rfl fun v => h0.give rfl rfl v
    | _ => exact h0.wrongOperand nofun
  | stloc =>
    cases operand with
    | slot id =>
      refine h0.pop (n := 1) rfl (by decide) fun v g hg => ?_
      refine hg.storeSlot rfl v fun g' ha hl hpc hs hh => ?_
      exact goesOn_next ha hl hpc hh (.inl rfl) rfl hg.enough (by rw [hs, hg.stack]; rfl)
    | _ => exact h0.wrongOperand nofun
  | dup =>
    refine h0.pop (n := 1) rfl (by decide) fun v g hg => ?_
    exact goesOn_next (congrArg _ hg.args) (congrArg _ hg.locals) hg.pc hg.handling (.inl rfl) rfl
      hg.enough (congrArg (· + 2) hg.stack)
  | pop =>
    refine h0.pop (n := 1) rfl (by decide) fun v g hg => ?_
    exact hg.next (.inl rfl) rfl
  | add | sub | mul | div | rem | clt | cgt =>
    refine h0.pop (n := 2) rfl (by decide) fun b g hg => ?_
    refine hg.pop (n := 2) rfl (by decide) fun a g hg => ?_
    exact (faultsOnValues_arith g h _ a b).bind fun v => hg.give rfl rfl v
  | ceq =>
    refine h0.pop (n := 2) rfl (by decide) fun b g hg => ?_
    refine hg.pop (n := 2) rfl (by decide) fun a g hg => ?_
    exact hg.give rfl rfl _
  | neg =>
    refine h0.pop (n := 1) rfl (by decide) fun v g hg => ?_
    exact (faultsOnValues_negate g h v).bind fun v => hg.give rfl rfl v
  | br => exact holds_target (.inl rfl) fun t ht => h0.jump (.inl rfl) ht rfl
  | brtrue => exact holds_branchIf f r imports h operand rfl rfl true
  | brfalse => exact holds_branchIf f r imports h operand rfl rfl false
  | leave =>
    refine holds_target (.inr (.inr rfl)) fun t ht => ?_
    exact ⟨rfl, rfl, .target (.inr (.inr rfl)) ht, fun hn => absurd rfl hn, fun _ => rfl,
      fun hn => absurd rfl hn, fun _ => rfl⟩
  | ret =>
    unfold step
    dsimp only
    split
    · exact rfl
    · next hv =>
      refine h0.pop (n := 1) ?_ (by decide) fun v g hg => rfl
      show (if r.method.returnType.isVoid then 0 else 1) = 1
      rw [if_neg hv]
  | throw =>
    refine h0.pop (n := 1) rfl (by decide) fun v g hg => ?_
    dsimp only
    split <;> trivial
  | rethrow =>
    unfold step
    dsimp only
    split
    · exact Cause.noException rfl
    · trivial
  | call => exact holds_beginCall f r imports operand (.inl rfl)
  | callvirt => exact holds_beginCall f r imports operand (.inr (.inl rfl))
  | newobj => exact holds_beginCall f r imports operand (.inr (.inr rfl))
  | newarr =>
    cases operand with
    | ty element =>
      refine h0.pop (n := 1) rfl (by decide) fun v g hg => ?_
      exact (faultsOnValues_lengthOf g v).bind fun n => hg.give rfl rfl _
    | _ => exact h0.wrongOperand nofun
  | ldlen =>
    refine h0.pop (n := 1) rfl (by decide) fun v g hg => ?_
    exact (faultsOnValues_elementsOf h v).bind fun items => hg.give rfl rfl _
  | ldelem =>
    refine h0.pop (n := 2) rfl (by decide) fun index g hg => ?_
    refine hg.pop (n := 2) rfl (by decide) fun array g hg => ?_
    refine (faultsOnValues_elementsOf h array).bind fun items => ?_
    exact (faultsOnValues_indexOf index items.size).bind fun n => hg.give rfl rfl _
  | stelem =>
    refine h0.pop (n := 3) rfl (by decide) fun v g hg => ?_
    refine hg.pop (n := 3) rfl (by decide) fun index g hg => ?_
    refine hg.pop (n := 3) rfl (by decide) fun array g hg => ?_
    exact (faultsOnValues_store g h array index v).bind fun heap => hg.next (.inl rfl) rfl
  | box =>
    cases operand with
    | ty t =>
      refine h0.pop (n := 1) rfl (by decide) fun v g hg => ?_
      dsimp only
      split
      · exact hg.give rfl rfl _
      · exact hg.give rfl rfl _
    | _ => exact h0.wrongOperand nofun
  | unbox =>
    cases operand with
    | ty t =>
      refine h0.pop (n := 1) rfl (by decide) fun v g hg => ?_
      exact (faultsOnValues_unbox v).bind fun inner => hg.give rfl rfl _
    | _ => exact h0.wrongOperand nofun

end

end Frame

end Interpose
