import Interpose.Proofs.Except
import Interpose.Proofs.Machine.Run
/-!
# Straight-line execution

How an activation goes on by itself, from instruction to instruction and through calls
of library members, which return at once. Its callers play no part. The calls that it
makes on its way are listed.

Results:
* `steps_of_proceeds`: the machine takes these steps, whatever the callers.
* `proceeds_call`: a call of a library member.
* `proceeds_give`: an instruction that only puts a value on the stack.
-/
namespace Interpose

/-- A call that an activation makes, and the heap at that moment. -/
structure Call where
  /-- The position of the instruction. -/
  pos : Nat
  member : MemberRef
  args : List Value
  heap : Heap

/-- The frame in which a call goes on that gave a value. -/
def Frame.resumed (f : Frame) (keeps : Bool) (v : Value) : Frame :=
  (if keeps then f.push v else f).advance

namespace Machine

/-- An activation goes on from one frame and world to others, and makes these calls. -/
inductive Proceeds (vm : Machine) (r : Routine) :
    Frame → World → List Call → Frame → World → Prop
  | refl (f : Frame) (w : World) : Proceeds vm r f w [] f w
  | next {f g f' : Frame} {w w' : World} {i : Instruction} {heap : Heap} {log : List Call}
    (hi : r.code[f.pc]? = some i)
    (hs : f.step r vm.module.imports w.heap i = .ok (.next g heap)) (hpc : g.pc = f.pc + 1)
    (rest : Proceeds vm r g { w with heap := heap } log f' w') : Proceeds vm r f w log f' w'
  | call {f g f' : Frame} {w w₁ w' : World} {i : Instruction} {member : MemberRef}
    {args : List Value} {keeps : Bool} {library : String} {v : Value} {log : List Call}
    (hi : r.code[f.pc]? = some i)
    (hs : f.step r vm.module.imports w.heap i = .ok (.call member args keeps g))
    (hpc : g.pc = f.pc) (hscope : member.scope = .library library)
    (hc : vm.host.call w member args r.describe = (.ok v, w₁))
    (rest : Proceeds vm r (g.resumed keeps v) w₁ log f' w') :
    Proceeds vm r f w (⟨f.pc, member, args, w.heap⟩ :: log) f' w'

variable {vm : Machine} {r : Routine} {f f' f'' : Frame} {w w' w'' : World}
  {log log' : List Call}

theorem Proceeds.trans (h : Proceeds vm r f w log f' w') (h' : Proceeds vm r f' w' log' f'' w'') :
    Proceeds vm r f w (log ++ log') f'' w'' := by
  induction h with
  | refl f w => exact h'
  | next hi hs hpc _ ih => exact .next hi hs hpc (ih h')
  | call hi hs hpc hscope hc _ ih => exact .call hi hs hpc hscope hc (ih h')

theorem resumed_pc (f : Frame) (keeps : Bool) (v : Value) : (f.resumed keeps v).pc = f.pc + 1 := by
  cases keeps <;> rfl

/-- The positions on the way lie between its ends. -/
theorem Proceeds.bounds (h : Proceeds vm r f w log f' w') :
    f.pc ≤ f'.pc ∧ ∀ c ∈ log, f.pc ≤ c.pos ∧ c.pos < f'.pc := by
  induction h with
  | refl f w => exact ⟨Nat.le_refl _, fun c hc => absurd hc List.not_mem_nil⟩
  | next hi hs hpc _ ih =>
    refine ⟨by omega, fun c hc => ?_⟩
    have := ih.2 c hc
    omega
  | call hi hs hpc hscope hc _ ih =>
    rw [resumed_pc] at ih
    refine ⟨by omega, fun c hc => ?_⟩
    rcases List.mem_cons.1 hc with rfl | hc
    · dsimp only
      omega
    · have := ih.2 c hc
      omega

theorem step_of_next {g : Frame} {i : Instruction} {heap : Heap} (hi : r.code[f.pc]? = some i)
    (hs : f.step r vm.module.imports w.heap i = .ok (.next g heap)) (callers : List Caller) :
    vm.step ⟨⟨r, f⟩, callers, w⟩ = .running ⟨⟨r, g⟩, callers, { w with heap := heap }⟩ := by
  unfold step
  dsimp only
  rw [hi]
  dsimp only
  rw [hs]

theorem step_of_call {g : Frame} {i : Instruction} {member : MemberRef} {args : List Value}
    {keeps : Bool} {library : String} {v : Value} (hi : r.code[f.pc]? = some i)
    (hs : f.step r vm.module.imports w.heap i = .ok (.call member args keeps g))
    (hscope : member.scope = .library library)
    (hc : vm.host.call w member args r.describe = (.ok v, w')) (callers : List Caller) :
    vm.step ⟨⟨r, f⟩, callers, w⟩ = .running ⟨⟨r, g.resumed keeps v⟩, callers, w'⟩ := by
  unfold step
  dsimp only
  rw [hi]
  dsimp only
  rw [hs]
  dsimp only
  unfold Machine.call
  rw [hscope]
  dsimp only
  rw [hc]
  rfl

/-- The machine takes these steps, whatever the callers. -/
theorem steps_of_proceeds (h : Proceeds vm r f w log f' w') (callers : List Caller) :
    vm.Steps ⟨⟨r, f⟩, callers, w⟩ ⟨⟨r, f'⟩, callers, w'⟩ := by
  induction h with
  | refl f w => exact .refl _
  | next hi hs _ _ ih => exact .next (step_of_next hi hs callers) ih
  | call hi hs _ hscope hc _ ih => exact .next (step_of_call hi hs hscope hc callers) ih

/-! ## Single instructions -/

section

variable {g : Frame} {i : Instruction} {heap : Heap}

theorem proceeds_next (hi : r.code[f.pc]? = some i)
    (hs : f.step r vm.module.imports w.heap i = .ok (.next g heap)) (hpc : g.pc = f.pc + 1) :
    Proceeds vm r f w [] g { w with heap := heap } := .next hi hs hpc (.refl _ _)

/-- An instruction that only puts a value on the stack. -/
theorem proceeds_give {v : Value} (hi : r.code[f.pc]? = some i)
    (hs : f.step r vm.module.imports w.heap i = f.give w.heap v) :
    Proceeds vm r f w [] (f.push v).advance w := proceeds_next hi hs rfl

theorem proceeds_nop (hi : r.code[f.pc]? = some (.plain .nop)) :
    Proceeds vm r f w [] f.advance w := proceeds_next hi rfl rfl

theorem proceeds_ldnull (hi : r.code[f.pc]? = some (.plain .ldnull)) :
    Proceeds vm r f w [] (f.push .null).advance w := proceeds_give hi rfl

theorem proceeds_ldcI4 {n : Int32} (hi : r.code[f.pc]? = some (.ldcI4 n)) :
    Proceeds vm r f w [] (f.push (.int32 n)).advance w := proceeds_give hi rfl

theorem proceeds_ldstr {s : String} (hi : r.code[f.pc]? = some (.ldstr s)) :
    Proceeds vm r f w [] (f.push (.text s)).advance w := proceeds_give hi rfl

theorem proceeds_ldarg {index : UInt16} {v : Value} (hi : r.code[f.pc]? = some (.ldarg index))
    (hv : f.args[index.toNat]? = some v) :
    Proceeds vm r f w [] (f.push v).advance w := by
  have hload : f.loadArg index = .ok v := by
    unfold Frame.loadArg
    rw [hv]
  exact proceeds_next hi (bind_eq_ok.2 ⟨v, hload, rfl⟩) rfl

theorem proceeds_ldloc {slot : SlotId} {v : Value} (hi : r.code[f.pc]? = some (.ldloc slot))
    (hv : f.locals[slot.toNat]? = some v) :
    Proceeds vm r f w [] (f.push v).advance w := by
  have hload : f.loadSlot slot = .ok v := by
    unfold Frame.loadSlot
    rw [hv]
  exact proceeds_next hi (bind_eq_ok.2 ⟨v, hload, rfl⟩) rfl

variable {v : Value} {rest : List Value}

theorem pop_eq_ok (hs : f.stack = v :: rest) : f.pop = .ok (v, { f with stack := rest }) := by
  unfold Frame.pop
  rw [hs]

theorem proceeds_stloc {slot : SlotId} (hi : r.code[f.pc]? = some (.stloc slot))
    (hs : f.stack = v :: rest) (hl : slot.toNat < f.locals.length) :
    Proceeds vm r f w []
      { f with locals := f.locals.set slot.toNat v, stack := rest, pc := f.pc + 1 } w := by
  have hstore : Frame.storeSlot { f with stack := rest } slot v =
      .ok { f with locals := f.locals.set slot.toNat v, stack := rest } := if_pos hl
  exact proceeds_next hi (bind_eq_ok.2 ⟨_, pop_eq_ok hs, bind_eq_ok.2 ⟨_, hstore, rfl⟩⟩) rfl

theorem proceeds_pop (hi : r.code[f.pc]? = some (.plain .pop)) (hs : f.stack = v :: rest) :
    Proceeds vm r f w [] { f with stack := rest, pc := f.pc + 1 } w :=
  proceeds_next hi (bind_eq_ok.2 ⟨_, pop_eq_ok hs, rfl⟩) rfl

theorem step_leave {target : InstructionId} {pos : Nat}
    (hi : r.code[f.pc]? = some (.leave target)) (hp : r.body.anchor target = .ok pos)
    (callers : List Caller) :
    vm.step ⟨⟨r, f⟩, callers, w⟩ =
      .running ⟨⟨r, { f.dropHandling with stack := [] }.jump pos⟩, callers, w⟩ := by
  have ht : r.target (.leave target) = .ok pos := mapError_eq_ok.2 hp
  exact step_of_next hi (bind_eq_ok.2 ⟨_, ht, rfl⟩) callers

/-- The latest of the exceptions being handled is thrown again. -/
theorem step_rethrow {imports : ImportTable} {active : Handling} {inner : List Handling}
    (hh : f.handling = active :: inner) :
    f.step r imports heap (.plain .rethrow) = .error (.failed (.thrown active.exception)) := by
  simp only [Frame.step, Instruction.plain, hh]

/-! ### Returns -/

section

variable {imports : ImportTable} (hret : i.opcode = .ret)
include hret

theorem step_ret_void (hv : r.method.returnType.isVoid = true) :
    f.step r imports heap i = .ok (.ret .null) := by
  unfold Frame.step
  rw [hret]
  exact if_pos hv

theorem step_ret_value (hv : r.method.returnType.isVoid = false) (hs : f.stack = v :: rest) :
    f.step r imports heap i = .ok (.ret v) := by
  unfold Frame.step
  rw [hret]
  dsimp only
  rw [hv, if_neg Bool.false_ne_true]
  exact bind_eq_ok.2 ⟨_, pop_eq_ok hs, rfl⟩

theorem step_ret_empty (hv : r.method.returnType.isVoid = false) (hs : f.stack = []) :
    f.step r imports heap i = .error (.fault (.stackUnderflow f.pc)) := by
  unfold Frame.step
  rw [hret]
  dsimp only
  rw [hv, if_neg Bool.false_ne_true]
  unfold Frame.pop
  rw [hs]
  rfl

end

/-- A new array of null references. -/
theorem proceeds_newarr {n : Int32} (hi : r.code[f.pc]? = some (.newarr .object))
    (hs : f.stack = .int32 n :: rest) (hn : 0 ≤ n.toInt) :
    Proceeds vm r f w []
      { f with stack := .array w.heap.arrays.size :: rest, pc := f.pc + 1 }
      { w with heap := (w.heap.alloc (Array.replicate n.toInt.toNat .null)).2 } := by
  have hlength : Frame.lengthOf { f with stack := rest } (.int32 n) = .ok n.toInt.toNat :=
    if_pos hn
  exact proceeds_next hi (bind_eq_ok.2 ⟨_, pop_eq_ok hs, bind_eq_ok.2 ⟨_, hlength, rfl⟩⟩)
    rfl

theorem proceeds_box {ty : Ty} (hi : r.code[f.pc]? = some (.box ty))
    (ht : ty.isValueType = true) (hs : f.stack = v :: rest) :
    Proceeds vm r f w []
      { f with stack := .boxed w.heap.fresh v :: rest, pc := f.pc + 1 }
      { w with heap := (w.heap.newBox v).2 } :=
  proceeds_next hi (bind_eq_ok.2 ⟨_, pop_eq_ok hs, if_pos ht⟩) rfl

theorem proceeds_stelem {array index : Nat} {n : Int32}
    (hi : r.code[f.pc]? = some (.plain .stelem))
    (hs : f.stack = v :: .int32 n :: .array array :: rest) (hn : n.toInt = index)
    (hlt : index < (w.heap.items array).size) :
    Proceeds vm r f w [] { f with stack := rest, pc := f.pc + 1 }
      { w with heap := w.heap.write array index v } := by
  have hindex : Frame.indexOf (.int32 n) (w.heap.items array).size = .ok index := by
    unfold Frame.indexOf
    dsimp only
    rw [if_pos (by omega), hn]
    rfl
  have hstore : Frame.store { f with stack := rest } w.heap (.array array) (.int32 n) v =
      .ok (w.heap.write array index v) := bind_eq_ok.2 ⟨_, hindex, rfl⟩
  exact proceeds_next hi (bind_eq_ok.2 ⟨_, pop_eq_ok hs, bind_eq_ok.2 ⟨_, pop_eq_ok rfl,
    bind_eq_ok.2 ⟨_, pop_eq_ok rfl, bind_eq_ok.2 ⟨_, hstore, rfl⟩⟩⟩⟩) rfl

/-- A call of a library member, with the arguments on the stack. -/
theorem proceeds_call (args rest : List Value) {id : MemberId} {member : MemberRef}
    {library : String} (hi : r.code[f.pc]? = some i)
    (hop : i.opcode = .call ∨ i.opcode = .callvirt) (ho : i.operand = .member id)
    (hm : vm.module.imports.get? id = some member) (hscope : member.scope = .library library)
    (hs : f.stack = args.reverse ++ rest)
    (hlen : args.length = member.params.length + if member.hasThis then 1 else 0)
    (hc : vm.host.call w member args r.describe = (.ok v, w')) :
    Proceeds vm r f w [⟨f.pc, member, args, w.heap⟩]
      { f with
        stack := if member.returnType.isVoid then rest else v :: rest
        pc := f.pc + 1 } w' := by
  have hpop : f.popMany args.length = .ok (args, { f with stack := rest }) := by
    unfold Frame.popMany
    have hle : ¬ f.stack.length < args.length := by
      rw [hs, List.length_append, List.length_reverse]
      omega
    rw [if_neg hle, hs, List.take_left' (List.length_reverse), List.reverse_reverse,
      List.drop_left' (List.length_reverse)]
  have hbegin : f.beginCall vm.module.imports i =
      .ok (.call member args (!member.returnType.isVoid) { f with stack := rest }) := by
    unfold Frame.beginCall
    rw [ho]
    dsimp only
    rw [hm]
    have hnew : i.opcode ≠ .newobj := by
      rcases hop with h | h <;> rw [h] <;> decide
    have hreceiver : member.params.length +
        (if (member.hasThis && decide (i.opcode ≠ .newobj)) = true then 1 else 0) =
          args.length := by
      rw [hlen, decide_eq_true hnew, Bool.and_true]
    dsimp only
    rw [hreceiver, hpop]
    have hfalse : (i.opcode == .newobj) = false := beq_eq_false_iff_ne.2 hnew
    rw [hfalse, Bool.false_or]
    rfl
  have hstep : f.step r vm.module.imports w.heap i =
      .ok (.call member args (!member.returnType.isVoid) { f with stack := rest }) := by
    rw [← hbegin]
    unfold Frame.step
    rcases hop with h | h <;> rw [h]
  have hgoes := Proceeds.call hi hstep rfl hscope hc (.refl _ _)
  have hframe : Frame.resumed { f with stack := rest } (!member.returnType.isVoid) v =
      { f with
        stack := if member.returnType.isVoid then rest else v :: rest
        pc := f.pc + 1 } := by
    cases member.returnType.isVoid <;> rfl
  rw [hframe] at hgoes
  exact hgoes

end

end Machine

end Interpose
