import Interpose.Proofs.Machine.Handling
import Interpose.Proofs.Machine.Session
/-!
# What an instruction does to the stack

An instruction takes values from the top of the stack and puts others there. It takes all of
them before it looks at any, so with too few it underflows whatever they are; and what lies
below them plays no part in what it does, and stays where it is (`Takes`). Only `leave` is
different, which clears the stack. How many values these are is what the verifier says, in any
frame of the method, whether its body was verified or not.

Results:
* `takes_step`: every instruction but `leave` takes as many values as its effect says.
* `stack_of_next`, `stack_of_call`, `stack_of_ret`: what has become of the stack.
* `turn_eq_perform`, `leads_of_perform`: both machines perform an instruction with the call
  that it makes (`perform`).
* `perform_as_stackEffect`: what is performed has the verifier's effect.
-/
namespace Interpose

/-! ## Values below -/

/-- The frame with more values below those on its stack. -/
def Frame.under (f : Frame) (below : List Value) : Frame := { f with stack := f.stack ++ below }

/-- The step with more values below those that it leaves. -/
def Step.under (below : List Value) : Step → Step
  | .next f h => .next (f.under below) h
  | .ret v => .ret v
  | .call member args keeps f => .call member args keeps (f.under below)

/-- A step takes `n` values: with fewer on the stack it underflows, and what lies below them
plays no part and stays there. -/
structure Takes (n : Nat) (F : Frame → Except Trap Step) : Prop where
  short : ∀ f, f.stack.length < n → F f = .error (.fault (.stackUnderflow f.pc))
  under : ∀ f below, n ≤ f.stack.length → F (f.under below) = Step.under below <$> F f

namespace Frame

section

variable {n : Nat}

theorem takes_zero {F : Frame → Except Trap Step}
    (hF : ∀ f below, F (f.under below) = Step.under below <$> F f) : Takes 0 F :=
  ⟨fun _ hlt => absurd hlt (Nat.not_lt_zero _), fun f below _ => hF f below⟩

theorem takes_next {move : Frame → Frame}
    (hm : ∀ f below, move (f.under below) = (move f).under below) (h : Heap) :
    Takes 0 fun f => .ok (.next (move f) h) := by
  refine takes_zero fun f below => ?_
  rw [hm]
  rfl

theorem takes_give (h : Heap) (v : Value) : Takes 0 fun f => f.give h v :=
  takes_zero fun _ _ => rfl

/-- What is computed once all values are taken does not look at the stack. -/
theorem takes_bind {α : Type} {x : Frame → Except Trap α} {F : α → Frame → Except Trap Step}
    (hx : ∀ f below, x (f.under below) = x f) (hF : ∀ a, Takes 0 (F a)) :
    Takes 0 fun f => x f >>= fun a => F a f := by
  refine takes_zero fun f below => ?_
  rw [hx]
  cases x f with
  | error t => rfl
  | ok a => exact (hF a).under f below (Nat.zero_le _)

/-- Changing an argument or a slot leaves the stack as it is. -/
theorem takes_store {store : Frame → Except Trap Frame}
    (hs : ∀ f below, store (f.under below) = (fun g => g.under below) <$> store f) (h : Heap) :
    Takes 0 fun f => store f >>= fun g => .ok (.next g.advance h) := by
  refine takes_zero fun f below => ?_
  rw [hs]
  cases store f <;> rfl

theorem storeArg_under (index : UInt16) (v : Value) (f : Frame) (below : List Value) :
    (f.under below).storeArg index v = (fun g => g.under below) <$> f.storeArg index v := by
  unfold storeArg
  show (if index.toNat < f.args.length then _ else _) = _
  split <;> rfl

theorem storeSlot_under (id : SlotId) (v : Value) (f : Frame) (below : List Value) :
    (f.under below).storeSlot id v = (fun g => g.under below) <$> f.storeSlot id v := by
  unfold storeSlot
  show (if id.toNat < f.locals.length then _ else _) = _
  split <;> rfl

theorem takes_pop {F : Value × Frame → Except Trap Step} (hF : ∀ v, Takes n fun g => F (v, g)) :
    Takes (n + 1) fun f => f.pop >>= F := by
  refine ⟨fun f hlt => ?_, fun f below hle => ?_⟩
  · unfold pop
    cases hs : f.stack with
    | nil => rfl
    | cons v rest =>
      rw [hs, List.length_cons] at hlt
      exact (hF v).short { f with stack := rest } (Nat.lt_of_succ_lt_succ hlt)
  · unfold pop
    cases hs : f.stack with
    | nil =>
      rw [hs, List.length_nil] at hle
      omega
    | cons v rest =>
      rw [hs, List.length_cons] at hle
      have hunder : (f.under below).stack = v :: (rest ++ below) := by
        rw [under, hs, List.cons_append]
      rw [hunder]
      exact (hF v).under { f with stack := rest } below (Nat.le_of_succ_le_succ hle)

theorem takes_popMany {F : List Value × Frame → Except Trap Step}
    (hF : ∀ vs, Takes 0 fun g => F (vs, g)) : Takes n fun f => f.popMany n >>= F := by
  refine ⟨fun f hlt => ?_, fun f below hle => ?_⟩
  · unfold popMany
    rw [if_pos hlt]
    rfl
  · have hlength : n ≤ (f.under below).stack.length := by
      rw [under, List.length_append]
      omega
    have htake : (f.under below).stack.take n = f.stack.take n :=
      List.take_append_of_le_length hle
    have hdrop : (f.under below).stack.drop n = f.stack.drop n ++ below :=
      List.drop_append_of_le_length hle
    unfold popMany
    rw [if_neg (Nat.not_lt.2 hle), if_neg (Nat.not_lt.2 hlength), htake, hdrop]
    exact (hF _).under { f with stack := f.stack.drop n } below (Nat.zero_le _)

end

section

variable (r : Routine) (imports : ImportTable) (h : Heap)

theorem takes_branchIf (i : Instruction) (wanted : Bool) :
    Takes 1 fun f => f.branchIf r h i wanted := by
  refine takes_pop (n := 0) fun v => ?_
  show Takes 0 fun _ => if v.isTruthy = wanted then _ else _
  split
  · exact takes_bind (fun _ _ => rfl) fun t => takes_next (fun _ _ => rfl) h
  · exact takes_next (fun _ _ => rfl) h

theorem takes_beginCall {op : Opcode} {id : MemberId} {member : MemberRef}
    (hop : op = .call ∨ op = .callvirt ∨ op = .newobj) (hm : imports.get? id = some member)
    (m : Method) :
    Takes ((⟨op, .member id⟩ : Instruction).effect m imports).1
      fun f => f.beginCall imports ⟨op, .member id⟩ := by
  rw [effect_of_member hop hm]
  unfold beginCall
  simp only [hm]
  exact takes_popMany fun vs => takes_zero fun _ _ => rfl

/-- An instruction that passes the verifier's check takes what its effect says. Each case takes
its values, computes, and goes on. -/
theorem takes_step {i : Instruction} (hc : checkOperand r.method r.body imports i = .ok ())
    (hl : i.opcode ≠ .leave) :
    Takes (i.effect r.method imports).1 fun f => f.step r imports h i := by
  obtain ⟨hkind, -, -, hmember⟩ := checkOperand_eq_ok_iff.1 hc
  obtain ⟨op, operand⟩ := i
  cases op with
  | nop => exact takes_next (fun _ _ => rfl) h
  | ldnull => exact takes_give h .null
  | ldcI4 =>
    cases operand with
    | int32 v => exact takes_give h _
    | _ => cases hkind
  | ldcI8 =>
    cases operand with
    | int64 v => exact takes_give h _
    | _ => cases hkind
  | ldcR8 =>
    cases operand with
    | float64 v => exact takes_give h _
    | _ => cases hkind
  | ldstr =>
    cases operand with
    | text s => exact takes_give h _
    | _ => cases hkind
  | ldarg =>
    cases operand with
    | argument index => exact takes_bind (fun _ _ => rfl) fun v => takes_give h v
    | _ => cases hkind
  | starg =>
    cases operand with
    | argument index => exact takes_pop (n := 0) fun v => takes_store (storeArg_under index v) h
    | _ => cases hkind
  | ldloc =>
    cases operand with
    | slot id => exact takes_bind (fun _ _ => rfl) fun v => takes_give h v
    | _ => cases hkind
  | stloc =>
    cases operand with
    | slot id => exact takes_pop (n := 0) fun v => takes_store (storeSlot_under id v) h
    | _ => cases hkind
  | dup => exact takes_pop (n := 0) fun v => takes_zero fun _ _ => rfl
  | pop => exact takes_pop (n := 0) fun v => takes_next (fun _ _ => rfl) h
  | add | sub | mul | div | rem | clt | cgt =>
    refine takes_pop (n := 1) fun b => takes_pop (n := 0) fun a => ?_
    exact takes_bind (fun _ _ => rfl) fun v => takes_give h v
  | ceq => exact takes_pop (n := 1) fun b => takes_pop (n := 0) fun a => takes_give h _
  | neg =>
    refine takes_pop (n := 0) fun v => ?_
    exact takes_bind (fun _ _ => rfl) fun v => takes_give h v
  | br => exact takes_bind (fun _ _ => rfl) fun t => takes_next (fun _ _ => rfl) h
  | brtrue => exact takes_branchIf r h _ true
  | brfalse => exact takes_branchIf r h _ false
  | leave => exact absurd rfl hl
  | ret =>
    show Takes (if r.method.returnType.isVoid then 0 else 1) fun _ =>
      if r.method.returnType.isVoid then _ else _
    split
    · exact takes_zero fun _ _ => rfl
    · exact takes_pop (n := 0) fun v => takes_zero fun _ _ => rfl
  | throw =>
    refine takes_pop (n := 0) fun v => ?_
    show Takes 0 fun _ => if v.isNull then _ else _
    split
    · exact takes_zero fun _ _ => rfl
    · exact takes_zero fun _ _ => rfl
  | rethrow =>
    refine takes_zero fun f below => ?_
    obtain ⟨args, locals, stack, handling, pc⟩ := f
    cases handling <;> rfl
  | call | callvirt | newobj =>
    cases operand with
    | member id =>
      obtain ⟨member, hm⟩ : ∃ member, imports.get? id = some member :=
        ⟨_, List.getElem?_eq_getElem (hmember id rfl)⟩
      exact takes_beginCall imports (by simp) hm r.method
    | _ => cases hkind
  | newarr =>
    cases operand with
    | ty element =>
      refine takes_pop (n := 0) fun v => ?_
      exact takes_bind (fun _ _ => rfl) fun n => takes_give _ _
    | _ => cases hkind
  | ldlen =>
    refine takes_pop (n := 0) fun v => ?_
    exact takes_bind (fun _ _ => rfl) fun items => takes_give h _
  | ldelem =>
    refine takes_pop (n := 1) fun index => takes_pop (n := 0) fun array => ?_
    refine takes_bind (fun _ _ => rfl) fun items => ?_
    exact takes_bind (fun _ _ => rfl) fun n => takes_give h _
  | stelem =>
    refine takes_pop (n := 2) fun v => takes_pop (n := 1) fun index => ?_
    refine takes_pop (n := 0) fun array => ?_
    exact takes_bind (fun _ _ => rfl) fun heap => takes_next (fun _ _ => rfl) heap
  | box =>
    cases operand with
    | ty t =>
      refine takes_pop (n := 0) fun v => ?_
      show Takes 0 fun _ => if t.isValueType then _ else _
      split
      · exact takes_give _ _
      · exact takes_give h v
    | _ => cases hkind
  | unbox =>
    cases operand with
    | ty t =>
      refine takes_pop (n := 0) fun v => ?_
      exact takes_bind (fun _ _ => rfl) fun inner => takes_give h inner
    | _ => cases hkind

end

end Frame

/-! ## The stack after a step -/

/-- The frame with the `n` topmost values alone on its stack. -/
def Frame.top (f : Frame) (n : Nat) : Frame := { f with stack := f.stack.take n }

theorem Frame.length_top (f : Frame) {n : Nat} (h : n ≤ f.stack.length) :
    (f.top n).stack.length = n := by
  rw [top, List.length_take, Nat.min_eq_left h]

section

variable {n : Nat} {F : Frame → Except Trap Step} {f : Frame} {x : Step}

theorem Takes.enough (hF : Takes n F) (h : F f = .ok x) : n ≤ f.stack.length := by
  refine Nat.le_of_not_lt fun hlt => ?_
  rw [hF.short f hlt] at h
  cases h

/-- What a step does, it does with the values that it takes alone. -/
theorem Takes.top (hF : Takes n F) (h : F f = .ok x) :
    ∃ y, F (f.top n) = .ok y ∧ y.under (f.stack.drop n) = x := by
  have hlength := Nat.le_of_eq (f.length_top (hF.enough h)).symm
  have hunder := hF.under (f.top n) (f.stack.drop n) hlength
  have hwhole : (f.top n).under (f.stack.drop n) = f := by
    rw [Frame.under, Frame.top, List.take_append_drop]
  rw [hwhole, h] at hunder
  exact map_eq_ok.1 hunder.symm

end

section

variable {f g : Frame} {r : Routine} {imports : ImportTable} {h h' : Heap} {i : Instruction}
  {member : MemberRef} {args : List Value} {keeps : Bool} {v : Value} {p q : Nat}

theorem ne_leave_of_call (hs : f.step r imports h i = .ok (.call member args keeps g)) :
    i.opcode ≠ .leave := by
  intro hop
  have hshape := Frame.holds_step f r imports h i
  rw [hs] at hshape
  have hflow := hshape.flow
  rw [hop] at hflow
  cases hflow

theorem stack_of_leave (hop : i.opcode = .leave)
    (hs : f.step r imports h i = .ok (.next g h')) : g.stack = [] := by
  have hshape := Frame.holds_step f r imports h i
  rw [hs] at hshape
  exact hshape.left (by rw [hop]; rfl)

variable (hc : checkOperand r.method r.body imports i = .ok ())
  (he : i.effect r.method imports = (p, q))
include hc he

theorem takes_of_effect (hl : i.opcode ≠ .leave) (h : Heap) :
    Takes p fun f => f.step r imports h i := by
  have htakes := Frame.takes_step r imports h hc hl
  rwa [he] at htakes

/-- An instruction that goes on puts its values on what is below those that it takes. -/
theorem stack_of_next (hl : i.opcode ≠ .leave) (hs : f.step r imports h i = .ok (.next g h')) :
    p ≤ f.stack.length ∧ ∃ given, given.length = q ∧ g.stack = given ++ f.stack.drop p := by
  have htakes := takes_of_effect hc he hl h
  have henough := htakes.enough hs
  obtain ⟨y, hy, hunder⟩ := htakes.top hs
  refine ⟨henough, ?_⟩
  cases y with
  | next g₀ h₀ =>
    cases hunder
    have hshape := Frame.holds_step (f.top p) r imports h i
    rw [hy] at hshape
    obtain ⟨-, hlength⟩ := hshape.stack fun hflow => hl (Machine.eq_leave_of_flow hflow)
    rw [f.length_top henough, Routine.context, he, Nat.sub_self, Nat.zero_add] at hlength
    exact ⟨g₀.stack, hlength, rfl⟩
  | ret v => cases hunder
  | call member args keeps g₀ => cases hunder

/-- A call puts the value that it is given on what is below its arguments. -/
theorem stack_of_call (hs : f.step r imports h i = .ok (.call member args keeps g)) (v : Value) :
    p ≤ f.stack.length ∧
      ∃ given, given.length = q ∧ (g.resumed keeps v).stack = given ++ f.stack.drop p := by
  have htakes := takes_of_effect hc he (ne_leave_of_call hs) h
  have henough := htakes.enough hs
  obtain ⟨y, hy, hunder⟩ := htakes.top hs
  refine ⟨henough, ?_⟩
  cases y with
  | next g₀ h₀ => cases hunder
  | ret v => cases hunder
  | call member args keeps g₀ =>
    cases hunder
    have hshape := Frame.holds_step (f.top p) r imports h i
    rw [hy] at hshape
    have hlength := hshape.stack
    have hkept := hshape.kept
    rw [f.length_top henough, Routine.context, he, Nat.sub_self] at hlength
    rw [Routine.context, he] at hkept
    have hstack : (g₀.under (f.stack.drop p)).stack = f.stack.drop p := by
      rw [Frame.under, List.eq_nil_of_length_eq_zero hlength, List.nil_append]
    cases keeps with
    | true => exact ⟨[v], hkept.symm, congrArg (v :: ·) hstack⟩
    | false => exact ⟨[], hkept.symm, hstack⟩

/-- A return gives the value that it takes, or null where it takes none, whatever is below. -/
theorem stack_of_ret (hs : f.step r imports h i = .ok (.ret v)) :
    p ≤ f.stack.length ∧ v = (f.stack.take p).head?.getD .null ∧
      ∀ below, { f with stack := f.stack.take p ++ below }.step r imports h i = .ok (.ret v) := by
  have hop : i.opcode = .ret := by
    have hshape := Frame.holds_step f r imports h i
    rwa [hs] at hshape
  have htakes := takes_of_effect hc he (by rw [hop]; decide) h
  have henough := htakes.enough hs
  refine ⟨henough, ?_, fun below => ?_⟩
  · have hp : (if r.method.returnType.isVoid then 0 else 1) = p := by
      rw [Instruction.effect, hop] at he
      exact congrArg Prod.fst he
    cases hvoid : r.method.returnType.isVoid with
    | true =>
      obtain rfl : 0 = p := by rwa [hvoid] at hp
      cases hs.symm.trans (Machine.step_ret_void hop hvoid)
      rfl
    | false =>
      obtain rfl : 1 = p := by rwa [hvoid] at hp
      obtain ⟨w, rest, hstack⟩ := List.exists_cons_of_length_pos henough
      cases hs.symm.trans (Machine.step_ret_value hop hvoid hstack)
      rw [hstack]
      rfl
  · obtain ⟨y, hy, hunder⟩ := htakes.top hs
    have hbelow := htakes.under (f.top p) below (Nat.le_of_eq (f.length_top henough).symm)
    rw [hy] at hbelow
    cases y with
    | ret w =>
      cases hunder
      exact hbelow
    | next g₀ h₀ => cases hunder
    | call member args keeps g₀ => cases hunder

/-- An instruction underflows for want of a value that it takes, and for nothing else. -/
theorem underflow_iff :
    f.step r imports h i = .error (.fault (.stackUnderflow f.pc)) ↔ f.stack.length < p := by
  constructor
  · intro hs
    have hshape := Frame.holds_step f r imports h i
    rw [hs] at hshape
    have hcause : Cause (r.context imports) f i (.stackUnderflow f.pc) := hshape
    cases hcause with
    | underflow hlt => rwa [Routine.context, he] at hlt
  · intro hlt
    have hl : i.opcode ≠ .leave := fun hop => by
      rw [Instruction.effect, hop] at he
      obtain rfl : 0 = p := congrArg Prod.fst he
      exact absurd hlt (Nat.not_lt_zero _)
    exact (takes_of_effect hc he hl h).short f hlt

end

/-! ## Instructions with their calls -/

/-- How an instruction ends, the call that it makes included: its activation goes on or
returns, or something fails, for which no handler has been looked for. -/
inductive Performed
  | next (frame : Frame)
  | ret (value : Value)
  | failed (failure : Failure)

/-- What the end of its call makes of an instruction. -/
def Performed.ofCall (f : Frame) (keeps : Bool) : Except Failure Value → Performed
  | .ok v => .next (f.resumed keeps v)
  | .error failure => .failed failure

/-- What becomes of the activation. -/
def Performed.turn (a : Activation) : Performed → Turn
  | .next f => .on { a with frame := f }
  | .ret v => .ended (.ok v)
  | .failed failure => a.fail failure

namespace Machine

/-- Executes an instruction of a routine and waits for the end of the call that it makes. -/
def perform (vm : Machine) (loop : Activation → Session → Option Ended) (r : Routine) (f : Frame)
    (i : Instruction) (s : Session) : Option (Performed × Session) :=
  match f.step r vm.module.imports s.world.heap i with
  | .error t =>
    let (failure, s) := s.settle t
    some (.failed failure, s)
  | .ok (.next f heap) => some (.next f, { s with world := { s.world with heap := heap } })
  | .ok (.ret v) => some (.ret v, s)
  | .ok (.call member args keeps f) =>
    (vm.callMember loop member args r.describe s).map fun (result, s) =>
      (.ofCall f keeps result, s)

variable {vm : Machine} {loop : Activation → Session → Option Ended} {r : Routine} {f g : Frame}
  {i : Instruction} {s s' : Session} {v : Value}

/-- What a call hands on is caught where the call was made, or nowhere in this activation: the
arguments that are gone from the stack play no part. -/
theorem fail_of_call {imports : ImportTable} {h : Heap} {member : MemberRef} {args : List Value}
    {keeps : Bool} (hs : f.step r imports h i = .ok (.call member args keeps g))
    (failure : Failure) :
    (⟨r, g⟩ : Activation).fail failure = (⟨r, f⟩ : Activation).fail failure := by
  have hshape := Frame.holds_step f r imports h i
  rw [hs] at hshape
  obtain ⟨args', locals, stack, handling, pc⟩ := g
  obtain rfl := hshape.args
  obtain rfl := hshape.locals
  obtain rfl := hshape.handling
  obtain rfl := hshape.pc
  rfl

/-- A turn of the machine is to perform the instruction at the position. -/
theorem turn_eq_perform (hi : r.code[f.pc]? = some i) :
    vm.turn loop ⟨r, f⟩ s =
      (vm.perform loop r f i s).map fun ended => (ended.1.turn ⟨r, f⟩, ended.2) := by
  unfold turn perform
  simp only [hi]
  cases hs : f.step r vm.module.imports s.world.heap i with
  | error t => rfl
  | ok step =>
    cases step with
    | next g heap => rfl
    | ret v => rfl
    | call member args keeps g =>
      dsimp only
      rw [Option.map_map]
      congr 1
      funext ended
      obtain ⟨result, s'⟩ := ended
      cases result with
      | ok v => rfl
      | error failure => exact congrArg (·, s') (fail_of_call hs failure)

/-- Single steps lead where the instruction does that is performed. -/
theorem leads_of_perform {fuel : Nat} {x : Performed} {callers : List Caller}
    (hi : r.code[f.pc]? = some i) (hd : s.depth = callers.length + 1)
    (h : vm.perform (vm.loop fuel) r f i s = some (x, s')) :
    vm.Leads (.running ⟨⟨r, f⟩, callers, s.world⟩)
      ((x.turn ⟨r, f⟩).progress callers s'.world) := by
  have hturn : vm.turn (vm.loop fuel) ⟨r, f⟩ s = some (x.turn ⟨r, f⟩, s') := by
    rw [turn_eq_perform hi, h]
    rfl
  rw [turn_eq] at hturn
  refine .step ?_
  rw [step_eq, ← hd]
  cases hact : vm.act ⟨r, f⟩ s.world s.depth with
  | turn t w =>
    rw [hact] at hturn
    obtain ⟨rfl, rfl⟩ := Prod.mk.inj (Option.some.inj hturn)
    exact .refl _
  | start b c =>
    rw [hact] at hturn
    obtain ⟨⟨result, s₁⟩, hb, hends⟩ := Option.map_eq_some_iff.1 hturn
    obtain ⟨hreceive, rfl⟩ := Prod.mk.inj hends
    have hcall : vm.Leads (.running ⟨b, c :: callers, s.enter.world⟩) _ :=
      leads_of_loop hb (congrArg (· + 1) hd)
    rw [← progress_receive, hreceive] at hcall
    exact hcall

theorem perform_of_fault {e : MachineFault}
    (hs : f.step r vm.module.imports s.world.heap i = .error (.fault e)) :
    vm.perform loop r f i s = some (.failed (.fault e), s) := by
  unfold perform
  rw [hs]
  rfl

theorem perform_of_ret (hs : f.step r vm.module.imports s.world.heap i = .ok (.ret v)) :
    vm.perform loop r f i s = some (.ret v, s) := by
  unfold perform
  rw [hs]

/-- An instruction goes on by itself, or with the value of its call. -/
theorem step_of_perform_next (h : vm.perform loop r f i s = some (.next g, s')) :
    (∃ heap, f.step r vm.module.imports s.world.heap i = .ok (.next g heap)) ∨
      ∃ member args keeps g₀ v,
        f.step r vm.module.imports s.world.heap i = .ok (.call member args keeps g₀) ∧
          g₀.resumed keeps v = g := by
  unfold perform at h
  split at h
  · cases h
  · next hs =>
    cases h
    exact .inl ⟨_, hs⟩
  · cases h
  · next member args keeps g₀ hs =>
    obtain ⟨⟨result, s₁⟩, -, hends⟩ := Option.map_eq_some_iff.1 h
    cases result with
    | ok v =>
      cases hends
      exact .inr ⟨member, args, keeps, g₀, v, hs, rfl⟩
    | error failure => cases hends

theorem step_of_perform_ret (h : vm.perform loop r f i s = some (.ret v, s')) :
    f.step r vm.module.imports s.world.heap i = .ok (.ret v) := by
  unfold perform at h
  split at h
  · cases h
  · cases h
  · next hs =>
    cases h
    exact hs
  · next member args keeps g₀ hs =>
    obtain ⟨⟨result, s₁⟩, -, hends⟩ := Option.map_eq_some_iff.1 h
    cases result <;> cases hends

/-- An instruction that passes the verifier's check does to the stack what the verifier says, in
every frame of its method. It underflows just where there are fewer values than it takes. Where
it goes on, the call that it makes included, it has put its values on what was below those that
it takes, or `leave` has cleared the stack. Where it returns, it has taken its values, and gives
the one, whatever is below. -/
theorem perform_as_stackEffect (vm : Machine) (loop : Activation → Session → Option Ended)
    (r : Routine) (f : Frame) (s : Session) {i : Instruction} {p q : UInt16}
    (ha : ∀ member ∈ vm.module.imports.entries, member.params.length < 65535)
    (hc : checkOperand r.method r.body vm.module.imports i = .ok ())
    (he : stackEffect r.method vm.module.imports i = .ok (p, q)) :
    (f.step r vm.module.imports s.world.heap i = .error (.fault (.stackUnderflow f.pc)) ↔
      f.stack.length < p.toNat) ∧
    (f.stack.length < p.toNat →
      vm.perform loop r f i s = some (.failed (.fault (.stackUnderflow f.pc)), s)) ∧
    (∀ g s', vm.perform loop r f i s = some (.next g, s') →
      p.toNat ≤ f.stack.length ∧ if i.opcode = .leave then g.stack = [] else
        ∃ given, given.length = q.toNat ∧ g.stack = given ++ f.stack.drop p.toNat) ∧
    ∀ v s', vm.perform loop r f i s = some (.ret v, s') →
      p.toNat ≤ f.stack.length ∧ v = (f.stack.take p.toNat).head?.getD .null ∧
        ∀ below, vm.perform loop r { f with stack := f.stack.take p.toNat ++ below } i s =
          some (.ret v, s) := by
  have heff := effect_of_stackEffect ha he
  have hunderflow := underflow_iff (f := f) (h := s.world.heap) hc heff
  refine ⟨hunderflow, fun hshort => perform_of_fault (hunderflow.2 hshort), fun g s' h => ?_,
    fun v s' h => ?_⟩
  · by_cases hl : i.opcode = .leave
    · rw [if_pos hl]
      rw [stackEffect, hl] at he
      cases he
      refine ⟨Nat.zero_le _, ?_⟩
      rcases step_of_perform_next h with ⟨heap, hs⟩ | ⟨member, args, keeps, g₀, v, hs, -⟩
      · exact stack_of_leave hl hs
      · exact absurd hl (ne_leave_of_call hs)
    · rw [if_neg hl]
      rcases step_of_perform_next h with ⟨heap, hs⟩ | ⟨member, args, keeps, g₀, v, hs, rfl⟩
      · exact stack_of_next hc heff hl hs
      · exact stack_of_call hc heff hs v
  · obtain ⟨henough, hv, hbelow⟩ := stack_of_ret hc heff (step_of_perform_ret h)
    exact ⟨henough, hv, fun below => perform_of_ret (hbelow below)⟩

/-- A module with a method of an instance that adds 1 to its argument. -/
def weighing : Machine where
  module :=
    { name := "App"
      types := [⟨"Scale", [{
        name := "Weigh"
        params := [⟨0, "load", .int32⟩]
        returnType := .int32
        body? := some (.ofList [.ldarg 1, .ldcI4 1, .plain .add, .plain .ret]) }]⟩]
      imports := ⟨[⟨.module, "Scale", "Weigh", [.int32], .int32, false⟩]⟩ }

/-- A caller of it, with a value below the receiver and the argument. -/
def weigher : Routine :=
  ready "Go"
    (.ofList [.ldcI4 7, .plain .ldnull, .ldcI4 41, .callvirt 0, .plain .pop, .plain .ret]) []

/-- The call takes the receiver and the argument, and keeps the value below them. With one value
on the stack it underflows. -/
theorem weighing_perform_as_stackEffect :
    stackEffect weigher.method weighing.module.imports (.callvirt 0) = .ok (2, 1) ∧
      (∃ g s', weighing.perform (weighing.loop 5) weigher
          ⟨[], [], [.int32 41, .null, .int32 7], [], 3⟩ (.callvirt 0) {} = some (.next g, s') ∧
        ∃ given, given.length = 1 ∧ g.stack = given ++ [.int32 7]) ∧
      weighing.perform (weighing.loop 5) weigher ⟨[], [], [.int32 41], [], 3⟩ (.callvirt 0) {} =
        some (.failed (.fault (.stackUnderflow 3)), {}) := by
  have hc : checkOperand weigher.method weigher.body weighing.module.imports (.callvirt 0) =
      .ok () := rfl
  have he : stackEffect weigher.method weighing.module.imports (.callvirt 0) = .ok (2, 1) := rfl
  have agrees (f : Frame) := perform_as_stackEffect weighing (weighing.loop 5) weigher f {}
    (by decide) hc he
  obtain ⟨g, s', hg⟩ : ∃ g s', weighing.perform (weighing.loop 5) weigher
      ⟨[], [], [.int32 41, .null, .int32 7], [], 3⟩ (.callvirt 0) {} = some (.next g, s') :=
    ⟨_, _, rfl⟩
  exact ⟨he, ⟨g, s', hg, ((agrees _).2.2.1 g s' hg).2⟩, (agrees _).2.1 (by decide)⟩

end Machine

end Interpose
