import Interpose.Proofs.Machine.CallDepth
/-!
# How a method is entered

An activation goes on top of its caller only when the instruction there names a member of the
module itself, and the module dispatches that member to a method. So the operand of an
instruction tells which method it may enter.

Results:
* `stays_or_begins`: instructions other than calls stay in their activation.
* `member_of_call`: a call is made of the member that the instruction names.
* `entered_of_step`: the method on top of its caller is the one that this member is dispatched to.
-/
namespace Interpose

namespace Frame

variable {f g : Frame} {r : Routine} {imports : ImportTable} {h : Heap} {i : Instruction}
  {member : MemberRef} {args : List Value} {keeps : Bool}

/-- The step makes no call. -/
def Stays (x : Except Trap Step) : Prop :=
  ∀ member args keeps g, x ≠ .ok (.call member args keeps g)

theorem stays_error (t : Trap) : Stays (.error t) := fun _ _ _ _ => nofun

theorem stays_next (g : Frame) (h : Heap) : Stays (.ok (.next g h)) := fun _ _ _ _ => nofun

theorem stays_ret (v : Value) : Stays (.ok (.ret v)) := fun _ _ _ _ => nofun

theorem Stays.bind {α : Type} {x : Except Trap α} {F : α → Except Trap Step}
    (h : ∀ a, Stays (F a)) : Stays (x >>= F) := by
  intro member args keeps g hs
  obtain ⟨a, -, ha⟩ := bind_eq_ok.1 hs
  exact h a member args keeps g ha

theorem Stays.ite {p : Prop} [Decidable p] {x y : Except Trap Step} (hx : Stays x)
    (hy : Stays y) : Stays (if p then x else y) := by
  split
  · exact hx
  · exact hy

theorem stays_branchIf (wanted : Bool) : Stays (f.branchIf r h i wanted) :=
  .bind fun _ => .ite (.bind fun _ => stays_next _ _) (stays_next _ _)

/-- An instruction makes no call, or it is one. The cases go by what is computed before the step
is known. -/
theorem stays_or_begins (f : Frame) (r : Routine) (imports : ImportTable) (h : Heap)
    (i : Instruction) :
    Stays (f.step r imports h i) ∨ f.step r imports h i = f.beginCall imports i := by
  obtain ⟨op, operand⟩ := i
  cases op with
  | call | callvirt | newobj => exact .inr rfl
  | nop | ldnull => exact .inl (stays_next _ _)
  | ldcI4 | ldcI8 | ldcR8 | ldstr =>
    refine .inl ?_
    unfold step
    dsimp only
    split
    · exact stays_next _ _
    · exact stays_error _
  | ldarg | ldloc =>
    refine .inl ?_
    unfold step
    dsimp only
    split
    · exact .bind fun _ => stays_next _ _
    · exact stays_error _
  | starg | stloc | newarr | unbox =>
    refine .inl ?_
    unfold step
    dsimp only
    split
    · exact .bind fun _ => .bind fun _ => stays_next _ _
    · exact stays_error _
  | box =>
    refine .inl ?_
    unfold step
    dsimp only
    split
    · exact .bind fun _ => .ite (stays_next _ _) (stays_next _ _)
    · exact stays_error _
  | dup | pop | br | leave => exact .inl (.bind fun _ => stays_next _ _)
  | neg | ldlen | ceq => exact .inl (.bind fun _ => .bind fun _ => stays_next _ _)
  | add | sub | mul | div | rem | clt | cgt =>
    exact .inl (.bind fun _ => .bind fun _ => .bind fun _ => stays_next _ _)
  | ldelem | stelem =>
    exact .inl (.bind fun _ => .bind fun _ => .bind fun _ => .bind fun _ => stays_next _ _)
  | brtrue | brfalse => exact .inl (stays_branchIf _)
  | ret => exact .inl (.ite (stays_ret _) (.bind fun _ => stays_ret _))
  | throw => exact .inl (.bind fun _ => .ite (stays_error _) (stays_error _))
  | rethrow =>
    refine .inl ?_
    unfold step
    dsimp only
    split
    · exact stays_error _
    · exact stays_error _

/-- A call is made of the member that the instruction names. -/
theorem member_of_call (hs : f.step r imports h i = .ok (.call member args keeps g)) :
    ∃ id, i.member? = some id ∧ imports.get? id = some member := by
  have hbegin : f.beginCall imports i = .ok (.call member args keeps g) := by
    rcases stays_or_begins f r imports h i with hstays | hbegins
    · exact absurd hs (hstays member args keeps g)
    · rw [← hbegins, hs]
  unfold beginCall at hbegin
  split at hbegin
  · next id hid =>
    split at hbegin
    · cases hbegin
    · next m hm =>
      obtain ⟨popped, -, hcall⟩ := bind_eq_ok.1 hbegin
      cases hcall
      exact ⟨id, by rw [Instruction.member?, hid], hm⟩
  · cases hbegin

end Frame

/-- What a member is dispatched to is declared under its owner and its name. -/
theorem Module.mem_methods_of_dispatch? {m : Module} {member : MemberRef} {d : Method}
    (h : m.dispatch? member = some d) : (member.owner, d) ∈ m.methods ∧ d.name = member.name := by
  obtain ⟨t, ht, hd⟩ := Option.bind_eq_some_iff.1 h
  have hname : t.name = member.owner := by simpa using List.find?_some ht
  have hsigned : d.name = member.name ∧ d.paramTypes = member.params := by
    simpa using List.find?_some hd
  refine ⟨List.mem_flatMap.2 ⟨t, List.mem_of_find?_eq_some ht, ?_⟩, hsigned.1⟩
  exact List.mem_map.2 ⟨d, List.mem_of_find?_eq_some hd, by rw [hname]⟩

namespace Machine

/-- The method on top of its caller is the one that the module dispatches the member to which the
caller's instruction names. -/
theorem entered_of_step {vm : Machine} {s s' : State} (h : vm.step s = .running s')
    (hdeeper : s.callers.length < s'.callers.length) :
    ∃ i id member, s.current.routine.code[s.current.frame.pc]? = some i ∧
      i.member? = some id ∧ vm.module.imports.get? id = some member ∧ member.scope = .module ∧
      vm.module.dispatch? member = some s'.current.routine.method ∧
      s'.current.routine.typeName = member.owner := by
  obtain ⟨a, callers, w⟩ := s
  rw [step_eq] at h
  cases hact : vm.act a w (callers.length + 1) with
  | turn t w' =>
    rw [hact] at h
    exact absurd (length_progress_le h) (Nat.not_le.2 hdeeper)
  | start b c =>
    rw [hact] at h
    cases h
    obtain ⟨i, member, args, keeps, f, d, hi, hs, hscope, hd, hb⟩ := act_eq_start hact
    obtain ⟨id, hid, hmember⟩ := Frame.member_of_call hs
    obtain ⟨-, -, body, regions, -, -, rfl⟩ := Method.activate_eq_ok_iff.1 hb
    exact ⟨i, id, member, hi, hid, hmember, hscope, hd, rfl⟩

end Machine

end Interpose
