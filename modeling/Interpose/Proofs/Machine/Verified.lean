import Interpose.Proofs.Machine.Run
import Interpose.Proofs.Machine.Step
import Interpose.Proofs.Verify.Invariant
/-!
# Running verified methods

The walk of the verifier and a run of the machine side by side. An activation is always
at a position that the walk has reached (`Follows`); if nothing wraps in the walk, its
evaluation stack is as high as the depth found there. A caller keeps what it needs to go
on, and any activation what it needs to enter a handler (`Tidy`).

Results:
* `sound_step`: the invariant of a run, `Sound`, is kept by every step.
* `stack_height_eq_depth`: the stack has the height that the verifier found, and the
  faults that the verifier rules out do not happen.
-/
namespace Interpose

/-- Is the method declared by a type of the module? -/
def Module.Declares (m : Module) (d : Method) : Prop := ∃ t ∈ m.types, d ∈ t.methods

/-- Does every body of the module pass the verifier? -/
def Module.Verified (m : Module) : Prop :=
  ∀ d b, m.Declares d → d.body? = some b → ∃ k, verifyBody d b m.imports = .ok k

/-- Do sixteen bits suffice for the sizes of every body? -/
def Module.Unwrapped (m : Module) : Prop :=
  ∀ d b, m.Declares d → d.body? = some b → Interpose.Unwrapped d b m.imports

/-- Is it a fault of the code and not of the values it runs on? -/
def MachineFault.isOfCode : MachineFault → Bool
  | stackUnderflow _ | fellOffEnd _ | code _ => true
  | typeMismatch _ (.noArgument _) | typeMismatch _ (.noLocal _)
  | typeMismatch _ (.wrongOperand _ _) => true
  | _ => false

/-- An activation of a method over which the verifier has walked. -/
structure Activation.Tidy (m : Module) (w : Walk) (a : Activation) : Prop where
  declared : m.Declares a.routine.method
  body : a.routine.method.body? = some a.routine.body
  verified : verifyWalk a.routine.method a.routine.body m.imports = .ok w
  code : a.routine.code = a.routine.body.code.toArray
  regions : a.routine.body.regions = .ok a.routine.regions
  args : a.frame.args.length = a.routine.method.argCount.toNat
  locals : a.frame.locals.length = a.routine.body.locals.size

/-- The depth that a walk has found where the activation is. -/
structure Activation.AtDepth (m : Module) (w : Walk) (a : Activation) (d : UInt16) : Prop where
  depth : w.depth? a.frame.pc = some d
  height : m.Unwrapped → a.frame.stack.length = d.toNat

/-- The activation is where the verifier's walk has been. -/
def Activation.Follows (m : Module) (a : Activation) : Prop :=
  ∃ w d, a.Tidy m w ∧ a.AtDepth m w d

/-- The activation goes on properly, whatever value the call gives it. -/
structure Caller.Waits (m : Module) (c : Caller) : Prop where
  tidy : ∃ w, c.activation.Tidy m w
  resumes : ∀ v, (Machine.resume c v).Follows m

namespace Activation

variable {m : Module} {w : Walk} {a : Activation} {d : UInt16} {i : Instruction}

theorem Tidy.sound (h : a.Tidy m w) :
    (a.routine.context m.imports).Formed ∧ Walk.Sound (a.routine.context m.imports) w ∧
      w.work = [] := by
  obtain ⟨rs, hc, hs, hn⟩ := sound_of_verifyWalk h.verified
  obtain rfl : rs = a.routine.regions := Except.ok.inj (hc.regions.symm.trans h.regions)
  have hcontext : a.routine.context m.imports =
      .of a.routine.method a.routine.body m.imports a.routine.regions := by
    rw [Routine.context, VerifyContext.of, h.code]
  rw [hcontext]
  exact ⟨hc, hs, hn⟩

/-- The verifier has checked the instruction where the activation is. -/
theorem Tidy.settled (h : a.Tidy m w) (hd : w.depth? a.frame.pc = some d) :
    ∃ i p q l, Walk.Settled (a.routine.context m.imports) w a.frame.pc d i p q l := by
  obtain ⟨-, hs, hn⟩ := h.sound
  exact hs.settled _ d hd (by rw [hn]; exact List.not_mem_nil)

/-- The verifier's effect of that instruction, as numbers. -/
theorem Tidy.effect (h : a.Tidy m w) (hu : m.Unwrapped) {p q : UInt16}
    {l : List (Nat × UInt16)}
    (hs : Walk.Settled (a.routine.context m.imports) w a.frame.pc d i p q l) :
    i.effect (a.routine.context m.imports).method (a.routine.context m.imports).imports =
      (p.toNat, q.toNat) :=
  effect_of_stackEffect (hu _ _ h.declared h.body).arities hs.effect

/-- A method that was made ready to run starts where the walk starts. -/
theorem follows_of_activate (hv : m.Verified) {d : Method} (hd : m.Declares d)
    {typeName : String} {args : List Value} {live : Nat}
    (h : d.activate typeName args live = .ok a) : a.Follows m := by
  have hlocals := Method.length_locals_of_activate h
  obtain ⟨hargs, -, b, rs, hb, hrs, rfl⟩ := Method.activate_eq_ok_iff.1 h
  obtain ⟨k, hk⟩ := hv d b hd hb
  obtain ⟨w, hw, -⟩ := verifyBody_eq_ok_iff.1 hk
  have htidy : Tidy m w ⟨⟨typeName, d, b, b.code.toArray, rs⟩,
      { args := args, locals := b.locals.toList.map fun s => .initial s.ty }⟩ :=
    ⟨hd, hb, hw, rfl, hrs, hargs, hlocals⟩
  obtain ⟨-, hs, -⟩ := htidy.sound
  exact ⟨w, 0, htidy, hs.entries (0, 0) List.mem_cons_self, fun _ => rfl⟩

/-- A handler starts with the caught exception alone on its stack. -/
theorem Tidy.catch (h : a.Tidy m w) {v : Value} {a' : Activation}
    (hc : a.catch? v = some a') : a'.Follows m := by
  obtain ⟨f, hf, rfl⟩ := Option.map_eq_some_iff.1 hc
  obtain ⟨r, hr, rfl⟩ := Option.map_eq_some_iff.1 hf
  obtain ⟨-, hs, -⟩ := h.sound
  have hentry : (r.handlerRange.start, 1) ∈ (a.routine.context m.imports).entries :=
    List.mem_cons_of_mem _ (List.mem_map.2 ⟨r, List.mem_of_find?_eq_some hr, rfl⟩)
  exact ⟨w, 1, ⟨h.declared, h.body, h.verified, h.code, h.regions, h.args, h.locals⟩,
    hs.entries _ hentry, fun _ => rfl⟩

/-! ## One instruction -/

/-- What is left of the faults of an instruction that was checked. -/
theorem not_isOfCode_of_cause (h : a.Tidy m w) (hd : a.AtDepth m w d)
    (hi : a.routine.code[a.frame.pc]? = some i) {e : MachineFault}
    (hc : Cause (a.routine.context m.imports) a.frame i e) (he : e.isOfCode = true) :
    (∃ pos, e = .stackUnderflow pos) ∧ ¬ m.Unwrapped := by
  obtain ⟨j, p, q, l, hs⟩ := h.settled hd.depth
  obtain rfl : i = j := Option.some.inj (hi.symm.trans hs.code)
  obtain ⟨hkind, harg, hslot, hmember⟩ := checkOperand_eq_ok_iff.1 hs.operand
  cases hc with
  | underflow hlt =>
    refine ⟨⟨_, rfl⟩, fun hu => ?_⟩
    have heff := h.effect hu hs
    rw [heff, hd.height hu] at hlt
    have := UInt16.le_iff_toNat_le.1 hs.enough
    omega
  | noArgument ho hlen =>
    have hlt := UInt16.lt_iff_toNat_lt.1 (harg _ ho)
    rw [h.args] at hlen
    exact absurd hlt (Nat.not_lt_of_le hlen)
  | noLocal ho hlen =>
    have hlt := hslot _ ho
    rw [h.locals] at hlen
    exact absurd hlt (Nat.not_lt_of_le hlen)
  | wrongOperand hne => exact absurd hkind hne
  | target hf hn =>
    have hp := hs.passes
    cases hp with
    | branch _ ht | condBranch _ ht _ | leave _ ht =>
      rw [hn] at ht
      cases ht
    | next h | ret h | throw h => simp [h] at hf
  | member ho hn =>
    exact absurd (hmember _ ho) (Nat.not_lt_of_le (List.getElem?_eq_none_iff.1 hn))
  | @value _ detail hv => cases detail <;> first | exact hv.elim | cases he
  | noException => cases he

/-- An instruction that goes on stays with the walk. -/
theorem follows_of_goesOn (h : a.Tidy m w) (hd : a.AtDepth m w d)
    (hi : a.routine.code[a.frame.pc]? = some i) {g : Frame}
    (hg : GoesOn (a.routine.context m.imports) a.frame i g) :
    Follows m { a with frame := g } := by
  obtain ⟨j, p, q, l, hs⟩ := h.settled hd.depth
  obtain rfl : i = j := Option.some.inj (hi.symm.trans hs.code)
  refine ⟨w, _, ⟨h.declared, h.body, h.verified, h.code, h.regions, hg.args.trans h.args,
    hg.locals.trans h.locals⟩, hs.handed _ (hs.passes.exists_of_edge hg.edge), fun hu => ?_⟩
  by_cases hl : i.opcode.flow = .leave
  · rw [if_pos hl]
    exact congrArg List.length (hg.left hl)
  · have hstack := (hg.stack hl).2
    have hsize : (a.routine.context m.imports).code.size < 65535 := by
      rw [h.sound.1.size]
      exact (hu _ _ h.declared h.body).body
    have heff := h.effect hu hs
    rw [if_neg hl, hs.unwrapped hsize, ← hd.height hu]
    rw [heff] at hstack
    exact hstack

/-- At a call the activation waits for any value. -/
theorem waits_of_awaits (h : a.Tidy m w) (hd : a.AtDepth m w d)
    (hi : a.routine.code[a.frame.pc]? = some i) {keeps : Bool} {g : Frame}
    (hg : Awaits (a.routine.context m.imports) a.frame i keeps g) :
    Caller.Waits m ⟨{ a with frame := g }, keeps⟩ := by
  refine ⟨⟨w, h.declared, h.body, h.verified, h.code, h.regions,
    (congrArg _ hg.args).trans h.args, (congrArg _ hg.locals).trans h.locals⟩, fun v => ?_⟩
  refine follows_of_goesOn h hd hi (g := (if keeps then g.push v else g).advance) ?_
  have hlen : (if keeps then g.push v else g).stack.length =
      g.stack.length + if keeps then 1 else 0 := by cases keeps <;> rfl
  have hflow : i.opcode.flow ≠ .leave := fun hl => by simp [hg.flow] at hl
  refine ⟨?_, ?_, ?_, fun _ => ⟨hg.enough, ?_⟩, fun hl => absurd hl hflow, fun _ => ?_,
    fun hl => absurd hl hflow⟩
  · rw [← hg.args]
    cases keeps <;> rfl
  · rw [← hg.locals]
    cases keeps <;> rfl
  · have hpc : (if keeps then g.push v else g).advance.pc = a.frame.pc + 1 := by
      rw [← hg.pc]
      cases keeps <;> rfl
    rw [hpc]
    exact .next (.inl hg.flow)
  · rw [hg.kept, ← hg.stack]
    exact hlen
  · rw [← hg.handling]
    cases keeps <;> rfl

end Activation

namespace Machine

variable {vm : Machine} {s s' : State}

/-- The invariant of a run. -/
structure Sound (vm : Machine) (s : State) : Prop where
  current : s.current.Follows vm.module
  callers : ∀ c ∈ s.callers, c.Waits vm.module

/-- Of the faults of the code only an underflow may be left, where a depth has wrapped. -/
def SoundEnd (vm : Machine) (o : Outcome) : Prop :=
  ∀ e, o.result = .error (.fault e) → e.isOfCode = true →
    (∃ pos, e = .stackUnderflow pos) ∧ ¬ vm.module.Unwrapped

theorem soundEnd_of_not_isOfCode {w : World} {e : MachineFault} (h : e.isOfCode = false) :
    vm.SoundEnd ⟨.error (.fault e), w⟩ := by
  intro e' he hcode
  cases he
  rw [h] at hcode
  cases hcode

theorem soundEnd_thrown (w : World) (v : Value) : vm.SoundEnd ⟨.error (.thrown v), w⟩ := by
  intro e he
  cases he

/-- However far an exception goes up, the handler that catches it can be entered. -/
theorem sound_unwind (w : World) (v : Value) {a : Activation} {callers : List Caller}
    (ha : ∃ walk, a.Tidy vm.module walk) (hc : ∀ c ∈ callers, c.Waits vm.module) :
    (unwind w v a callers).Holds vm.Sound vm.SoundEnd := by
  obtain ⟨walk, htidy⟩ := ha
  induction callers generalizing a walk with
  | nil =>
    unfold unwind
    split
    · next a' hcatch => exact ⟨htidy.catch hcatch, hc⟩
    · exact soundEnd_thrown w v
  | cons c rest ih =>
    unfold unwind
    split
    · next a' hcatch => exact ⟨htidy.catch hcatch, hc⟩
    · obtain ⟨walk', htidy'⟩ := (hc c List.mem_cons_self).tidy
      exact ih (fun x hx => hc x (List.mem_cons_of_mem _ hx)) walk' htidy'

theorem sound_trap (w : World) {t : Trap} {a : Activation} {callers : List Caller}
    (ha : ∃ walk, a.Tidy vm.module walk) (hc : ∀ c ∈ callers, c.Waits vm.module)
    (ht : ∀ e, t = .fault e → vm.SoundEnd ⟨.error (.fault e), w⟩) :
    (trap w t a callers).Holds vm.Sound vm.SoundEnd := by
  unfold trap Trap.settle
  cases t with
  | raise e => exact sound_unwind _ _ ha hc
  | failed failure =>
    cases failure with
    | thrown v => exact sound_unwind _ _ ha hc
    | fault e => exact ht e rfl

theorem sound_giveBack (w : World) (v : Value) {callers : List Caller}
    (hc : ∀ c ∈ callers, c.Waits vm.module) :
    (giveBack w v callers).Holds vm.Sound vm.SoundEnd := by
  unfold giveBack
  split
  · intro e he
    cases he
  · next c rest =>
    exact ⟨(hc c List.mem_cons_self).resumes v, fun x hx => hc x (List.mem_cons_of_mem _ hx)⟩

/-- The only fault of a library member is that there is none. -/
theorem holds_hostCall (host : Host) (w : World) (member : MemberRef) (args : List Value)
    (current : Value) :
    Holds (host.call w member args current).1 (fun _ => True)
      (fun e => e = .unresolvedCall member.fullName) := by
  unfold Host.call
  dsimp only
  split
  · unfold Host.callHook
    dsimp only
    split
    · trivial
    · split
      · exact rfl
      · split
        · trivial
        · trivial
        · trivial
        · trivial
        · exact rfl
      · trivial
  · split
    · trivial
    · split
      · unfold Host.callMessage
        split <;> trivial
      · split
        · trivial
        · split
          · unfold Host.callJoin
            split <;> trivial
          · split
            · unfold Host.callFormat
              split <;> trivial
            · split
              · trivial
              · exact rfl

theorem declares_of_dispatch? {m : Module} {member : MemberRef} {d : Method}
    (h : m.dispatch? member = some d) : m.Declares d := by
  obtain ⟨t, ht, hd⟩ := Option.bind_eq_some_iff.1 h
  exact ⟨t, List.mem_of_find?_eq_some ht, List.mem_of_find?_eq_some hd⟩

/-- A method can always be made ready, or the fault is the caller's. -/
theorem not_isOfCode_of_activate {m : Module} (hv : m.Verified) {d : Method} (hd : m.Declares d)
    {typeName : String} {args : List Value} {live : Nat} {e : MachineFault}
    (h : d.activate typeName args live = .error e) : e.isOfCode = false := by
  unfold Method.activate at h
  dsimp only at h
  split at h
  · cases h; rfl
  · split at h
    · cases h; rfl
    · next b hb =>
      split at h
      · cases h; rfl
      · obtain ⟨k, hk⟩ := hv d b hd hb
        obtain ⟨w, hw, -⟩ := verifyBody_eq_ok_iff.1 hk
        obtain ⟨rs, hc, -⟩ := sound_of_verifyWalk hw
        have hrs : b.regions = .ok rs := hc.regions
        rw [hrs] at h
        cases h

theorem sound_call (hv : vm.module.Verified) (w : World) (member : MemberRef)
    (args : List Value) {c : Caller} {callers : List Caller} (hc : c.Waits vm.module)
    (hcs : ∀ c ∈ callers, c.Waits vm.module) :
    (vm.call w member args c callers).Holds vm.Sound vm.SoundEnd := by
  unfold call
  split
  · split
    · exact soundEnd_of_not_isOfCode rfl
    · next d hd =>
      split
      · next e he =>
        exact soundEnd_of_not_isOfCode (not_isOfCode_of_activate hv (declares_of_dispatch? hd) he)
      · next a ha =>
        refine ⟨Activation.follows_of_activate hv (declares_of_dispatch? hd) ha, ?_⟩
        intro x hx
        rcases List.mem_cons.1 hx with rfl | hx
        · exact hc
        · exact hcs x hx
  · have hhost := holds_hostCall vm.host w member args c.activation.routine.describe
    split
    · next v w' _ => exact ⟨hc.resumes v, hcs⟩
    · next t w' he =>
      refine sound_trap w' hc.tidy hcs fun e ht => ?_
      rw [he, ht] at hhost
      obtain rfl : e = _ := hhost
      exact soundEnd_of_not_isOfCode rfl

/-- A step keeps the invariant, and its faults are not faults of the code. -/
theorem sound_step (hv : vm.module.Verified) (hs : vm.Sound s) :
    (vm.step s).Holds vm.Sound vm.SoundEnd := by
  obtain ⟨⟨walk, d, htidy, hd⟩, hcallers⟩ := hs
  unfold step
  dsimp only
  split
  · next hnone =>
    obtain ⟨i, p, q, l, hsettled⟩ := htidy.settled hd.depth
    have hi : s.current.routine.code[s.current.frame.pc]? = some i := hsettled.code
    rw [hnone] at hi
    cases hi
  · next i hi =>
    have hshape := Frame.holds_step s.current.frame s.current.routine vm.module.imports
      s.world.heap i
    split
    · next t ht =>
      refine sound_trap _ ⟨walk, htidy⟩ hcallers fun e he => ?_
      rw [ht, he] at hshape
      intro e' he' hcode
      cases he'
      exact Activation.not_isOfCode_of_cause htidy hd hi hshape hcode
    · next f heap hstep =>
      rw [hstep] at hshape
      exact ⟨Activation.follows_of_goesOn htidy hd hi hshape, hcallers⟩
    · next v hstep => exact sound_giveBack _ v hcallers
    · next member args keeps f hstep =>
      rw [hstep] at hshape
      exact sound_call hv _ member args (Activation.waits_of_awaits htidy hd hi hshape) hcallers

theorem sound_start (hv : vm.module.Verified) (w : World) (typeName method : String)
    (args : List Value) : (vm.start w typeName method args).Holds vm.Sound vm.SoundEnd := by
  unfold start
  split
  · exact soundEnd_of_not_isOfCode rfl
  · next t ht =>
    split
    · exact soundEnd_of_not_isOfCode rfl
    · next d hd =>
      have hdecl : vm.module.Declares d :=
        ⟨t, List.mem_of_find?_eq_some ht, List.mem_of_find?_eq_some hd⟩
      split
      · next e he => exact soundEnd_of_not_isOfCode (not_isOfCode_of_activate hv hdecl he)
      · next a ha =>
        exact ⟨Activation.follows_of_activate hv hdecl ha, fun c hc => by cases hc⟩

theorem sound_of_reaches (hv : vm.module.Verified) {w : World} {typeName method : String}
    {args : List Value} (h : vm.Reaches w typeName method args s) : vm.Sound s := by
  obtain ⟨s₀, hstart, hsteps⟩ := h
  have h₀ := sound_start hv w typeName method args
  rw [hstart] at h₀
  refine hsteps.induct (fun s s' hs hstep => ?_) h₀
  have h := sound_step hv hs
  rw [hstep] at h
  exact h

/-- The end of a call from outside, in a verified module. -/
theorem soundEnd_of_invoke (hv : vm.module.Verified) {fuel : Nat} {w : World}
    {typeName method : String} {args : List Value} {o : Outcome}
    (h : vm.invoke fuel w typeName method args = some o) : vm.SoundEnd o := by
  rcases invoke_eq_some_iff.1 ⟨fuel, h⟩ with hdone | ⟨s, hs, hdone⟩
  · have h₀ := sound_start hv w typeName method args
    rw [hdone] at h₀
    exact h₀
  · have h₁ := sound_step hv (sound_of_reaches hv hs)
    rw [hdone] at h₁
    exact h₁

/-- In a module whose bodies pass the verifier, no activation fails for want of a value on its
stack, an instruction, an argument, a slot or the right operand. At every step its stack is as
high as the depth that the verifier found for the position, and never higher than the
verifier's greatest depth. -/
theorem stack_height_eq_depth (vm : Machine) (hv : vm.module.Verified)
    (hu : vm.module.Unwrapped) (w : World) (typeName method : String) (args : List Value) :
    (∀ fuel o e, vm.invoke fuel w typeName method args = some o →
      o.result = .error (.fault e) → e.isOfCode = false) ∧
    ∀ s, vm.Reaches w typeName method args s →
      ∃ walk k d, verifyWalk s.current.routine.method s.current.routine.body vm.module.imports =
          .ok walk ∧
        verifyBody s.current.routine.method s.current.routine.body vm.module.imports = .ok k ∧
        walk.depth? s.current.frame.pc = some d ∧
        s.current.frame.stack.length = d.toNat ∧ s.current.frame.stack.length ≤ k.toNat := by
  refine ⟨fun fuel o e h he => ?_, fun s hs => ?_⟩
  · cases hcode : e.isOfCode with
    | false => rfl
    | true => exact absurd hu (soundEnd_of_invoke hv h e he hcode).2
  · obtain ⟨walk, d, htidy, hd⟩ := (sound_of_reaches hv hs).current
    have hbelow := htidy.sound.2.1.below _ _ hd.depth
    refine ⟨walk, walk.maxStack, d, htidy.verified, ?_, hd.depth, hd.height hu, ?_⟩
    · exact verifyBody_eq_ok_iff.2 ⟨walk, htidy.verified, rfl⟩
    · rw [hd.height hu]
      exact UInt16.le_iff_toNat_le.1 hbelow

/-- A module with a method that calls itself until its argument is 0. -/
def descending : Module where
  name := "Descending"
  types := [⟨"Chain", [{
    name := "Descend"
    flags := .static
    params := [⟨0, "n", .int32⟩]
    body? := some (.ofList [.ldarg 0, ⟨.brfalse, .target 6⟩, .ldarg 0, .ldcI4 1, .plain .sub,
      .call 0, .plain .ret]) }]⟩]
  imports := ⟨[⟨.module, "Chain", "Descend", [.int32], .void, true⟩]⟩

/-- The chain of calls is safe, whether or not it ends before the limit of the call depth. -/
theorem descending_stack_height :
    descending.Verified ∧ descending.Unwrapped ∧
      ∀ fuel o e, Machine.invoke ⟨descending, {}⟩ fuel {} "Chain" "Descend" [.int32 70] = some o →
        o.result = .error (.fault e) → e.isOfCode = false := by
  have hv : descending.Verified := by
    intro d b hd hb
    obtain ⟨t, ht, hd⟩ := hd
    cases List.mem_singleton.1 ht
    cases List.mem_singleton.1 hd
    cases hb
    exact ⟨2, toOption_eq_some.1 (by decide +kernel)⟩
  have hu : descending.Unwrapped := by
    intro d b hd hb
    obtain ⟨t, ht, hd⟩ := hd
    cases List.mem_singleton.1 ht
    cases List.mem_singleton.1 hd
    cases hb
    exact ⟨by decide, by decide, by decide⟩
  exact ⟨hv, hu, (stack_height_eq_depth ⟨descending, {}⟩ hv hu {} "Chain" "Descend" _).1⟩

end Machine

end Interpose
