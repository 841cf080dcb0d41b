import Interpose.Proofs.Weave.Phases
/-!
# The protocol of the hooks

What one activation of a woven method announces, from its first instruction to its end,
whatever it and the activations that it calls do in between: its entrance; nothing while
it is in the original code; and at its end the exit, or the exception and the exit.

Only the calls that weaving added count. They are told from the original ones by their
ids, which are those that the original body does not have.

The original code must not refer to instructions by ids that weaving gives out: a branch to
such an id leads into the added code.

Results:
* `obeys_amongBody`: the original code adds nothing to what is announced.
* `hook_protocol`: what every activation of a woven method announces.
* `looping_announces_twice`: a method with a branch to an instruction that weaving adds.
-/
namespace Interpose

/-- Is the instruction at this position one that the original body did not have? -/
def Body.adds (woven original : Body) (pos : Nat) : Bool :=
  woven.ids[pos]?.any fun id => original.size ≤ id

/-- What the calls announce that weaving added to a body. -/
def Machine.emitted (vm : Machine) (original woven : Body) (log : List Call) :
    List Announcement :=
  (log.filter fun c => woven.adds original c.pos).filterMap
    (·.announcement? vm.host.dispatcherType)

/-- What is announced as the activation at a depth goes on: the state that it has come to,
and the announcements so far. -/
structure Obeys (vm : Machine) (exitOnReturn : Bool) (original : Body) (hooks : WovenHooks)
    (entrance : List Announcement) (r : Routine) (n : Nat) (as : List Announcement)
    (s : State) : Prop where
  /-- A return announces the exit if it is asked to. -/
  returns : ∀ v, vm.Returns n s v →
    as = entrance ++ if exitOnReturn && hooks.exit then [.exit] else []
  /-- The exception that ends the activation is announced, and then the exit. -/
  uncaught : ∀ e, vm.Uncaught n s e →
    as = entrance ++ ((if hooks.exception then [.exception e] else []) ++
      if hooks.exit then [.exit] else [])
  /-- At an instruction of the original body nothing but the entrance has been announced. -/
  within : s.callers.length = n → r.body.adds original s.current.frame.pc = false → as = entrance
  /-- An exception out of an added instruction is not caught by the activation. -/
  raised : s.callers.length = n → r.body.adds original s.current.frame.pc = true →
    ∀ e, vm.Raises s e → vm.Uncaught n s e

theorem Machine.emitted_append (vm : Machine) (original woven : Body) (log log' : List Call) :
    vm.emitted original woven (log ++ log') =
      vm.emitted original woven log ++ vm.emitted original woven log' := by
  unfold emitted
  rw [List.filter_append, List.filterMap_append]

namespace WovenRoutine

variable {vm : Machine} {p : WeavePass} {d : Method} {hooks : WovenHooks} {L : Layout}
  {array exception : SlotId} {r : Routine} {base : List Caller} {f g : Frame} {w w' : World}
  {s s' : State} {e v : Value} {as entrance : List Announcement} {log : List Call}
  {exitOnReturn : Bool}

section

variable (h : WovenRoutine vm p d hooks L array exception r)
include h

/-- Before and after the original code all instructions are added ones. -/
theorem adds_of_outside {pos : Nat} {i : Instruction} (hi : r.code[pos]? = some i)
    (hpos : pos < L.front.length ∨ L.shift L.body.size ≤ pos) :
    r.body.adds L.body pos = true := by
  rw [h.code_fetch] at hi
  obtain ⟨hlt, -⟩ := List.getElem?_eq_some_iff.1 hi
  have hids : r.body.ids.length = r.body.code.length := by
    simp only [Body.ids, Body.code, List.length_map]
  have hid : r.body.ids[pos]? = some r.body.ids[pos] := List.getElem?_eq_getElem (hids ▸ hlt)
  unfold Body.adds
  rw [hid, Option.any_some, decide_eq_true_eq]
  exact h.describes.size_le_of_outside hid hpos

theorem not_adds_of_original {q id : Nat} {i : Instruction}
    (hs : L.body.stream[q]? = some (id, i)) : r.body.adds L.body (L.shift q) = false := by
  have hposition := Body.stream_getElem?.1 hs
  have hid := Body.position?_eq_some_iff.1 (h.describes.position?_shift hposition.1)
  have hlt : id < L.body.size := by
    rw [← Body.mem_ids]
    exact List.mem_of_getElem? (Body.position?_eq_some_iff.1 hposition.1)
  unfold Body.adds
  rw [hid, Option.any_some, decide_eq_false_iff_not]
  omega

/-! ## The original code -/

/-- The added instructions among the original code neither call nor raise anything. -/
theorem step_adds_inBody (hf : InBody L r f) {i : Instruction} (hi : r.code[f.pc]? = some i)
    (ha : r.body.adds L.body f.pc = true) (heap : Heap) :
    (∃ g, f.step r vm.module.imports heap i = .ok (.next g heap)) ∨
      ∃ cause, f.step r vm.module.imports heap i = .error (.fault cause) := by
  rcases h.code_inBody hf with ⟨q, id, j, hs, -, hpc, -⟩ | ⟨slot, -, hj⟩ | hj
  · rw [hpc, h.not_adds_of_original hs] at ha
    cases ha
  · obtain rfl := Option.some.inj (hi.symm.trans hj)
    show (∃ g, (f.pop >>= _) = _) ∨ ∃ cause, (f.pop >>= _) = _
    unfold Frame.pop
    cases f.stack with
    | nil => exact .inr ⟨_, rfl⟩
    | cons v rest =>
      by_cases hlt : slot.toNat < f.locals.length
      · have hstore : Frame.storeSlot { f with stack := rest } slot v =
            .ok { f with locals := f.locals.set slot.toNat v, stack := rest } := if_pos hlt
        exact .inl ⟨_, bind_eq_ok.2 ⟨_, rfl, bind_eq_ok.2 ⟨_, hstore, rfl⟩⟩⟩
      · have hstore : Frame.storeSlot { f with stack := rest } slot v =
            .error (.fault (.typeMismatch f.pc (.noLocal slot))) := if_neg hlt
        refine .inr ⟨.typeMismatch f.pc (.noLocal slot), ?_⟩
        show (Frame.storeSlot { f with stack := rest } slot v >>= _) = _
        rw [hstore]
        rfl
  · obtain rfl := Option.some.inj (hi.symm.trans hj)
    have ht : r.target (.leave L.exit) = .ok L.exitPos :=
      mapError_eq_ok.2 (Body.anchor_eq_ok.2 h.describes.position?_exit)
    exact .inl ⟨_, bind_eq_ok.2 ⟨_, ht, rfl⟩⟩

/-- The activation announces nothing by a step in the original code. -/
theorem emitted_calls_amongBody (ha : AmongBody L r base s) :
    vm.emitted L.body r.body (vm.calls base.length s) = [] := by
  cases ha with
  | waiting front hf hnext =>
    unfold Machine.calls
    rw [if_neg (Machine.length_callers_ne front _ base)]
    rfl
  | @current f w hf =>
    unfold Machine.calls
    rw [if_pos rfl]
    cases hcall : vm.call? ⟨⟨r, f⟩, base, w⟩ with
    | none => rfl
    | some c =>
      obtain ⟨i, member, args, keeps, g, hi, hs, rfl⟩ := Machine.exists_of_call? hcall
      have hadds : r.body.adds L.body f.pc = false := by
        rw [← Bool.not_eq_true]
        intro hadds
        rcases h.step_adds_inBody hf hi hadds w.heap with ⟨g, hs'⟩ | ⟨cause, hs'⟩
        · cases hs.symm.trans hs'
        · cases hs.symm.trans hs'
      unfold Machine.emitted
      rw [Option.toList_some, List.filter_cons, if_neg (Bool.eq_false_iff.1 hadds)]
      rfl

theorem obeys_amongBody (hapart : L.body.Apart r.body) (ha : AmongBody L r base s) :
    Obeys vm exitOnReturn L.body hooks entrance r base.length entrance s := by
  cases ha with
  | @waiting a front f keeps w hf hnext =>
    have hdepth := Machine.length_callers_ne front ⟨⟨r, f⟩, keeps⟩ base
    refine ⟨fun v hv => absurd hv.1 hdepth, fun e he => ?_, fun hn => absurd hn hdepth,
      fun hn => absurd hn hdepth⟩
    exact absurd (Machine.uncaught_at rfl he) (h.catch_ne_none_inBody hapart hf e)
  | @current f w hf =>
    refine ⟨fun v hv => ?_, fun e he => ?_, fun _ _ => rfl, fun _ hadds e he => ?_⟩
    · obtain ⟨-, i, hi, hs⟩ := hv
      have hshape := Frame.holds_step f r vm.module.imports w.heap i
      rw [hs] at hshape
      exact absurd hshape (h.ne_ret_of_inBody hf hi)
    · exact absurd he.current (h.catch_ne_none_inBody hapart hf e)
    · obtain ⟨i, hi⟩ := h.exists_code_inBody hf
      rcases h.step_adds_inBody hf hi hadds w.heap with ⟨g, hs⟩ | ⟨cause, hs⟩
      · exact absurd he (Machine.not_raises_of_next hi hs)
      · exact absurd he (Machine.not_raises_of_fault hi hs)

/-! ## Stretches -/

omit h in
theorem emitted_of_adds (hall : ∀ c ∈ log, r.body.adds L.body c.pos = true) :
    vm.emitted L.body r.body log = log.filterMap (·.announcement? vm.host.dispatcherType) := by
  unfold Machine.emitted
  rw [List.filter_eq_self.2 hall]

/-- All instructions of a stretch outside the original code are added ones. -/
theorem adds_of_stretch {first last pos : Nat} {i : Instruction} (hi : r.code[last]? = some i)
    (hout : last ≤ L.front.length ∨ L.shift L.body.size ≤ first) (hfirst : first ≤ pos)
    (hlast : pos < last) : r.body.adds L.body pos = true := by
  obtain ⟨hlt, -⟩ := Array.getElem?_eq_some_iff.1 hi
  exact h.adds_of_outside (Array.getElem?_eq_getElem (Nat.lt_trans hlast hlt)) (by omega)

theorem obeys_amid {first last : Nat} {i : Instruction} (hi : r.code[last]? = some i)
    (hout : last ≤ L.front.length ∨ L.shift L.body.size ≤ first)
    (ha : vm.Amid r base first last s) :
    Obeys vm exitOnReturn L.body hooks entrance r base.length as s := by
  have hadds := h.adds_of_stretch hi hout ha.after ha.before
  refine ⟨fun v hv => absurd hv (ha.returns v), fun e he => absurd he.raises (ha.raises e),
    fun _ hn => ?_, fun _ _ e he => absurd he (ha.raises e)⟩
  rw [hadds] at hn
  cases hn

/-- The exit announces the exit if it is asked to, and returns. -/
theorem obeys_exit (hf : AtExit L r f) (hl : vm.Lives base.length ⟨⟨r, f⟩, base, w⟩ log s) :
    Obeys vm p.config.notifyExitOnReturn L.body hooks entrance r base.length
      (entrance ++ vm.emitted L.body r.body log) s := by
  obtain ⟨v, hv, hnull⟩ : ∃ v, (∀ slot, L.result? = some slot →
      f.locals[slot.toNat]? = some v) ∧ (L.result? = none → v = .null) := by
    cases hres : L.result? with
    | none => exact ⟨.null, nofun, fun _ => rfl⟩
    | some slot =>
      have hlt := (h.lt_of_owns (h.parts.resultSlot slot hres) hf.locals).2
      refine ⟨f.locals[slot.toNat], fun slot' hs => ?_, nofun⟩
      cases hs
      exact List.getElem?_eq_getElem hlt
  obtain ⟨g, w', ⟨log', hp, has⟩, -, hret, hstep⟩ :=
    h.announces_exit (w := w) hf.pc hv hnull
  have hout : g.pc ≤ L.front.length ∨ L.shift L.body.size ≤ f.pc := by
    rw [hf.pc, Layout.exitPos]
    omega
  rcases hl.split hp with ⟨rest, -, hamid⟩ | ⟨rest, rfl, hlater⟩
  · exact h.obeys_amid hret hout hamid
  · have hreturns : vm.Returns base.length ⟨⟨r, g⟩, base, w'⟩ v := ⟨rfl, _, hret, hstep _⟩
    obtain ⟨rfl, rfl⟩ := hlater.eq_of_returns hreturns
    have hquiet (e : Value) : ¬ vm.Raises ⟨⟨r, g⟩, base, w'⟩ e :=
      Machine.not_raises_of_ret hret (hstep _)
    have hadds : r.body.adds L.body g.pc = true := by
      have hbounds := hp.bounds.1
      refine h.adds_of_outside hret (.inr ?_)
      rw [hf.pc, Layout.exitPos] at hbounds
      omega
    refine ⟨fun v' _ => ?_, fun e he => absurd he.raises (hquiet e), fun _ hn => ?_,
      fun _ _ e he => absurd he (hquiet e)⟩
    · rw [List.append_nil, emitted_of_adds, has]
      exact fun c hc => h.adds_of_stretch hret hout (hp.bounds.2 c hc).1 (hp.bounds.2 c hc).2
    · rw [hadds] at hn
      cases hn

/-- The handler of the guard announces the exception and the exit, and raises the
exception again. -/
theorem obeys_caught (hapart : L.body.Apart r.body) (hf : Caught L r e f)
    (hl : vm.Lives base.length ⟨⟨r, f⟩, base, w⟩ log s) :
    Obeys vm exitOnReturn L.body hooks entrance r base.length
      (entrance ++ vm.emitted L.body r.body log) s := by
  obtain ⟨hrethrow, locals, w', ⟨log', hp, has⟩, -, -⟩ :=
    h.announces_handler (w := w) hf.pc hf.stack hf.locals
  generalize hg : ({ f with locals := locals, stack := [], pc := L.rethrowPos } : Frame) = g at hp
  have hpc : g.pc = L.rethrowPos := by rw [← hg]
  have hcode : r.code[g.pc]? = some (.plain .rethrow) := by rw [hpc, hrethrow]
  have hout : g.pc ≤ L.front.length ∨ L.shift L.body.size ≤ f.pc := by
    rw [hf.pc]
    omega
  rcases hl.split hp with ⟨rest, -, hamid⟩ | ⟨rest, rfl, hlater⟩
  · exact h.obeys_amid hcode hout hamid
  · obtain ⟨range, inner, hhandling⟩ := hf.handling
    obtain ⟨rs, hrs⟩ := h.exists_regions hapart
    have hactive : g.handling = ⟨range, e⟩ :: inner := by rw [← hg, ← hhandling]
    have hstep : g.step r vm.module.imports w'.heap (.plain .rethrow) =
        .error (.failed (.thrown e)) := Machine.step_rethrow hactive
    have hraises : vm.Raises ⟨⟨r, g⟩, base, w'⟩ e := .instruction hcode hstep rfl
    have huncaught : vm.Uncaught base.length ⟨⟨r, g⟩, base, w'⟩ e := by
      refine ⟨hraises, Nat.le_refl _, ?_, fun c hc => ?_⟩
      · unfold Activation.catch?
        rw [h.catch_rethrow hrs hpc]
        rfl
      · rw [Nat.sub_self, List.take_zero] at hc
        cases hc
    obtain ⟨rfl, rfl⟩ := hlater.eq_of_uncaught huncaught
    have hadds : r.body.adds L.body g.pc = true := by
      refine h.adds_of_outside hcode (.inr ?_)
      rw [hpc, Layout.rethrowPos]
      omega
    have honly (e' : Value) (he : vm.Raises ⟨⟨r, g⟩, base, w'⟩ e') : e' = e :=
      Machine.raises_eq_of_thrown hcode hstep he
    refine ⟨fun v hv => ?_, fun e' he => ?_, fun _ hn => ?_, fun _ _ e' he => ?_⟩
    · cases Machine.ret_of_returns hcode hstep hv
    · obtain rfl := honly e' he.raises
      rw [List.append_nil, emitted_of_adds, has]
      exact fun c hc => h.adds_of_stretch hcode hout (hp.bounds.2 c hc).1 (hp.bounds.2 c hc).2
    · rw [hadds] at hn
      cases hn
    · rw [honly e' he]
      exact huncaught

/-! ## Whole activations -/

theorem obeys_onward (hapart : L.body.Apart r.body) (ha : Onward L r base s)
    (hl : vm.Lives base.length s log s') :
    Obeys vm p.config.notifyExitOnReturn L.body hooks entrance r base.length
      (entrance ++ vm.emitted L.body r.body log) s' := by
  -- Once the original code is left, what follows is one stretch; before, by induction on
  -- the steps taken in it.
  induction hl with
  | refl s =>
    cases ha with
    | among hs =>
      have has : entrance ++ vm.emitted L.body r.body [] = entrance := List.append_nil _
      rw [has]
      exact h.obeys_amongBody hapart hs
    | exit hf => exact h.obeys_exit hf (.refl _)
    | caught hf => exact h.obeys_caught hapart hf (.refl _)
  | step hstep hn hrest ih =>
    cases ha with
    | among hs =>
      rw [vm.emitted_append, h.emitted_calls_amongBody hs, List.nil_append]
      exact ih (h.onward_step hapart hs hstep)
    | exit hf => exact h.obeys_exit hf (.step hstep hn hrest)
    | caught hf => exact h.obeys_caught hapart hf (.step hstep hn hrest)

/-- What an activation of a woven method announces, from its start on. -/
theorem exists_entrance (hapart : L.body.Apart r.body) (hpc : f.pc = 0)
    (hargs : f.args.length = d.argCount.toNat) (hlocals : f.locals.length = r.body.locals.size)
    (base : List Caller) (w : World) :
    ∃ entrance, Entrance hooks d (p.context.described r) f.args entrance ∧
      ∀ log s, vm.Lives base.length ⟨⟨r, f⟩, base, w⟩ log s →
        Obeys vm p.config.notifyExitOnReturn L.body hooks entrance r base.length
          (vm.emitted L.body r.body log) s := by
  obtain ⟨as, locals, w', ⟨log', hp, has⟩, hentrance, -, hlen, -⟩ :=
    h.opens_prologue (w := w) hpc hargs hlocals
  have hfirst := shift_mem_body L (Nat.zero_le L.body.size)
  generalize hg : ({ f with locals := locals, pc := L.shift 0 } : Frame) = g at hp
  have hgpc : g.pc = L.shift 0 := by rw [← hg]
  have hgbody : InBody L r g := by
    rw [← hg]
    exact ⟨hfirst.1, hfirst.2, hlen.trans hlocals⟩
  obtain ⟨i, hi⟩ := h.exists_code_inBody hgbody
  have hout : g.pc ≤ L.front.length ∨ L.shift L.body.size ≤ f.pc := by
    rw [hgpc, Layout.shift_zero]
    omega
  refine ⟨as, hentrance, fun log s hl => ?_⟩
  rcases hl.split hp with ⟨rest, -, hamid⟩ | ⟨rest, rfl, hlater⟩
  · exact h.obeys_amid hi hout hamid
  · have hemitted : vm.emitted L.body r.body log' = as := by
      rw [emitted_of_adds, has]
      exact fun c hc => h.adds_of_stretch hi hout (hp.bounds.2 c hc).1 (hp.bounds.2 c hc).2
    rw [vm.emitted_append, hemitted]
    exact h.obeys_onward hapart (.among (.current hgbody)) hlater

end

end WovenRoutine

/-- What every activation of a woven method announces, its reported hooks being `hooks`:
at first its entrance, nothing more in the original code, and at its end what is due. The
original body refers to none of the added instructions. -/
theorem hook_protocol {m m' : Module} {config : WeaveConfig} {stopped : Bool}
    {report : WeaveReport} (host : Host) (hw : m.weave config stopped = .ok (report, m'))
    (hc : report.cancelled = false) (htype : host.dispatcherType = config.dispatcherType)
    (hsystem : config.dispatcherType ∉ systemTypes)
    (hdeclared : (m.pass config).context.AsDeclared (m.pass config).imports
      (hostLibraries config.dispatcherType config.hookLibrary))
    {t : TypeDef} (ht : t ∈ m.types) {d d' : Method} (hd : d ∈ t.methods) {hooks : WovenHooks}
    (hv : (m.pass config).visit t.name d = (.ok hooks, d')) {b : Body} (hb : d.body? = some b)
    {args : List Value} {live : Nat} {a : Activation}
    (ha : d'.activate t.name args live = .ok a) (hapart : b.Apart a.routine.body)
    (callers : List Caller) (w : World) :
    (t.name ++ "::" ++ d.name, hooks) ∈ report.instrumented ∧
    ∃ entrance, Entrance hooks d ((m.pass config).context.described a.routine) args entrance ∧
      ∀ log s, Machine.Lives ⟨m', host⟩ callers.length ⟨a, callers, w⟩ log s →
        Obeys ⟨m', host⟩ config.notifyExitOnReturn b hooks entrance a.routine callers.length
          (Machine.emitted ⟨m', host⟩ b a.routine.body log) s := by
  refine ⟨(mem_instrumented_iff hw hc).2 ⟨t, ht, d, hd, rfl, d', hv⟩, ?_⟩
  have hosts := hosts_of_weave host hw hc htype hsystem hdeclared ht hd hv
  rcases (m.pass config).visit_cases t.name d with ⟨reason, hsame⟩ |
    ⟨hooks', d'', hv', L, array, exception, woven, maxStack, hwoven⟩
  · cases hv.symm.trans hsame
  · cases hv.symm.trans hv'
    obtain rfl := Option.some.inj (hb.symm.trans hwoven.body)
    obtain ⟨r, f⟩ := a
    obtain ⟨hr, hframe, hargs, -, -⟩ := wovenRoutine_of_activate hwoven hosts ha
    have hfargs : f.args = args := congrArg Frame.args hframe
    have hlocals := Method.length_locals_of_activate ha
    rw [← hfargs] at hargs ⊢
    exact hr.exists_entrance hapart (congrArg Frame.pc hframe) hargs hlocals callers w

/-- A module with a method that divides its arguments. -/
def divider : Module where
  name := "Shop"
  types := [⟨"Cart", [{
    name := "Split"
    flags := .static
    params := [⟨0, "total", .int32⟩, ⟨1, "people", .int32⟩]
    returnType := .int32
    body? := some (.ofList [.ldarg 0, .ldarg 1, .plain .div, .plain .ret]) }]⟩]
  references := hostLibraries defaultDispatcherType defaultHookLibrary

/-- A division by zero obeys the protocol. -/
theorem divider_hook_protocol :
    ∃ (report : WeaveReport) (m' : Module) (d' : Method) (a : Activation),
      divider.weave {} false = .ok (report, m') ∧
      d'.activate "Cart" [.int32 7, .int32 0] 0 = .ok a ∧
      ∃ (d : Method) (b : Body) (entrance : List Announcement),
        Entrance ⟨true, true, true, true, false⟩ d
          ((divider.pass {}).context.described a.routine) [.int32 7, .int32 0] entrance ∧
        ∀ log s, Machine.Lives ⟨m', {}⟩ 0 ⟨a, [], {}⟩ log s →
          Obeys ⟨m', {}⟩ false b ⟨true, true, true, true, false⟩ entrance a.routine 0
            (Machine.emitted ⟨m', {}⟩ b a.routine.body log) s := by
  obtain ⟨d, hd⟩ : ∃ d, divider.types = [⟨"Cart", [d]⟩] := ⟨_, rfl⟩
  obtain ⟨b, hb⟩ : ∃ b, d.body? = some b := by
    cases hd
    exact ⟨_, rfl⟩
  have hclosed : b.Closed := by
    cases hd
    cases hb
    exact ⟨by decide, fun x hx => absurd hx List.not_mem_nil⟩
  have hweave : (divider.weave {} false).toOption.any (fun r => !r.1.cancelled) = true := by
    decide +kernel
  have hvisit : ((divider.pass {}).visit "Cart" d).1.toOption =
      some ⟨true, true, true, true, false⟩ := by
    cases hd
    decide +kernel
  have hactivate : (((divider.pass {}).visit "Cart" d).2.activate "Cart"
      [.int32 7, .int32 0] 0).toOption.isSome = true := by
    cases hd
    decide +kernel
  obtain ⟨⟨report, m'⟩, hw, hc⟩ := (Option.any_eq_true _ _).1 hweave
  obtain ⟨a, ha⟩ := Option.isSome_iff_exists.1 hactivate
  have hw := toOption_eq_some.1 hw
  have ha := toOption_eq_some.1 ha
  have ht : (⟨"Cart", [d]⟩ : TypeDef) ∈ divider.types := by
    rw [hd]
    exact List.mem_cons_self
  have hv : (divider.pass {}).visit "Cart" d = (.ok ⟨true, true, true, true, false⟩,
      ((divider.pass {}).visit "Cart" d).2) := Prod.ext (toOption_eq_some.1 hvisit) rfl
  obtain ⟨-, entrance, hentrance, hobeys⟩ := hook_protocol {} hw (by simpa using hc) rfl
    (by decide) (by decide +kernel) ht List.mem_cons_self hv hb ha (hclosed.apart _) [] {}
  exact ⟨report, m', _, a, hw, ha, d, b, entrance, hentrance, hobeys⟩

/-- A module with a method that branches to an instruction it does not have. -/
def looping : Module where
  name := "Shop"
  types := [⟨"Cart", [{
    name := "Loop"
    flags := .static
    params := [⟨0, "again", .int32⟩]
    body? := some (.ofList [.ldarg 0, ⟨.brfalse, .target 5⟩, .ldcI4 0, ⟨.starg, .argument 0⟩,
      ⟨.br, .target 7⟩, .plain .ret]) }]⟩]
  references := hostLibraries defaultDispatcherType defaultHookLibrary

/-- The second branch leads nowhere, and the body does not verify. Weaving inserts an instruction
under the id that it names, so it leads into the prologue then, and the method announces its
entrance twice. -/
theorem looping_announces_twice :
    ∃ (report : WeaveReport) (m' : Module) (d d' : Method) (b : Body) (a : Activation)
      (log : List Call) (s : State),
      looping.weave {} false = .ok (report, m') ∧ report.cancelled = false ∧
      (looping.pass {}).context.AsDeclared (looping.pass {}).imports
        (hostLibraries defaultDispatcherType defaultHookLibrary) ∧
      ⟨"Cart", [d]⟩ ∈ looping.types ∧ d.body? = some b ∧
      verifyBody d b m'.imports = .error (.unknownInstruction 7) ∧
      (looping.pass {}).visit "Cart" d = (.ok ⟨true, true, true, true, false⟩, d') ∧
      d'.activate "Cart" [.int32 1] 0 = .ok a ∧ ¬ b.Apart a.routine.body ∧
      Machine.Lives ⟨m', {}⟩ 0 ⟨a, [], {}⟩ log s ∧ Machine.Returns ⟨m', {}⟩ 0 s .null ∧
      Machine.emitted ⟨m', {}⟩ b a.routine.body log =
        [.init .null (.method "Cart" "Loop") [.boxed 0 (.int32 1)], .entry,
          .init .null (.method "Cart" "Loop") [.boxed 1 (.int32 0)], .entry] ∧
      ∀ entrance, Entrance ⟨true, true, true, true, false⟩ d
          ((looping.pass {}).context.described a.routine) [.int32 1] entrance →
        ¬ Obeys ⟨m', {}⟩ false b ⟨true, true, true, true, false⟩ entrance a.routine 0
          (Machine.emitted ⟨m', {}⟩ b a.routine.body log) s := by
  obtain ⟨d, hd⟩ : ∃ d, looping.types = [⟨"Cart", [d]⟩] := ⟨_, rfl⟩
  obtain ⟨b, hb⟩ : ∃ b, d.body? = some b := by
    cases hd
    exact ⟨_, rfl⟩
  have hrun : ((looping.weave {} false).toOption.any fun r => !r.1.cancelled &&
      decide (verifyBody d b r.2.imports = .error (.unknownInstruction 7)) &&
      (((looping.pass {}).visit "Cart" d).2.activate "Cart" [.int32 1] 0).toOption.any fun a =>
        decide (¬ b.Apart a.routine.body) &&
        (Machine.lifetime ⟨r.2, {}⟩ 0 39 ⟨a, [], {}⟩).any fun l =>
          decide (Machine.emitted ⟨r.2, {}⟩ b a.routine.body l.1 =
            [.init .null (.method "Cart" "Loop") [.boxed 0 (.int32 1)], .entry,
              .init .null (.method "Cart" "Loop") [.boxed 1 (.int32 0)], .entry]) &&
          decide (Machine.returned? ⟨r.2, {}⟩ 0 l.2 = some .null)) = true := by
    cases hd
    cases hb
    decide +kernel
  have hvisit : ((looping.pass {}).visit "Cart" d).1.toOption =
      some ⟨true, true, true, true, false⟩ := by
    cases hd
    decide +kernel
  obtain ⟨⟨report, m'⟩, hw, hrun⟩ := (Option.any_eq_true _ _).1 hrun
  simp only [Bool.and_eq_true, Bool.not_eq_true', decide_eq_true_eq] at hrun
  obtain ⟨⟨hc, hverify⟩, hrun⟩ := hrun
  obtain ⟨a, ha, hrun⟩ := (Option.any_eq_true _ _).1 hrun
  simp only [Bool.and_eq_true, decide_eq_true_eq] at hrun
  obtain ⟨hapart, hrun⟩ := hrun
  obtain ⟨⟨log, s⟩, hl, hrun⟩ := (Option.any_eq_true _ _).1 hrun
  simp only [Bool.and_eq_true, decide_eq_true_eq] at hrun
  obtain ⟨hemitted, hreturned⟩ := hrun
  have hreturns : Machine.Returns ⟨m', {}⟩ 0 s .null :=
    Machine.returned?_eq_some_iff.1 hreturned
  refine ⟨report, m', d, _, b, a, log, s, toOption_eq_some.1 hw, hc, by decide +kernel, ?_, hb,
    hverify, Prod.ext (toOption_eq_some.1 hvisit) rfl, toOption_eq_some.1 ha, hapart,
    Machine.lives_of_lifetime hl, hreturns, hemitted, fun entrance hentrance hobeys => ?_⟩
  · rw [hd]
    exact List.mem_cons_self
  · -- The entrance is two announcements, and a return adds none to it.
    obtain ⟨xs, heap, -, rfl⟩ := hentrance
    have htwo := congrArg List.length (hobeys.returns .null hreturns)
    rw [hemitted] at htwo
    cases htwo

end Interpose
