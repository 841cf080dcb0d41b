import Interpose.Proofs.Weave.Pass
import Interpose.Proofs.Weave.Snapshot
/-!
# What a woven method does around the original code

The stretches that weaving adds, executed: the prologue before the first instruction, the
way from a return through the exit, and the handler of the guard up to the instruction
that raises the exception again.

Results:
* `hosts_of_weave`, `wovenRoutine_of_activate`: a woven method that was made ready to run,
  and what it calls.
* `opens_prologue`, `announces_handler`, `announces_exit`: the stretches, each with what it
  announces.
-/
namespace Interpose

/-! ## Reached code -/

namespace Walk

variable {c : VerifyContext} {w : Walk}

/-- The verifier checks straight code to its end once it has reached it. -/
theorem checked_of_straight (hs : Sound c w) (hn : w.work = []) {run : List Instruction}
    {pos : Nat} {d : UInt16} (hd : w.depth? pos = some d) (hat : CodeAt c.code.toList pos run)
    (hrun : Straight run) :
    ∀ i ∈ run, checkOperand c.method c.body c.imports i = .ok () := by
  induction run generalizing pos d with
  | nil =>
    intro i hi
    cases hi
  | cons j rest ih =>
    obtain ⟨j', p, q, l, hsettled⟩ := hs.settled pos d hd (by rw [hn]; exact List.not_mem_nil)
    obtain rfl : j = j' := Option.some.inj (hat.fetch.symm.trans hsettled.code)
    have hflow : j.opcode.flow = .next := hrun j List.mem_cons_self
    have hedge : c.Edge pos j (pos + 1) := .next (.inl hflow)
    have hnext := hsettled.handed _ (hsettled.passes.exists_of_edge hedge)
    intro i hi
    rcases List.mem_cons.1 hi with rfl | hi
    · exact hsettled.operand
    · exact ih hnext hat.tail (fun k hk => hrun k (List.mem_cons_of_mem _ hk)) i hi

end Walk

namespace Capture

theorem mem_storeAll {array : SlotId} {index : Nat} {as : List CapturedArgument}
    {a : CapturedArgument} (ha : a ∈ as) : Instruction.ldarg a.slot ∈ storeAll array index as := by
  induction as generalizing index with
  | nil => cases ha
  | cons b rest ih =>
    unfold storeAll
    rcases List.mem_cons.1 ha with rfl | ha
    · refine List.mem_append_left _ (List.mem_append_left _ (List.mem_append_left _ ?_))
      exact List.mem_cons_of_mem _ (List.mem_cons_of_mem _ List.mem_cons_self)
    · exact List.mem_append_right _ (ih ha)

end Capture

/-! ## What is announced -/

/-- What a woven method announces before its first instruction. -/
def Entrance (hooks : WovenHooks) (d : Method) (method : Value) (args : List Value)
    (as : List Announcement) : Prop :=
  ∃ xs heap, ((hooks.init || hooks.trace) = true → d.Captured args xs) ∧
    as = (if hooks.init then [.init .null method xs] else []) ++
      (if hooks.trace then [.console (traceLine d.name heap xs)] else []) ++
        if hooks.entry then [.entry] else []

/-- A frame of a woven method leads to a position, and announces the entrance on the way. The
slots of the original body keep their values. -/
def Opens (vm : Machine) (p : WeavePass) (d : Method) (hooks : WovenHooks) (L : Layout)
    (r : Routine) (f : Frame) (w : World) (pos : Nat) : Prop :=
  ∃ as locals w', vm.Announces r f w as { f with locals := locals, pc := pos } w' ∧
    Entrance hooks d (p.context.described r) f.args as ∧
    w.heap.Keeps w.heap.arrays.size w'.heap ∧ locals.length = f.locals.length ∧
    ∀ k, k < L.body.locals.size → locals[k]? = f.locals[k]?

/-! ## Woven routines -/

/-- A woven method that the machine runs, and what it was made of. -/
structure WovenRoutine (vm : Machine) (p : WeavePass) (d : Method) (hooks : WovenHooks)
    (L : Layout) (array exception : SlotId) (r : Routine) : Prop where
  hosts : vm.Hosts p.context
  parts : WovenBody p.context p.config (.ofMethod d) d.name d.returnType hooks L array exception
  describes : L.Describes r.body
  code : r.code = r.body.code.toArray
  regions : r.body.regions = .ok r.regions
  returnType : r.method.returnType = d.returnType
  /-- Each argument that is captured has a slot. -/
  arguments : p.context.captures p.config = true →
    ∀ a ∈ (Capture.ofMethod d).arguments, a.slot < d.argCount

theorem WovenMethod.lt_argCount {p : WeavePass} {d d' : Method} {hooks : WovenHooks} {L : Layout}
    {array exception : SlotId} {woven : Body} {maxStack : UInt16}
    (h : WovenMethod p d hooks d' L array exception woven maxStack)
    (hc : p.context.captures p.config = true) :
    ∀ a ∈ (Capture.ofMethod d).arguments, a.slot < d.argCount := by
  intro a ha
  obtain ⟨w, hw, -⟩ := verifyBody_eq_ok_iff.1 h.verified
  obtain ⟨rs, -, hs, hn⟩ := sound_of_verifyWalk hw
  have hstart : w.depth? 0 = some 0 := hs.entries (0, 0) List.mem_cons_self
  have hat : CodeAt woven.code.toArray.toList 0 (.plain .nop :: L.prologue) := by
    intro k i hi
    cases k with
    | zero =>
      cases hi
      exact h.describes.anchor.2
    | succ k =>
      rw [Nat.zero_add, Nat.add_comm k 1]
      exact h.describes.prologue k i hi
  have hstraight : Straight (.plain .nop :: L.prologue) := by
    refine .cons rfl ?_
    rw [h.parts.prologue]
    exact p.context.straight_announceCode _ _ _ _
  have hmem : Instruction.ldarg a.slot ∈ Instruction.plain .nop :: L.prologue := by
    refine List.mem_cons_of_mem _ ?_
    rw [h.parts.prologue, HookContext.announceCode, if_pos hc]
    refine List.mem_append_left _ (List.mem_append_left _ (List.mem_append_left _ ?_))
    exact List.mem_append_right _ (Capture.mem_storeAll ha)
  have hchecked := Walk.checked_of_straight hs hn hstart hat hstraight _ hmem
  exact (checkOperand_eq_ok_iff.1 hchecked).2.1 _ rfl

/-- The machine offers what the methods of a woven module call. -/
theorem hosts_of_weave {m m' : Module} {config : WeaveConfig} {stopped : Bool}
    {report : WeaveReport} (host : Host) (hw : m.weave config stopped = .ok (report, m'))
    (hc : report.cancelled = false) (htype : host.dispatcherType = config.dispatcherType)
    (hsystem : config.dispatcherType ∉ systemTypes)
    (hdeclared : (m.pass config).context.AsDeclared (m.pass config).imports
      (hostLibraries config.dispatcherType config.hookLibrary))
    {t : TypeDef} (ht : t ∈ m.types) {d d' : Method} (hd : d ∈ t.methods) {hooks : WovenHooks}
    (hv : (m.pass config).visit t.name d = (.ok hooks, d')) :
    Machine.Hosts ⟨m', host⟩ (m.pass config).context := by
  obtain ⟨hweaves, -⟩ := weaves_of_weave hw hc
  refine ⟨?_, htype ▸ hsystem⟩
  show HookContext.Offers _ m'.imports host.dispatcherType
  rw [hweaves.instrumented t ht d hd hooks d' hv, htype]
  exact HookContext.offers_of_asDeclared (m.resolved_pass config).1 hdeclared

theorem wovenRoutine_of_activate {vm : Machine} {p : WeavePass} {d d' : Method}
    {hooks : WovenHooks} {L : Layout} {array exception : SlotId} {woven : Body}
    {maxStack : UInt16} (h : WovenMethod p d hooks d' L array exception woven maxStack)
    (hosts : vm.Hosts p.context) {typeName : String} {args : List Value} {live : Nat}
    {a : Activation} (ha : d'.activate typeName args live = .ok a) :
    WovenRoutine vm p d hooks L array exception a.routine ∧
      a.frame =
        { args := args, locals := a.routine.body.locals.toList.map fun s => .initial s.ty } ∧
      args.length = d.argCount.toNat ∧ a.routine.typeName = typeName ∧ a.routine.method = d' := by
  obtain ⟨hargs, -, b, rs, hb, hrs, rfl⟩ := Method.activate_eq_ok_iff.1 ha
  have hbody : d'.body? = some { woven with maxStack := maxStack } := by rw [h.method]
  obtain rfl : b = _ := Option.some.inj (hb.symm.trans hbody)
  refine ⟨⟨hosts, h.parts, h.describes.withMaxStack maxStack, rfl, hrs, ?_, h.lt_argCount⟩, rfl, ?_,
    rfl, rfl⟩
  · show d'.returnType = d.returnType
    rw [h.method]
  · rw [hargs, h.method]
    rfl

namespace WovenRoutine

variable {vm : Machine} {p : WeavePass} {d : Method} {hooks : WovenHooks} {L : Layout}
  {array exception : SlotId} {r : Routine} {f : Frame} {w : World}

section

variable (h : WovenRoutine vm p d hooks L array exception r)
include h

theorem codeAt {pos : Nat} {run : List Instruction} (hat : CodeAt r.body.code pos run) :
    CodeAt r.code.toList pos run := by
  rw [h.code]
  exact hat

/-- The slots of the original body come first. -/
theorem lt_of_owns {slot : SlotId} (hs : L.Owns slot) {locals : List Value}
    (hl : locals.length = r.body.locals.size) :
    L.body.locals.size ≤ slot.toNat ∧ slot.toNat < locals.length := by
  have hsize := congrArg List.length h.describes.locals
  rw [Array.length_toList, List.length_append, Array.length_toList] at hsize
  have := hs.1
  have := hs.2
  omega

/-- The code that prints the arguments, if they are printed. -/
theorem announces_trace {ref : Ref}
    (hat : CodeAt r.code.toList f.pc ((if p.context.traces p.config then
      p.context.traceCode? d.name array else none).getD []))
    (hv : f.locals[array.toNat]? = some (.array ref)) :
    ∃ w', vm.Announces r f w
      (if hooks.trace then [.console (traceLine d.name w.heap (w.heap.items ref).toList)] else [])
      { f with pc := f.pc + ((if p.context.traces p.config then
        p.context.traceCode? d.name array else none).getD []).length } w' ∧
      w'.heap = w.heap := by
  by_cases ht : p.context.traces p.config = true
  · rw [if_pos ht] at hat ⊢
    have hcan : p.context.canTrace = true := (Bool.and_eq_true_iff.1 ht).2
    obtain ⟨hsome, w', hw, hheap⟩ := Machine.announces_traceCode (w := w) h.hosts hcan hat hv
    have htrace : hooks.trace = true := by rw [h.parts.trace, ht, hsome, Bool.and_self]
    rw [if_pos htrace]
    exact ⟨w', hw, hheap⟩
  · have htrace : hooks.trace = false := by
      rw [Bool.not_eq_true] at ht
      rw [h.parts.trace, ht, Bool.false_and]
    rw [if_neg ht, htrace]
    exact ⟨w, Machine.announces_refl f w, rfl⟩

/-- Where arguments are captured, the hooks and the printer are told of them. -/
theorem opens_of_captures (hc : p.context.captures p.config = true)
    (hat : CodeAt r.code.toList f.pc L.prologue) (hargs : f.args.length = d.argCount.toNat)
    (hl : f.locals.length = r.body.locals.size) :
    Opens vm p d hooks L r f w (f.pc + L.prologue.length) := by
  unfold Opens
  rw [h.parts.prologue, HookContext.announceCode, if_pos hc] at hat ⊢
  simp only [List.append_assoc] at hat
  simp only [List.append_assoc, List.length_append, ← Nat.add_assoc]
  have hslot := h.lt_of_owns (h.parts.arraySlot hc) hl
  have hsmall := Method.lt_of_capture (h.arguments hc)
  have harguments : ∀ a ∈ (Capture.ofMethod d).arguments, a.slot.toNat < f.args.length := by
    intro a ha
    rw [hargs]
    exact UInt16.lt_iff_toNat_lt.1 (h.arguments hc a ha)
  obtain ⟨xs, heap, hcapture, hholds, hitems, hkeeps⟩ := Machine.proceeds_capture vm
    (w := w) (f := f) hat.left hslot.2 harguments
    (fun a ha t ht => Method.isValueType_of_boxed ha ht) (by rw [Capture.size_ofMethod]; omega)
  let g (pos : Nat) : Frame :=
    { f with locals := f.locals.set array.toNat (.array w.heap.arrays.size), pc := pos }
  have harray (pos : Nat) : (g pos).locals[array.toNat]? = some (.array w.heap.arrays.size) :=
    List.getElem?_set_self hslot.2
  obtain ⟨hinit, w₁, hw₁, hheap₁⟩ := Machine.announces_initCode (w := { w with heap := heap })
    (f := g _) h.hosts hat.right.left (harray _)
  obtain ⟨w₂, hw₂, hheap₂⟩ := h.announces_trace (w := w₁) (f := g _) hat.right.right.left
    (harray _)
  obtain ⟨hentry, w₃, hw₃, hheap₃⟩ := Machine.announces_entryCode (w := w₂) (f := g _) h.hosts
    hat.right.right.right
  have hall := Machine.Announces.silent hcapture (hw₁.trans (hw₂.trans hw₃))
  have hhooks : hooks.init = p.context.init?.isSome ∧
      hooks.entry = p.context.onEntry?.isSome := by
    rw [h.parts.init, h.parts.entry, hc, Bool.true_and]
    exact ⟨hinit, hentry⟩
  rw [hheap₁, hitems, ← hhooks.1, ← hhooks.2, ← List.append_assoc] at hall
  refine ⟨_, f.locals.set array.toNat (.array w.heap.arrays.size), w₃, hall, ⟨xs, heap, ?_, rfl⟩,
    ?_, List.length_set, fun k hk => ?_⟩
  · intro _
    exact Method.captured_of_holds hsmall hholds
  · rw [hheap₃, hheap₂, hheap₁]
    exact hkeeps
  · exact List.getElem?_set_ne (by omega)

/-- Where none are captured, only the entry is announced. -/
theorem opens_of_captures_false (hc : p.context.captures p.config = false)
    (hat : CodeAt r.code.toList f.pc L.prologue) :
    Opens vm p d hooks L r f w (f.pc + L.prologue.length) := by
  have hinit : hooks.init = false := by rw [h.parts.init, hc, Bool.false_and]
  have htrace : hooks.trace = false := by
    have ht : p.context.traces p.config = false := (Bool.or_eq_false_iff.1 hc).2
    rw [h.parts.trace, ht, Bool.false_and]
  unfold Opens
  rw [h.parts.prologue, HookContext.announceCode, hc, if_neg Bool.false_ne_true,
    List.nil_append] at hat ⊢
  obtain ⟨hentry, w', hw', hheap⟩ := Machine.announces_entryCode (w := w) h.hosts hat
  rw [← hentry, ← h.parts.entry] at hw'
  refine ⟨if hooks.entry then [.entry] else [], f.locals, w', hw', ⟨[], w.heap, ?_, ?_⟩, ?_, rfl,
    fun _ _ => rfl⟩
  · rw [hinit, htrace]
    simp
  · rw [hinit, htrace]
    rfl
  · rw [hheap]
    exact .refl _ _

/-- The prologue leads to the first instruction of the original body. -/
theorem opens_prologue (hpc : f.pc = 0) (hargs : f.args.length = d.argCount.toNat)
    (hl : f.locals.length = r.body.locals.size) :
    Opens vm p d hooks L r f w (L.shift 0) := by
  have hadvance : f.advance.pc = 1 := congrArg (· + 1) hpc
  have hshift : L.shift 0 = f.advance.pc + L.prologue.length := by
    rw [hadvance]
    simp [Layout.shift, Layout.length_front, grown]
  have hnop : r.code[f.pc]? = some (.plain .nop) := by
    rw [hpc, h.code, List.getElem?_toArray]
    exact h.describes.anchor.2
  have hat := h.codeAt h.describes.prologue
  rw [← hadvance] at hat
  have hopens : Opens vm p d hooks L r f.advance w (L.shift 0) := by
    rw [hshift]
    cases hc : p.context.captures p.config with
    | true => exact h.opens_of_captures hc hat hargs hl
    | false => exact h.opens_of_captures_false hc hat
  obtain ⟨as, locals, w', hall, hrest⟩ := hopens
  exact ⟨as, locals, w', .silent (Machine.proceeds_nop hnop) hall, hrest⟩

/-- The handler keeps the exception for the hook, if there is one that is told of it. -/
theorem announces_exception {e : Value} (hkeep : r.code[f.pc]? = some L.keep)
    (hat : CodeAt r.code.toList (f.pc + 1) (p.context.exceptionCode p.config exception))
    (hstack : f.stack = [e]) (hl : f.locals.length = r.body.locals.size) :
    ∃ locals w', vm.Announces r f w (if hooks.exception then [.exception e] else [])
        { f with
          locals := locals
          stack := []
          pc := f.pc + 1 + (p.context.exceptionCode p.config exception).length } w' ∧
      w'.heap = w.heap ∧ locals.length = f.locals.length := by
  have hexception := h.parts.exception
  by_cases hc : (p.config.notifyException && p.context.onException?.isSome) = true
  · rw [Layout.keep, h.parts.keeps, if_pos hc] at hkeep
    rw [hc, Bool.true_and] at hexception
    rw [HookContext.exceptionCode, if_pos hc] at hat ⊢
    have hslot := h.lt_of_owns (h.parts.exceptionSlot (by rw [h.parts.keeps, if_pos hc]; rfl)) hl
    let g (pos : Nat) : Frame :=
      { f with locals := f.locals.set exception.toNat e, stack := [], pc := pos }
    have hstore : vm.Proceeds r f w [] (g (f.pc + 1)) w :=
      Machine.proceeds_stloc hkeep hstack hslot.2
    obtain ⟨hsome, w', hw', hheap⟩ := Machine.announces_exceptionHook (w := w) (f := g _) h.hosts
      hat (List.getElem?_set_self hslot.2)
    rw [← hsome, ← hexception] at hw'
    exact ⟨_, w', .silent hstore hw', hheap, List.length_set⟩
  · rw [Layout.keep, h.parts.keeps, if_neg hc] at hkeep
    have hdrop : vm.Proceeds r f w [] { f with stack := [], pc := f.pc + 1 } w :=
      Machine.proceeds_pop hkeep hstack
    rw [Bool.not_eq_true] at hc
    rw [hexception, hc, Bool.false_and, HookContext.exceptionCode, hc]
    exact ⟨f.locals, w, Machine.announces_of_proceeds hdrop, rfl, rfl⟩

/-- The handler of the guard leads to the instruction that raises the exception again. -/
theorem announces_handler {e : Value} (hpc : f.pc = L.shift L.body.size + 1)
    (hstack : f.stack = [e]) (hl : f.locals.length = r.body.locals.size) :
    r.code[L.rethrowPos]? = some (.plain .rethrow) ∧
      ∃ locals w', vm.Announces r f w
          ((if hooks.exception then [.exception e] else []) ++ if hooks.exit then [.exit] else [])
          { f with locals := locals, stack := [], pc := L.rethrowPos } w' ∧
        w'.heap = w.heap ∧ locals.length = f.locals.length := by
  have hat := h.codeAt h.describes.codeAt_handler
  rw [← hpc, List.cons_append] at hat
  have hrethrow : L.rethrowPos = f.pc + 1 + L.guard.onException.length := by
    rw [hpc, Layout.rethrowPos]
  refine ⟨by rw [hrethrow]; exact hat.tail.right.fetch, ?_⟩
  have hcode := hat.tail.left
  rw [h.parts.onException] at hcode hrethrow
  rw [List.length_append, ← Nat.add_assoc] at hrethrow
  obtain ⟨locals, w₁, hw₁, hheap₁, hlocals⟩ :=
    h.announces_exception (w := w) hat.fetch hcode.left hstack hl
  obtain ⟨hexit, w₂, hw₂, hheap₂⟩ := Machine.announces_exitCode (w := w₁)
    (f := { f with locals := locals, stack := [], pc := _ }) h.hosts hcode.right
  rw [← hexit, ← h.parts.exit] at hw₂
  refine ⟨locals, w₂, ?_, hheap₂.trans hheap₁, hlocals⟩
  rw [hrethrow]
  exact hw₁.trans hw₂

/-- The exit leads to a return with the value of the result's slot. -/
theorem announces_exit {v : Value} (hpc : f.pc = L.exitPos)
    (hv : ∀ slot, L.result? = some slot → f.locals[slot.toNat]? = some v)
    (hnull : L.result? = none → v = .null) :
    ∃ g w', vm.Announces r f w
        (if p.config.notifyExitOnReturn && hooks.exit then [.exit] else []) g w' ∧
      w'.heap = w.heap ∧ r.code[g.pc]? = some (.plain .ret) ∧
      ∀ heap, g.step r vm.module.imports heap (.plain .ret) = .ok (.ret v) := by
  have hat := h.codeAt h.describes.codeAt_exit
  rw [← hpc] at hat
  have hreturn : ∃ w', vm.Announces r f w
      (if p.config.notifyExitOnReturn && hooks.exit then [.exit] else [])
      { f with pc := f.pc + L.guard.onReturn.length } w' ∧ w'.heap = w.heap := by
    have hcode := hat.left
    rw [h.parts.onReturn] at hcode ⊢
    by_cases hc : p.config.notifyExitOnReturn = true
    · rw [if_pos hc] at hcode ⊢
      obtain ⟨hexit, w', hw', hheap⟩ := Machine.announces_exitCode (w := w) h.hosts hcode
      rw [← hexit, ← h.parts.exit] at hw'
      rw [hc, Bool.true_and]
      exact ⟨w', hw', hheap⟩
    · rw [if_neg hc]
      rw [Bool.not_eq_true] at hc
      rw [hc, Bool.false_and]
      exact ⟨w, Machine.announces_refl f w, rfl⟩
  obtain ⟨w', hw', hheap⟩ := hreturn
  have hload := hat.right
  have hvoid := h.parts.result
  rw [← h.returnType] at hvoid
  cases hres : L.result? with
  | none =>
    rw [hres] at hload hvoid
    refine ⟨_, w', hw', hheap, hload.fetch, fun heap => ?_⟩
    have hv : r.method.returnType.isVoid = true := by simpa using hvoid
    rw [hnull hres]
    exact if_pos hv
  | some slot =>
    rw [hres] at hload hvoid
    refine ⟨_, w', hw'.proceed (Machine.proceeds_ldloc hload.fetch (hv slot hres)),
      hheap, hload.tail.fetch, fun heap => ?_⟩
    have hv : ¬ r.method.returnType.isVoid = true := by simpa using hvoid
    exact if_neg hv

/-- A return leaves for the exit with its value in the slot of the result. -/
theorem steps_return {pos : Nat} {i : Instruction} {v : Value} (hi : L.body.code[pos]? = some i)
    (hr : i.opcode = .ret) (hpc : f.pc = L.shift pos)
    (hs : ∀ slot, L.result? = some slot → ∃ rest, f.stack = v :: rest)
    (hl : f.locals.length = r.body.locals.size) (callers : List Caller) :
    ∃ g, vm.Steps ⟨⟨r, f⟩, callers, w⟩ ⟨⟨r, g⟩, callers, w⟩ ∧ g.pc = L.exitPos ∧
      ∀ slot, L.result? = some slot → g.locals[slot.toNat]? = some v := by
  have hanchor : r.body.anchor L.exit = .ok L.exitPos :=
    Body.anchor_eq_ok.2 h.describes.position?_exit
  rw [Body.code, List.getElem?_map] at hi
  obtain ⟨⟨id, i'⟩, hs', rfl⟩ := Option.map_eq_some_iff.1 hi
  have hat := h.codeAt ((h.describes.shift hs').2.2 hr)
  rw [← hpc] at hat
  cases hres : L.result? with
  | none =>
    rw [hres] at hat
    refine ⟨_, .next (Machine.step_leave hat.fetch hanchor callers) (.refl _), rfl, ?_⟩
    intro slot hslot
    cases hslot
  | some slot =>
    rw [hres] at hat
    obtain ⟨rest, hstack⟩ := hs slot hres
    have hslot := h.lt_of_owns (h.parts.resultSlot slot hres) hl
    have hstore : vm.Proceeds r f w []
        { f with
          locals := f.locals.set slot.toNat v
          stack := rest
          pc := f.pc + 1 } w := Machine.proceeds_stloc hat.fetch hstack hslot.2
    refine ⟨_, (Machine.steps_of_proceeds hstore callers).snoc
      (Machine.step_leave hat.tail.fetch hanchor callers), rfl, fun slot' hs => ?_⟩
    cases hs
    exact List.getElem?_set_self hslot.2

end

end WovenRoutine

end Interpose
