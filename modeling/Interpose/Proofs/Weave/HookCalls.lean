import Interpose.Proofs.Machine.Straight
import Interpose.Proofs.Weave.Geometry
import Interpose.Proofs.Weave.Resolve
/-!
# Calls of hooks

What the code does that calls a hook or prints a line. The calls are those of members
that the host offers, so each of them returns. Nothing is left on the stack, and the heap
stays as it was.

Results:
* `announces_hook`: the code of a hook makes one announcement.
* `announces_traceCode`: so does the code that prints the arguments.
-/
namespace Interpose

/-- What a call announces to the hooks or prints. -/
def Call.announcement? (dispatcherType : String) (c : Call) : Option Announcement :=
  if c.member.owner = dispatcherType then
    match c.member.name, c.args with
    | "Init", [_, receiver, method, array] =>
      some (.init receiver method ((c.heap.elements? array).getD #[]).toList)
    | "OnEntry", _ => some .entry
    | "OnExit", _ => some .exit
    | "OnException", [_, v] => some (.exception v)
    | _, _ => none
  else if c.member.owner = "System.Console" ∧ c.member.name = "WriteLine" then
    some (.console ((c.args[0]?.map c.heap.text).getD ""))
  else none

/-- The names of the system types. -/
def systemTypes : List String :=
  (hostLibraries defaultDispatcherType defaultHookLibrary).tail.flatMap (·.types.map (·.name))

/-- What `Init` is told of the running method. -/
def HookContext.described (c : HookContext) (r : Routine) : Value :=
  if c.currentMethod?.isSome then r.describe else .null

/-- The line that is printed on entry. -/
def traceLine (name : String) (heap : Heap) (items : List Value) : String :=
  String.ofList (fillPlaceholders (",".intercalate (items.map heap.text)).toList
    ("DEBUG: " ++ name ++ "(\x7b0\x7d)").toList)

namespace Machine

/-- The machine offers the members that woven code calls, each under a name of its own. -/
structure Hosts (vm : Machine) (c : HookContext) : Prop where
  offers : c.Offers vm.module.imports vm.host.dispatcherType
  apart : vm.host.dispatcherType ∉ systemTypes

/-- An activation goes on, and its calls make these announcements. -/
def Announces (vm : Machine) (r : Routine) (f : Frame) (w : World) (as : List Announcement)
    (g : Frame) (w' : World) : Prop :=
  ∃ log, vm.Proceeds r f w log g w' ∧
    log.filterMap (·.announcement? vm.host.dispatcherType) = as

variable {vm : Machine} {r : Routine} {f g g' : Frame} {w w' w'' : World}
  {as as' : List Announcement}

theorem announces_of_proceeds (h : vm.Proceeds r f w [] g w') : vm.Announces r f w [] g w' :=
  ⟨[], h, rfl⟩

theorem announces_refl (f : Frame) (w : World) : vm.Announces r f w [] f w := ⟨[], .refl f w, rfl⟩

theorem announces_of_call (a? : Option Announcement) {member : MemberRef} {args : List Value}
    (h : vm.Proceeds r f w [⟨f.pc, member, args, w.heap⟩] g w')
    (ha : Call.announcement? vm.host.dispatcherType ⟨f.pc, member, args, w.heap⟩ = a?) :
    vm.Announces r f w a?.toList g w' := by
  refine ⟨_, h, ?_⟩
  rw [List.filterMap_cons, ha]
  cases a? <;> rfl

theorem Announces.trans (h : vm.Announces r f w as g w') (h' : vm.Announces r g w' as' g' w'') :
    vm.Announces r f w (as ++ as') g' w'' := by
  obtain ⟨log, hp, rfl⟩ := h
  obtain ⟨log', hp', rfl⟩ := h'
  exact ⟨log ++ log', hp.trans hp', List.filterMap_append⟩

/-- A stretch without calls announces nothing. -/
theorem Announces.silent (h : vm.Proceeds r f w [] g w') (h' : vm.Announces r g w' as g' w'') :
    vm.Announces r f w as g' w'' :=
  (announces_of_proceeds h).trans h'

theorem Announces.proceed (h : vm.Announces r f w as g w')
    (h' : vm.Proceeds r g w' [] g' w'') : vm.Announces r f w as g' w'' := by
  have hall := h.trans (announces_of_proceeds h')
  rw [List.append_nil] at hall
  exact hall

variable {c : HookContext}

/-- The helpers are not members of the dispatcher type. -/
theorem Hosts.ne (h : vm.Hosts c) :
    vm.host.dispatcherType ≠ methodBaseType ∧ vm.host.dispatcherType ≠ "System.String" ∧
      vm.host.dispatcherType ≠ "System.Console" := by
  have hne : ∀ name ∈ systemTypes, vm.host.dispatcherType ≠ name :=
    fun name hm he => h.apart (he ▸ hm)
  exact ⟨hne _ (by decide), hne _ (by decide), hne _ (by decide)⟩

theorem announces_accessor {id : MemberId} {library : String}
    (hi : r.code[f.pc]? = some (.call id))
    (hm : vm.module.imports.get? id =
      some (HookSymbol.accessor.member vm.host.dispatcherType library)) :
    vm.Announces r f w [] (f.push .dispatcher).advance w := by
  refine announces_of_call none (proceeds_call [] f.stack hi (.inl rfl) rfl hm rfl rfl rfl
    (Host.call_getInstance _ _ _ _ _ rfl rfl)) ?_
  simp [HookSymbol.member, Call.announcement?]

theorem announces_currentMethod (h : vm.Hosts c) {id : MemberId} {library : String}
    (hi : r.code[f.pc]? = some (.call id))
    (hm : vm.module.imports.get? id =
      some (HookSymbol.currentMethod.member vm.host.dispatcherType library)) :
    vm.Announces r f w [] (f.push r.describe).advance w := by
  have hne := h.ne.1.symm
  have hcall : vm.host.call w (HookSymbol.currentMethod.member vm.host.dispatcherType library) []
      r.describe = (.ok r.describe, w) := by
    simp [Host.call, HookSymbol.member, hne]
  refine announces_of_call none
    (proceeds_call [] f.stack hi (.inl rfl) rfl hm rfl rfl rfl hcall) ?_
  have hconsole : methodBaseType ≠ "System.Console" := by decide
  simp [HookSymbol.member, Call.announcement?, hne, hconsole]

/-- What a hook announces when it is called with these arguments. -/
inductive Announced (heap : Heap) : HookSymbol → List Value → Announcement → Prop
  | init (receiver method array : Value) : Announced heap .init [receiver, method, array]
    (.init receiver method ((heap.elements? array).getD #[]).toList)
  | onEntry : Announced heap .onEntry [] .entry
  | onExit : Announced heap .onExit [] .exit
  | onException (v : Value) : Announced heap .onException [v] (.exception v)

theorem call_hook {s : HookSymbol} {vs : List Value} {a : Announcement}
    (h : Announced w.heap s vs a) (host : Host) (library : String) (current : Value) :
    ∃ w', host.call w (s.member host.dispatcherType library) (.dispatcher :: vs) current =
      (.ok .null, w') ∧ w'.heap = w.heap := by
  have heap (listening : Bool) (a : Announcement) : (w.announceIf listening a).heap = w.heap := by
    cases listening <;> rfl
  cases h with
  | init receiver method array =>
    refine ⟨w.announceIf host.listeners.init (.init receiver method
      ((w.heap.elements? array).getD #[]).toList), ?_, heap _ _⟩
    simp only [Host.call, Host.callHook, HookSymbol.member, if_true]
    rfl
  | onEntry =>
    refine ⟨w.announceIf host.listeners.entry .entry, ?_, heap _ _⟩
    simp only [Host.call, Host.callHook, HookSymbol.member, if_true]
    rfl
  | onExit =>
    refine ⟨w.announceIf host.listeners.exit .exit, ?_, heap _ _⟩
    simp only [Host.call, Host.callHook, HookSymbol.member, if_true]
    rfl
  | onException v =>
    refine ⟨w.announceIf host.listeners.exception (.exception v), ?_, heap _ _⟩
    simp only [Host.call, Host.callHook, HookSymbol.member, if_true]
    rfl

/-- The code of a hook makes one announcement, if that of its arguments makes none. -/
theorem announces_hook (h : vm.Hosts c) {s : HookSymbol} {hook : HookCall}
    (hs : c.hook? s = some hook) {args code : List Instruction} {vs : List Value}
    {a : Announcement} (hcode : c.emitHook (some hook) args = some code)
    (hat : CodeAt r.code.toList f.pc code) (ha : Announced w.heap s vs a)
    (hargs : vm.Announces r (f.push .dispatcher).advance w []
      { f with
        stack := vs.reverse ++ .dispatcher :: f.stack
        pc := f.pc + 1 + args.length } w) :
    ∃ w', vm.Announces r f w [a] { f with pc := f.pc + code.length } w' ∧ w'.heap = w.heap := by
  obtain ⟨hthis, haccessor⟩ := h.offers.hook s hook hs
  obtain ⟨get, hget⟩ := Option.isSome_iff_exists.1 haccessor
  obtain ⟨library, hgetm⟩ := h.offers.member .accessor get hget
  obtain ⟨library', hm⟩ := h.offers.member s hook.member (HookContext.id?_of_hook? hs)
  unfold HookContext.emitHook at hcode
  rw [hget] at hcode
  simp only [hthis, if_true, Option.map_some, Option.some.injEq] at hcode
  subst hcode
  obtain ⟨w', hcall, hheap⟩ := call_hook ha vm.host library' r.describe
  have hlast : CodeAt r.code.toList (f.pc + 1 + args.length) [.callvirt hook.member] :=
    hat.tail.right
  have hcallvirt := proceeds_call (.dispatcher :: vs) f.stack
    (f := { f with
      stack := vs.reverse ++ .dispatcher :: f.stack
      pc := f.pc + 1 + args.length })
    hlast.fetch (.inr rfl) rfl hm (by cases ha <;> rfl) (by simp) (by cases ha <;> rfl) hcall
  have hvoid : (s.member vm.host.dispatcherType library').returnType.isVoid = true := by
    cases ha <;> rfl
  rw [if_pos hvoid] at hcallvirt
  have hannounced (pos : Nat) : Call.announcement? vm.host.dispatcherType
      ⟨pos, s.member vm.host.dispatcherType library', .dispatcher :: vs, w.heap⟩ = some a := by
    cases ha <;> exact if_pos rfl
  have hdone := (announces_accessor (w := w) hat.fetch hgetm).trans
    (hargs.trans (announces_of_call _ hcallvirt (hannounced _)))
  have hpc : f.pc + (Instruction.call get :: args ++ [Instruction.callvirt hook.member]).length =
      f.pc + 1 + args.length + 1 := by
    simp only [List.length_append, List.length_cons, List.length_nil]
    omega
  rw [hpc]
  exact ⟨w', hdone, hheap⟩

/-- The code of a hook that may not be there. -/
theorem announces_emitHook (h : vm.Hosts c) (vs : List Value) {s : HookSymbol}
    {hook? : Option HookCall} (hs : c.hook? s = hook?) {args : List Instruction} {a : Announcement}
    (hat : CodeAt r.code.toList f.pc ((c.emitHook hook? args).getD []))
    (ha : hook?.isSome → Announced w.heap s vs a)
    (hargs : hook?.isSome → CodeAt r.code.toList (f.pc + 1) args →
      vm.Announces r (f.push .dispatcher).advance w []
        { f with
          stack := vs.reverse ++ .dispatcher :: f.stack
          pc := f.pc + 1 + args.length } w) :
    (c.emitHook hook? args).isSome = hook?.isSome ∧
      ∃ w', vm.Announces r f w (if hook?.isSome then [a] else [])
        { f with pc := f.pc + ((c.emitHook hook? args).getD []).length } w' ∧
          w'.heap = w.heap := by
  cases hook? with
  | none => exact ⟨rfl, w, announces_refl f w, rfl⟩
  | some hook =>
    obtain ⟨hthis, haccessor⟩ := h.offers.hook s hook hs
    obtain ⟨get, hget⟩ := Option.isSome_iff_exists.1 haccessor
    have hcode : c.emitHook (some hook) args =
        some (.call get :: args ++ [.callvirt hook.member]) := by
      unfold HookContext.emitHook
      rw [hget]
      simp only [hthis, if_true, Option.map_some]
    rw [hcode] at hat ⊢
    obtain ⟨w', hw, hheap⟩ := announces_hook h hs hcode hat (ha rfl) (hargs rfl hat.tail.left)
    exact ⟨rfl, w', hw, hheap⟩

theorem announces_entryCode (h : vm.Hosts c)
    (hat : CodeAt r.code.toList f.pc ((c.emitHook c.onEntry? []).getD [])) :
    (c.emitHook c.onEntry? []).isSome = c.onEntry?.isSome ∧
      ∃ w', vm.Announces r f w (if c.onEntry?.isSome then [.entry] else [])
        { f with pc := f.pc + ((c.emitHook c.onEntry? []).getD []).length } w' ∧
          w'.heap = w.heap :=
  announces_emitHook h [] (s := .onEntry) rfl hat (fun _ => .onEntry) fun _ _ => announces_refl _ _

theorem announces_exitCode (h : vm.Hosts c) (hat : CodeAt r.code.toList f.pc c.exitCode) :
    (c.emitHook c.onExit? []).isSome = c.onExit?.isSome ∧
      ∃ w', vm.Announces r f w (if c.onExit?.isSome then [.exit] else [])
        { f with pc := f.pc + c.exitCode.length } w' ∧ w'.heap = w.heap :=
  announces_emitHook h [] (s := .onExit) rfl hat (fun _ => .onExit) fun _ _ => announces_refl _ _

theorem announces_exceptionHook (h : vm.Hosts c) {slot : SlotId} {v : Value}
    (hat : CodeAt r.code.toList f.pc ((c.emitHook c.onException? [.ldloc slot]).getD []))
    (hv : f.locals[slot.toNat]? = some v) :
    (c.emitHook c.onException? [.ldloc slot]).isSome = c.onException?.isSome ∧
      ∃ w', vm.Announces r f w (if c.onException?.isSome then [.exception v] else [])
        { f with pc := f.pc + ((c.emitHook c.onException? [.ldloc slot]).getD []).length } w' ∧
          w'.heap = w.heap := by
  refine announces_emitHook h [v] (s := .onException) rfl hat
    (fun _ => .onException v) fun _ hload => ?_
  exact announces_of_proceeds (proceeds_ldloc (f := (f.push .dispatcher).advance) hload.fetch hv)

theorem announces_initCode (h : vm.Hosts c) {slot : SlotId} {array : Ref}
    (hat : CodeAt r.code.toList f.pc ((c.initCode? slot).getD []))
    (hv : f.locals[slot.toNat]? = some (.array array)) :
    (c.initCode? slot).isSome = c.init?.isSome ∧
      ∃ w', vm.Announces r f w
        (if c.init?.isSome then
          [.init .null (c.described r) (w.heap.items array).toList] else [])
        { f with pc := f.pc + ((c.initCode? slot).getD []).length } w' ∧ w'.heap = w.heap := by
  refine announces_emitHook h [.null, c.described r, .array array] (s := .init) rfl hat
    (fun _ => .init .null (c.described r) (.array array)) fun _ hload => ?_
  refine .silent (proceeds_ldnull (f := (f.push .dispatcher).advance) hload.fetch) ?_
  have hget : vm.Announces r ((f.push .dispatcher).advance.push .null).advance w []
      ((((f.push .dispatcher).advance.push .null).advance.push (c.described r)).advance) w := by
    unfold HookContext.described
    cases hm : c.currentMethod? with
    | none =>
      rw [hm] at hload
      exact announces_of_proceeds (proceeds_ldnull hload.tail.fetch)
    | some get =>
      rw [hm] at hload
      obtain ⟨library, hget⟩ := h.offers.member .currentMethod get hm
      exact announces_currentMethod h hload.tail.fetch hget
  exact hget.proceed (proceeds_ldloc hload.tail.tail.fetch hv)

theorem text_text (heap : Heap) (s : String) : heap.text (.text s) = s := by
  unfold Heap.text
  rw [Heap.textWithin]
  rfl

section

variable {id : MemberId} {library : String} {rest : List Value}

theorem announces_join (h : vm.Hosts c) {separator : String} {array : Ref}
    (hi : r.code[f.pc]? = some (.call id))
    (hm : vm.module.imports.get? id = some (HookSymbol.join.member vm.host.dispatcherType library))
    (hs : f.stack = .array array :: .text separator :: rest) :
    vm.Announces r f w []
      { f with
        stack := .text (separator.intercalate ((w.heap.items array).toList.map w.heap.text)) :: rest
        pc := f.pc + 1 } w := by
  have hne := h.ne.2.1.symm
  have hcall : vm.host.call w (HookSymbol.join.member vm.host.dispatcherType library)
      [.text separator, .array array] r.describe =
        (.ok (.text (separator.intercalate ((w.heap.items array).toList.map w.heap.text))), w) := by
    simp [Host.call, HookSymbol.member, hne, methodBaseType, Host.callJoin, Heap.elements?,
      Host.argumentText, text_text]
  refine announces_of_call none (proceeds_call [.text separator, .array array] rest hi (.inl rfl)
    rfl hm rfl hs rfl hcall) ?_
  simp [HookSymbol.member, Call.announcement?, hne]

theorem announces_format (h : vm.Hosts c) {template text : String}
    (hi : r.code[f.pc]? = some (.call id))
    (hm : vm.module.imports.get? id =
      some (HookSymbol.format.member vm.host.dispatcherType library))
    (hs : f.stack = .text text :: .text template :: rest) :
    vm.Announces r f w []
      { f with
        stack := .text (String.ofList (fillPlaceholders text.toList template.toList)) :: rest
        pc := f.pc + 1 } w := by
  have hne := h.ne.2.1.symm
  have hcall : vm.host.call w (HookSymbol.format.member vm.host.dispatcherType library)
      [.text template, .text text] r.describe =
        (.ok (.text (String.ofList (fillPlaceholders text.toList template.toList))), w) := by
    simp [Host.call, HookSymbol.member, hne, methodBaseType, Host.callFormat, Host.argumentText,
      text_text]
  refine announces_of_call none (proceeds_call [.text template, .text text] rest hi (.inl rfl)
    rfl hm rfl hs rfl hcall) ?_
  simp [HookSymbol.member, Call.announcement?, hne]

theorem announces_writeLine (h : vm.Hosts c) {line : String}
    (hi : r.code[f.pc]? = some (.call id))
    (hm : vm.module.imports.get? id =
      some (HookSymbol.writeLine.member vm.host.dispatcherType library))
    (hs : f.stack = .text line :: rest) :
    ∃ w', vm.Announces r f w [.console line] { f with stack := rest, pc := f.pc + 1 } w' ∧
      w'.heap = w.heap := by
  have hne := h.ne.2.2.symm
  have hcall : vm.host.call w (HookSymbol.writeLine.member vm.host.dispatcherType library)
      [.text line] r.describe = (.ok .null, vm.host.callWriteLine w [.text line]) := by
    simp [Host.call, HookSymbol.member, hne, methodBaseType]
  have hheap : (vm.host.callWriteLine w [.text line]).heap = w.heap := by
    unfold Host.callWriteLine
    cases vm.host.console <;> rfl
  refine ⟨_, announces_of_call (some (.console line)) (proceeds_call [.text line] rest hi (.inl rfl)
    rfl hm rfl hs rfl hcall) ?_, hheap⟩
  simp [HookSymbol.member, Call.announcement?, hne, text_text]

end

theorem announces_traceCode (h : vm.Hosts c) {name : String} {slot : SlotId} {array : Ref}
    (hc : c.canTrace = true)
    (hat : CodeAt r.code.toList f.pc ((c.traceCode? name slot).getD []))
    (hv : f.locals[slot.toNat]? = some (.array array)) :
    (c.traceCode? name slot).isSome = true ∧
      ∃ w', vm.Announces r f w
        [.console (traceLine name w.heap (w.heap.items array).toList)]
        { f with pc := f.pc + ((c.traceCode? name slot).getD []).length } w' ∧
          w'.heap = w.heap := by
  simp only [HookContext.canTrace, Bool.and_eq_true] at hc
  obtain ⟨⟨hjoin, hformat⟩, hprint⟩ := hc
  obtain ⟨join, hjoin⟩ := Option.isSome_iff_exists.1 hjoin
  obtain ⟨format, hformat⟩ := Option.isSome_iff_exists.1 hformat
  obtain ⟨writeLine, hprint⟩ := Option.isSome_iff_exists.1 hprint
  obtain ⟨library₁, hjoinm⟩ := h.offers.member .join join hjoin
  obtain ⟨library₂, hformatm⟩ := h.offers.member .format format hformat
  obtain ⟨library₃, hprintm⟩ := h.offers.member .writeLine writeLine hprint
  have hcode : c.traceCode? name slot = some [.ldstr ("DEBUG: " ++ name ++ "(\x7b0\x7d)"),
      .ldstr ",", .ldloc slot, .call join, .call format, .call writeLine] := by
    unfold HookContext.traceCode?
    rw [hjoin, hformat, hprint]
    rfl
  rw [hcode] at hat ⊢
  let template := "DEBUG: " ++ name ++ "(\x7b0\x7d)"
  let texts := ",".intercalate ((w.heap.items array).toList.map w.heap.text)
  let g (stack : List Value) (pos : Nat) : Frame := { f with stack := stack ++ f.stack, pc := pos }
  have hload : vm.Announces r f w []
      (g [.array array, .text ",", .text template] (f.pc + 3)) w :=
    announces_of_proceeds ((proceeds_ldstr hat.fetch).trans ((proceeds_ldstr hat.tail.fetch).trans
      (proceeds_ldloc hat.tail.tail.fetch hv)))
  have hjoined : vm.Announces r (g [.array array, .text ",", .text template] (f.pc + 3)) w []
      (g [.text texts, .text template] (f.pc + 4)) w :=
    announces_join h hat.tail.tail.tail.fetch hjoinm rfl
  have hformatted : vm.Announces r (g [.text texts, .text template] (f.pc + 4)) w []
      (g [.text (traceLine name w.heap (w.heap.items array).toList)] (f.pc + 5)) w :=
    announces_format h hat.tail.tail.tail.tail.fetch hformatm rfl
  obtain ⟨w', hprinted, hheap⟩ := announces_writeLine (w := w)
    (f := g [.text (traceLine name w.heap (w.heap.items array).toList)] (f.pc + 5)) h
    hat.tail.tail.tail.tail.tail.fetch hprintm rfl
  exact ⟨rfl, w', hload.trans (hjoined.trans (hformatted.trans hprinted)), hheap⟩

end Machine

end Interpose
