import Interpose.Proofs.Verify.Effect
import Interpose.Proofs.Verify.Expected
import Interpose.Proofs.Weave.Geometry
import Interpose.Proofs.Weave.Resolve
/-!
# Depths along inserted code

The code that weaving inserts goes straight on. The verifier's checks are followed through
it (`Carries`): each stretch starts and ends with an empty stack, whichever hooks there are,
and never holds more than four values. What calls take is known from the descriptors; what
they give has to be asked for (`Callable`).

Results:
* `Along.checked`: what a visit finds inside a stretch.
* `carries_announceCode`, `carries_exceptionCode`, `carries_exitCode`: the stretches.
-/
namespace Interpose

/-- The checks of the verifier pass along straight code and carry the depth `d` to the last
one. No depth after an instruction is above `top`. -/
inductive Carries (m : Method) (b : Body) (imports : ImportTable) (top : UInt16) :
    UInt16 → List Instruction → UInt16 → Prop
  | nil (d : UInt16) : Carries m b imports top d [] d
  | cons {i : Instruction} {rest : List Instruction} {p q d a e : UInt16}
    (flow : i.opcode.flow = .next) (operand : checkOperand m b imports i = .ok ())
    (effect : stackEffect m imports i = .ok (p, q)) (enough : p ≤ d) (after : d - p + q = a)
    (below : a ≤ top) (carries : Carries m b imports top a rest e) :
    Carries m b imports top d (i :: rest) e

namespace Carries

variable {m : Method} {b : Body} {imports : ImportTable} {top d e : UInt16}
  {code code' : List Instruction}

theorem append {f : UInt16} (h : Carries m b imports top d code e)
    (h' : Carries m b imports top e code' f) : Carries m b imports top d (code ++ code') f := by
  induction h with
  | nil => exact h'
  | cons flow operand effect enough after below _ ih =>
    exact .cons flow operand effect enough after below (ih h')

/-- Code that carries a depth has one depth at each of its places. -/
theorem split (h : Carries m b imports top d (code ++ code') e) :
    ∃ e', Carries m b imports top d code e' ∧ Carries m b imports top e' code' e := by
  induction code generalizing d with
  | nil => exact ⟨d, .nil d, h⟩
  | cons i rest ih =>
    cases h with
    | cons flow operand effect enough after below h =>
      obtain ⟨e', h₁, h₂⟩ := ih h
      exact ⟨e', .cons flow operand effect enough after below h₁, h₂⟩

theorem unique {e' : UInt16} (h : Carries m b imports top d code e)
    (h' : Carries m b imports top d code e') : e = e' := by
  induction h with
  | nil =>
    cases h'
    rfl
  | cons _ _ effect _ after _ _ ih =>
    cases h' with
    | cons _ _ effect' _ after' _ h' =>
      cases effect.symm.trans effect'
      rw [← after, after'] at ih
      exact ih h'

theorem getD {code? : Option (List Instruction)}
    (h : ∀ code, code? = some code → Carries m b imports top d code d) :
    Carries m b imports top d (code?.getD []) d := by
  cases code? with
  | none => exact .nil d
  | some code => exact h code rfl

end Carries

/-- A position in straight code that stands at `start`, or right behind it, and the depth
there. -/
def Along (c : VerifyContext) (top : UInt16) (start : Nat) (d : UInt16) (run : List Instruction)
    (pos : Nat) (e : UInt16) : Prop :=
  ∃ k, k ≤ run.length ∧ pos = start + k ∧
    Carries c.method c.body c.imports top d (run.take k) e

namespace Along

variable {c : VerifyContext} {top d e f : UInt16} {start pos : Nat} {run : List Instruction}

theorem first (c : VerifyContext) (top : UInt16) (start : Nat) (d : UInt16)
    (run : List Instruction) : Along c top start d run start d :=
  ⟨0, Nat.zero_le _, rfl, .nil d⟩

theorem le (h : Along c top start d run pos e) : start ≤ pos ∧ pos ≤ start + run.length := by
  obtain ⟨k, hk, rfl, -⟩ := h
  omega

theorem unique (h : Along c top start d run pos e) (h' : Along c top start d run pos f) :
    e = f := by
  obtain ⟨k, -, rfl, hk⟩ := h
  obtain ⟨k', -, hpos, hk'⟩ := h'
  obtain rfl : k = k' := Nat.add_left_cancel hpos
  exact hk.unique hk'

/-- Behind the code the depth is the one that it carries to. -/
theorem last (h : Along c top start d run pos e)
    (hrun : Carries c.method c.body c.imports top d run f) (hpos : pos = start + run.length) :
    e = f := by
  obtain ⟨k, -, hk, hcarries⟩ := h
  obtain rfl : k = run.length := by omega
  rw [List.take_length] at hcarries
  exact hcarries.unique hrun

/-- A visit inside the code finds the depth there in order, and hands on the next one. -/
theorem checked (h : Along c top start d run pos e)
    (hrun : Carries c.method c.body c.imports top d run f) (hat : CodeAt c.code.toList start run)
    (hend : start + run.length < c.code.size) (hpos : pos < start + run.length) :
    ∃ i p q, Walk.Checked c pos e i p q [(pos + 1, e - p + q)] ∧ e - p + q ≤ top ∧
      Along c top start d run (pos + 1) (e - p + q) := by
  obtain ⟨k, hk, rfl, hcarries⟩ := h
  have hlt : k < run.length := by omega
  -- the code before the place, the instruction there, and the code after it
  have hsplit : run = run.take k ++ run[k] :: run.drop (k + 1) := by
    rw [List.getElem_cons_drop, List.take_append_drop]
  rw [hsplit] at hrun
  obtain ⟨e', hbefore, hafter⟩ := hrun.split
  obtain rfl := hcarries.unique hbefore
  have hcode : c.code[start + k]? = some run[k] := by
    rw [← Array.getElem?_toList]
    exact hat k _ (List.getElem?_eq_getElem hlt)
  cases hafter with
  | @cons _ _ p q _ _ _ flow operand effect enough after below _ =>
    subst after
    refine ⟨run[k], p, q, ⟨hcode, operand, effect, enough, .next flow (by omega)⟩, below,
      k + 1, hlt, Nat.add_assoc .., ?_⟩
    rw [← List.take_append_getElem hlt]
    exact hcarries.append (.cons flow operand effect enough rfl below (.nil _))

end Along

/-! ## What is called -/

/-- Number of parameters of a symbol's member. -/
def HookSymbol.arity : HookSymbol → Nat
  | .init => 3
  | .onException | .writeLine => 1
  | .join | .format => 2
  | _ => 0

/-- A table as members are looked up by: the full one of a dispatcher type, or what a pass
with a configuration can call. -/
def SymbolTable.IsStandard (t : SymbolTable) : Prop :=
  (∃ dispatcherType, t = .all dispatcherType) ∨ ∃ config, t = .forConfig config

theorem SymbolTable.IsStandard.arity_eq {t : SymbolTable} (ht : t.IsStandard) {s : HookSymbol}
    {d : Descriptor} (h : t.descriptor? s = some d) : d.arity = s.arity := by
  have arity (dispatcherType : String) (hm : (s, d) ∈ (all dispatcherType).entries) :
      d.arity = s.arity := by
    cases s <;> simp [all, Descriptor.exact] at hm <;> subst hm <;> rfl
  rcases ht with ⟨dispatcherType, rfl⟩ | ⟨config, rfl⟩
  · exact arity _ (mem_of_descriptor? h)
  · exact arity _ (mem_all_of_descriptor? h)

namespace HookContext

/-- The symbols of members that woven code calls for their value. -/
def valueSymbols : List HookSymbol := [.accessor, .currentMethod, .join, .format]

/-- The members that a context refers to can be called as woven code does: hooks leave
nothing on the stack, and neither does the printing of a line; the other helpers leave a
value, and no helper takes a receiver. -/
structure Callable (c : HookContext) (imports : ImportTable) : Prop where
  hook : ∀ s hook, c.hook? s = some hook → ∀ member, imports.get? hook.member = some member →
    member.returnType.isVoid = true
  value : ∀ s ∈ valueSymbols, ∀ id, c.id? s = some id → ∀ member, imports.get? id = some member →
    member.isStatic = true ∧ member.returnType.isVoid = false
  line : ∀ id, c.writeLine? = some id → ∀ member, imports.get? id = some member →
    member.isStatic = true ∧ member.returnType.isVoid = true

/-- An id refers to a member that takes so many parameters, and perhaps a receiver. -/
def Refers (imports : ImportTable) (id : MemberId) (arity : Nat) (hasThis isVoid : Bool) : Prop :=
  ∃ r, imports.get? id = some r ∧ r.params.length = arity ∧ r.hasThis = hasThis ∧
    r.returnType.isVoid = isVoid

/-- What the verifier finds where woven code calls. -/
structure Signed (c : HookContext) (imports : ImportTable) : Prop where
  hook : ∀ s hook, c.hook? s = some hook → Refers imports hook.member s.arity hook.hasThis true
  value : ∀ s ∈ valueSymbols, ∀ id, c.id? s = some id → Refers imports id s.arity false false
  line : ∀ id, c.writeLine? = some id → Refers imports id 1 false true

/-- The descriptors tell what the members take. -/
theorem signed_of_callable {m : Module} {t : SymbolTable} {imports : ImportTable}
    {c : HookContext} (ht : t.IsStandard) (h : Resolved m t imports c) (hc : c.Callable imports) :
    c.Signed imports := by
  have arity (s : HookSymbol) (id : MemberId) (hid : c.id? s = some id) :
      ∃ d r, t.descriptor? s = some d ∧ m.lookup d = some r ∧ imports.get? id = some r ∧
        r.params.length = s.arity := by
    obtain ⟨d, hd, r, hr, hget⟩ := h.means s id hid
    refine ⟨d, r, hd, hr, hget, ?_⟩
    have haccepts := Module.accepts_of_lookup hr
    simp only [Descriptor.accepts, Bool.and_eq_true, beq_iff_eq] at haccepts
    rw [← haccepts.1.2, ht.arity_eq hd]
  have receiver (r : MemberRef) (hr : r.isStatic = true) : r.hasThis = false := by
    rw [MemberRef.hasThis, hr]
    rfl
  refine ⟨fun s hook hh => ?_, fun s hs id hid => ?_, fun id hid => ?_⟩
  · obtain ⟨d, r, hd, hr, hget, hlen⟩ := arity s hook.member (id?_of_hook? hh)
    obtain ⟨⟨d', r', hd', hr', hthis⟩, -⟩ := h.calls s hook hh
    obtain rfl := Option.some.inj (hd.symm.trans hd')
    obtain rfl := Option.some.inj (hr.symm.trans hr')
    exact ⟨r, hget, hlen, hthis.symm, hc.hook s hook hh r hget⟩
  · obtain ⟨d, r, -, -, hget, hlen⟩ := arity s id hid
    obtain ⟨hstatic, hvoid⟩ := hc.value s hs id hid r hget
    exact ⟨r, hget, hlen, receiver r hstatic, hvoid⟩
  · obtain ⟨d, r, -, -, hget, hlen⟩ := arity .writeLine id hid
    obtain ⟨hstatic, hvoid⟩ := hc.line id hid r hget
    exact ⟨r, hget, hlen, receiver r hstatic, hvoid⟩

end HookContext

/-! ## Stretches -/

section

variable {m : Method} {b : Body} {imports : ImportTable} {top d e : UInt16}

theorem carries_push {i : Instruction} (flow : i.opcode.flow = .next)
    (operand : checkOperand m b imports i = .ok ())
    (effect : stackEffect m imports i = .ok (0, 1)) (after : d - 0 + 1 = e) (below : e ≤ top) :
    Carries m b imports top d [i] e :=
  .cons flow operand effect (UInt16.le_iff_toNat_le.2 (Nat.zero_le _)) after below (.nil e)

theorem carries_ldloc {slot : SlotId} (h : slot.toNat < b.locals.size) (after : d - 0 + 1 = e)
    (below : e ≤ top) : Carries m b imports top d [.ldloc slot] e :=
  carries_push rfl (checkOperand_slot rfl h) rfl after below

theorem carries_call {op : Opcode} {id : MemberId} {n : Nat} {hasThis isVoid : Bool}
    (hop : op = .call ∨ op = .callvirt) (h : HookContext.Refers imports id n hasThis isVoid)
    (enough : UInt16.ofNat n + (if hasThis then 1 else 0) ≤ d)
    (after : d - (UInt16.ofNat n + if hasThis then 1 else 0) + (if isVoid then 0 else 1) = e)
    (below : e ≤ top) : Carries m b imports top d [⟨op, .member id⟩] e := by
  obtain ⟨r, hget, rfl, rfl, rfl⟩ := h
  have hid : id < imports.size := ImportTable.lt_size_of_get? hget
  refine .cons ?_ (checkOperand_member ?_ hid) (stackEffect_call hop hget) enough after below
    (.nil e)
  · rcases hop with rfl | rfl <;> rfl
  · rcases hop with rfl | rfl <;> rfl

namespace HookContext

variable {c : HookContext}

/-- The code of a hook leaves the stack as it was, whether or not there is a receiver. -/
theorem carries_emitHook (hs : c.Signed imports) {s : HookSymbol} {args code : List Instruction}
    (hargs : ∀ d, d = 0 ∨ d = 1 → Carries m b imports 4 d args (d + UInt16.ofNat s.arity))
    (h : c.emitHook (c.hook? s) args = some code) : Carries m b imports 4 0 code 0 := by
  unfold emitHook at h
  split at h
  · cases h
  · next hook hh =>
    have href := hs.hook s hook hh
    split at h
    · next hthis =>
      obtain ⟨get, hget, rfl⟩ := Option.map_eq_some_iff.1 h
      rw [hthis] at href
      have hreceiver : Carries m b imports 4 0 [.call get] 1 :=
        carries_call (.inl rfl) (hs.value .accessor (by decide) get hget) (by decide) (by decide)
          (by decide)
      have hcall : Carries m b imports 4 (1 + UInt16.ofNat s.arity) [.callvirt hook.member] 0 := by
        refine carries_call (.inr rfl) href ?_ ?_ (by decide)
        · rw [if_pos rfl, UInt16.add_comm]
          exact UInt16.le_refl _
        · rw [if_pos rfl, if_pos rfl, UInt16.add_comm 1, UInt16.sub_self]
          rfl
      exact (hreceiver.append (hargs 1 (.inr rfl))).append hcall
    · next hthis =>
      rw [Bool.not_eq_true] at hthis
      rw [hthis] at href
      cases h
      have hcall : Carries m b imports 4 (0 + UInt16.ofNat s.arity) [.call hook.member] 0 := by
        refine carries_call (.inl rfl) href ?_ ?_ (by decide)
        · rw [if_neg Bool.false_ne_true, UInt16.add_comm]
          exact UInt16.le_refl _
        · rw [if_neg Bool.false_ne_true, if_pos rfl, UInt16.add_comm 0, UInt16.sub_self]
          rfl
      exact (hargs 0 (.inl rfl)).append hcall

theorem carries_initCode? (hs : c.Signed imports) {array : SlotId}
    (ha : array.toNat < b.locals.size) {code : List Instruction}
    (h : c.initCode? array = some code) : Carries m b imports 4 0 code 0 := by
  -- the method is pushed by a call or, where it cannot be looked up, as null
  have hargs {i : Instruction} (hi : ∀ {d e : UInt16}, d - 0 + 1 = e → e ≤ 4 →
      Carries m b imports 4 d [i] e) (d : UInt16) (hd : d = 0 ∨ d = 1) :
      Carries m b imports 4 d [.plain .ldnull, i, .ldloc array]
        (d + UInt16.ofNat HookSymbol.init.arity) := by
    rcases hd with rfl | rfl
    · exact ((carries_push (e := 1) rfl rfl rfl rfl (by decide)).append
        (hi (e := 2) rfl (by decide))).append (carries_ldloc ha rfl (by decide))
    · exact ((carries_push (e := 2) rfl rfl rfl rfl (by decide)).append
        (hi (e := 3) rfl (by decide))).append (carries_ldloc ha rfl (by decide))
  cases hget : c.currentMethod? with
  | none =>
    rw [initCode?, hget] at h
    exact carries_emitHook (s := .init) hs (hargs (carries_push rfl rfl rfl)) h
  | some get =>
    rw [initCode?, hget] at h
    have href := hs.value .currentMethod (by decide) get hget
    refine carries_emitHook (s := .init) hs (hargs fun after below => ?_) h
    exact carries_call (.inl rfl) href (UInt16.le_iff_toNat_le.2 (Nat.zero_le _)) after below

theorem carries_traceCode? (hs : c.Signed imports) {name : String} {array : SlotId}
    (ha : array.toNat < b.locals.size) {code : List Instruction}
    (h : c.traceCode? name array = some code) : Carries m b imports 4 0 code 0 := by
  unfold traceCode? at h
  obtain ⟨join, hjoin, h⟩ := Option.bind_eq_some_iff.1 h
  obtain ⟨format, hformat, h⟩ := Option.bind_eq_some_iff.1 h
  obtain ⟨writeLine, hline, h⟩ := Option.bind_eq_some_iff.1 h
  cases h
  have hpushes : Carries m b imports 4 0
      [.ldstr ("DEBUG: " ++ name ++ "(\x7b0\x7d)"), .ldstr ",", .ldloc array] 3 :=
    ((carries_push (e := 1) rfl rfl rfl rfl (by decide)).append
      (carries_push (e := 2) rfl rfl rfl rfl (by decide))).append
        (carries_ldloc ha rfl (by decide))
  have hjoined : Carries m b imports 4 3 [.call join] 2 :=
    carries_call (.inl rfl) (hs.value .join (by decide) join hjoin) (by decide) (by decide)
      (by decide)
  have hformatted : Carries m b imports 4 2 [.call format] 1 :=
    carries_call (.inl rfl) (hs.value .format (by decide) format hformat) (by decide) (by decide)
      (by decide)
  have hprinted : Carries m b imports 4 1 [.call writeLine] 0 :=
    carries_call (.inl rfl) (hs.line writeLine hline) (by decide) (by decide) (by decide)
  exact hpushes.append (hjoined.append (hformatted.append hprinted))

/-- Capturing copies one argument after the other into the array. -/
theorem carries_capture {capture : Capture} {array : SlotId} (ha : array.toNat < b.locals.size)
    (hargs : ∀ a ∈ capture.arguments, a.slot < m.argCount) :
    Carries m b imports 4 0 (capture.code array) 0 := by
  have hbox (boxed? : Option Ty) :
      Carries m b imports 4 3 (boxed?.map Instruction.box).toList 3 := by
    cases boxed? with
    | none => exact .nil 3
    | some ty => exact .cons (e := 3) rfl rfl rfl (by decide) rfl (by decide) (.nil 3)
  have hstore (as : List CapturedArgument) (index : Nat) (has : ∀ a ∈ as, a.slot < m.argCount) :
      Carries m b imports 4 0 (Capture.storeAll array index as) 0 := by
    induction as generalizing index with
    | nil => exact .nil 0
    | cons a rest ih =>
      have hpushes : Carries m b imports 4 0
          [.ldloc array, .ldcI4 (Int32.ofNat index), .ldarg a.slot] 3 :=
        ((carries_ldloc (e := 1) ha rfl (by decide)).append
          (carries_push (e := 2) rfl rfl rfl rfl (by decide))).append
            (carries_push rfl (checkOperand_ldarg (has a List.mem_cons_self)) rfl rfl (by decide))
      have hstelem : Carries m b imports 4 3 [.plain .stelem] 0 :=
        .cons rfl rfl rfl (by decide) rfl (by decide) (.nil 0)
      exact ((hpushes.append (hbox a.boxed?)).append hstelem).append
        (ih (index + 1) fun x hx => has x (List.mem_cons_of_mem _ hx))
  have hcreate : Carries m b imports 4 0
      [.ldcI4 (Int32.ofNat capture.size), .newarr .object, .stloc array] 0 :=
    .cons (a := 1) rfl rfl rfl (by decide) rfl (by decide)
      (.cons (a := 1) rfl rfl rfl (by decide) rfl (by decide)
        (.cons rfl (checkOperand_slot rfl ha) rfl (by decide) rfl (by decide) (.nil 0)))
  exact hcreate.append (hstore capture.arguments 0 hargs)

theorem carries_exitCode (hs : c.Signed imports) : Carries m b imports 4 0 c.exitCode 0 := by
  refine Carries.getD fun code h => carries_emitHook (s := .onExit) hs (fun d hd => ?_) h
  rcases hd with rfl | rfl
  · exact .nil 0
  · exact .nil 1

variable (config : WeaveConfig)

theorem carries_announceCode (hs : c.Signed imports) {capture : Capture} {name : String}
    {array : SlotId} (ha : c.captures config = true → array.toNat < b.locals.size)
    (hargs : ∀ a ∈ capture.arguments, a.slot < m.argCount) :
    Carries m b imports 4 0 (c.announceCode config capture name array) 0 := by
  have hentry : Carries m b imports 4 0 ((c.emitHook c.onEntry? []).getD []) 0 := by
    refine Carries.getD fun code h => carries_emitHook (s := .onEntry) hs (fun d hd => ?_) h
    rcases hd with rfl | rfl
    · exact .nil 0
    · exact .nil 1
  refine Carries.append ?_ hentry
  split
  · next hc =>
    have ha := ha hc
    refine ((carries_capture ha hargs).append (f := 0) ?_).append ?_
    · exact Carries.getD fun code h => carries_initCode? hs ha h
    · refine Carries.getD fun code h => ?_
      split at h
      · exact carries_traceCode? hs ha h
      · cases h
  · exact .nil 0

theorem carries_exceptionCode (hs : c.Signed imports) {slot : SlotId}
    (he : (config.notifyException && c.onException?.isSome) = true → slot.toNat < b.locals.size) :
    Carries m b imports 4 0 (c.exceptionCode config slot) 0 := by
  unfold exceptionCode
  split
  · next hc =>
    refine Carries.getD fun code h => carries_emitHook (s := .onException) hs (fun d hd => ?_) h
    rcases hd with rfl | rfl
    · exact carries_ldloc (he hc) rfl (by decide)
    · exact carries_ldloc (he hc) rfl (by decide)
  · exact .nil 0

end HookContext

end

end Interpose
