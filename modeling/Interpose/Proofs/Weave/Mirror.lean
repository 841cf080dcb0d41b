import Interpose.Proofs.Machine.Renaming
import Interpose.Proofs.Machine.Verified
import Interpose.Proofs.Weave.Geometry
import Interpose.Proofs.Weave.Resolve
/-!
# Steps up to renaming

Two activations of the same code in different places, on values that are the same up to
renaming. Each instruction does the same to both. Which faults count as the same is left
open (`FaultMatch`): where the code itself is at fault the two may differ, since what one
body lacks the other one may have.

Results:
* `Mirrors.bind`: chains of steps that do the same.
* `mirrors_step`: an instruction in two frames that match.
-/
namespace Interpose

/-- The kinds of faults. -/
inductive FaultKind
  | unknownType
  | unknownMethod
  | noBody
  | argumentCount
  | stackUnderflow
  | typeMismatch
  | unresolvedCall
  | noActiveException
  | fellOffEnd
  | callDepth
  | code
deriving DecidableEq

namespace MachineFault

def kind : MachineFault → FaultKind
  | unknownType _ => .unknownType
  | unknownMethod _ => .unknownMethod
  | noBody _ => .noBody
  | argumentCount _ _ _ => .argumentCount
  | stackUnderflow _ => .stackUnderflow
  | typeMismatch _ _ => .typeMismatch
  | unresolvedCall _ => .unresolvedCall
  | noActiveException _ => .noActiveException
  | fellOffEnd _ => .fellOffEnd
  | callDepth _ => .callDepth
  | code _ => .code

/-- Is it a fault that the verifier rules out, however high the stack is? -/
def isRuledOut (e : MachineFault) : Bool := e.isOfCode && e.kind != .stackUnderflow

end MachineFault

/-- How the faults of two runs compare. -/
structure FaultMatch where
  /-- Faults of the first run after which nothing is said of the second. -/
  excused : MachineFault → Prop
  alike : MachineFault → MachineFault → Prop

/-- Faults of the same kind, but for those that the verifier rules out. -/
def FaultMatch.ofKind : FaultMatch := ⟨fun e => e.isRuledOut = true, fun e e' => e'.kind = e.kind⟩

/-- Faults are alike where positions have moved. -/
structure FaultMatch.Fits (F : FaultMatch) (σ : Nat → Nat) : Prop where
  refl : ∀ e, F.alike e e
  stackUnderflow : ∀ pos, F.alike (.stackUnderflow pos) (.stackUnderflow (σ pos))
  typeMismatch : ∀ pos detail, F.alike (.typeMismatch pos detail) (.typeMismatch (σ pos) detail)
  noActiveException : ∀ pos, F.alike (.noActiveException pos) (.noActiveException (σ pos))

theorem FaultMatch.fits_ofKind (σ : Nat → Nat) : ofKind.Fits σ :=
  ⟨fun _ => rfl, fun _ => rfl, fun _ _ => rfl, fun _ => rfl⟩

/-! ## Results that mirror each other -/

section

variable {F : FaultMatch} {α β γ δ : Type} {ρ : Renaming} {P : α → β → Prop} {Q : γ → δ → Prop}

/-- Both give related results, raise the same exception, or have faults that are alike, unless
that of the first one is excused. -/
def Mirrors (F : FaultMatch) (ρ : Renaming) (P : α → β → Prop) (x : Except Trap α) (x' : Except Trap β) : Prop :=
  match x with
  | .ok a => ∃ b, x' = .ok b ∧ P a b
  | .error (.raise e) => x' = .error (.raise e)
  | .error (.failed (.thrown v)) => ∃ v', x' = .error (.failed (.thrown v')) ∧ v.Matches ρ v'
  | .error (.failed (.fault e)) =>
    F.excused e ∨ ∃ e', x' = .error (.fault e') ∧ F.alike e e'

theorem mirrors_ok {a : α} {b : β} (h : P a b) : Mirrors F ρ P (.ok a) (.ok b) := ⟨b, rfl, h⟩

theorem mirrors_raise (e : Raise) : Mirrors F ρ P (.error (.raise e)) (.error (.raise e)) := rfl

theorem mirrors_fault {e e' : MachineFault} (h : F.alike e e') :
    Mirrors F ρ P (.error (.fault e)) (.error (.fault e')) := .inr ⟨e', rfl, h⟩

theorem mirrors_excused {e : MachineFault} (h : F.excused e) (x' : Except Trap β) :
    Mirrors F ρ P (.error (.fault e)) x' := .inl h

theorem Mirrors.bind {x : Except Trap α} {x' : Except Trap β} {f : α → Except Trap γ}
    {f' : β → Except Trap δ} (h : Mirrors F ρ P x x')
    (hf : ∀ a b, P a b → Mirrors F ρ Q (f a) (f' b)) : Mirrors F ρ Q (x >>= f) (x' >>= f') := by
  cases x with
  | ok a =>
    obtain ⟨b, rfl, hab⟩ := h
    exact hf a b hab
  | error t =>
    cases t with
    | raise e =>
      obtain rfl : x' = .error (.raise e) := h
      exact mirrors_raise e
    | failed failure =>
      cases failure with
      | thrown v =>
        obtain ⟨v', rfl, hv⟩ := h
        exact ⟨v', rfl, hv⟩
      | fault e =>
        rcases h with hex | ⟨e', rfl, hk⟩
        · exact .inl hex
        · exact mirrors_fault hk

end

/-! ## Frames -/

/-- The second frame is the first one renamed, with its position moved. It may have more
slots. -/
structure Frame.Matches (ρ : Renaming) (σ : Nat → Nat) (pos : Nat) (f f' : Frame) : Prop where
  args : MatchAll ρ f.args f'.args
  locals : ∀ (k : Nat) (v : Value), f.locals[k]? = some v →
    ∃ v', f'.locals[k]? = some v' ∧ v.Matches ρ v'
  stack : MatchAll ρ f.stack f'.stack
  handling : List.Forall₂ (fun x x' => x'.range = x.range.shift σ ∧
    x.exception.Matches ρ x'.exception) f.handling f'.handling
  here : f.pc = pos
  there : f'.pc = σ pos

/-- Steps of frames that match. -/
inductive StepMatches (ρ : Renaming) (σ : Nat → Nat) : Step → Step → Prop
  | next {ρ' : Renaming} {pos : Nat} {f f' : Frame} {h h' : Heap} (he : ρ'.Extends ρ)
    (hf : f.Matches ρ' σ pos f') (hh : h.Matches ρ' h') : StepMatches ρ σ (.next f h) (.next f' h')
  | ret {v v' : Value} (hv : v.Matches ρ v') : StepMatches ρ σ (.ret v) (.ret v')
  | call (member : MemberRef) {args args' : List Value} (keeps : Bool) {pos : Nat} {f f' : Frame}
    (ha : MatchAll ρ args args') (hf : f.Matches ρ σ pos f') :
    StepMatches ρ σ (.call member args keeps f) (.call member args' keeps f')

namespace Frame

variable {F : FaultMatch} {ρ ρ' : Renaming} {σ : Nat → Nat} {pos : Nat} {f f' : Frame}
  {v v' : Value}

theorem Matches.mono (he : ρ'.Extends ρ) (hf : f.Matches ρ σ pos f') :
    f.Matches ρ' σ pos f' := by
  refine ⟨hf.args.mono he, fun k v hv => ?_, hf.stack.mono he, ?_, hf.here, hf.there⟩
  · obtain ⟨v', hv', hm⟩ := hf.locals k v hv
    exact ⟨v', hv', hm.mono he⟩
  · exact hf.handling.imp fun x x' hx => ⟨hx.1, hx.2.mono he⟩

/-- The same handlers catch exceptions that match. -/
theorem catches_matches (hv : v.Matches ρ v') (kind : HandlerKind) :
    catches v' kind = catches v kind := by
  cases kind with
  | catchAll => rfl
  | catchClass name => exact congrArg (· == some name) hv.className?

theorem Matches.push (hf : f.Matches ρ σ pos f') (hv : v.Matches ρ v') :
    (f.push v).Matches ρ σ pos (f'.push v') :=
  ⟨hf.args, hf.locals, .cons hv hf.stack, hf.handling, hf.here, hf.there⟩

theorem Matches.advance (hf : f.Matches ρ σ pos f') (hnext : σ (pos + 1) = σ pos + 1) :
    f.advance.Matches ρ σ (pos + 1) f'.advance := by
  refine ⟨hf.args, hf.locals, hf.stack, hf.handling, congrArg (· + 1) hf.here, ?_⟩
  show f'.pc + 1 = σ (pos + 1)
  rw [hf.there, hnext]

theorem Matches.jump (hf : f.Matches ρ σ pos f') (target : Nat) :
    (f.jump target).Matches ρ σ target (f'.jump (σ target)) :=
  ⟨hf.args, hf.locals, hf.stack, hf.handling, rfl, rfl⟩

/-- Both forget the same exceptions. -/
theorem Matches.dropHandling (hσ : Monotone σ) (hf : f.Matches ρ σ pos f') :
    f.dropHandling.Matches ρ σ pos f'.dropHandling := by
  refine ⟨hf.args, hf.locals, hf.stack, ?_, hf.here, hf.there⟩
  have hpc : f'.pc = σ f.pc := by rw [hf.there, hf.here]
  have hall := hf.handling
  unfold Frame.dropHandling
  dsimp only
  rw [hpc]
  generalize f.handling = handling at hall
  generalize f'.handling = handling' at hall
  induction hall with
  | nil => exact .nil
  | @cons x x' l l' hx hrest ih =>
    have hcontains : x'.range.contains (σ f.pc) = x.range.contains f.pc := by
      rw [hx.1, contains_shift hσ]
    rw [List.filter_cons, List.filter_cons, hcontains]
    cases x.range.contains f.pc with
    | true => exact ih
    | false => exact .cons hx ih

/-! ### Taking and putting values -/

section

variable {γ δ : Type} {Q : γ → δ → Prop}

theorem Matches.mismatch (hf : f.Matches ρ σ pos f') (hF : F.Fits σ) (detail : Mismatch) :
    Mirrors F ρ Q (f.mismatch detail) (f'.mismatch detail) := by
  unfold Frame.mismatch
  rw [hf.here, hf.there]
  exact mirrors_fault (hF.typeMismatch pos detail)

theorem Matches.wrongOperand (hf : f.Matches ρ σ pos f') (hF : F.Fits σ) (i : Instruction) :
    Mirrors F ρ Q (f.wrongOperand i) (f'.wrongOperand i) := hf.mismatch hF _

/-- Both take the top of the stack and keep their slots. -/
theorem Matches.popKeeping (hf : f.Matches ρ σ pos f') (hF : F.Fits σ)
    {G : Value × Frame → Except Trap γ} {G' : Value × Frame → Except Trap δ}
    (hG : ∀ v v' g g', v.Matches ρ v' → g.Matches ρ σ pos g' → g.locals = f.locals →
      g'.locals = f'.locals → Mirrors F ρ Q (G (v, g)) (G' (v', g'))) :
    Mirrors F ρ Q (f.pop >>= G) (f'.pop >>= G') := by
  have hstack := hf.stack
  have hpop : Mirrors F ρ (fun p p' => p.1.Matches ρ p'.1 ∧ p.2.Matches ρ σ pos p'.2 ∧
      p.2.locals = f.locals ∧ p'.2.locals = f'.locals) f.pop f'.pop := by
    unfold Frame.pop
    generalize f.stack = stack at hstack
    generalize f'.stack = stack' at hstack
    cases hstack with
    | nil =>
      rw [hf.here, hf.there]
      exact mirrors_fault (hF.stackUnderflow pos)
    | cons hv hrest =>
      exact mirrors_ok ⟨hv, ⟨hf.args, hf.locals, hrest, hf.handling, hf.here, hf.there⟩, rfl, rfl⟩
  exact hpop.bind fun p p' hp => hG p.1 p'.1 p.2 p'.2 hp.1 hp.2.1 hp.2.2.1 hp.2.2.2

theorem Matches.pop (hf : f.Matches ρ σ pos f') (hF : F.Fits σ)
    {G : Value × Frame → Except Trap γ} {G' : Value × Frame → Except Trap δ}
    (hG : ∀ v v' g g', v.Matches ρ v' → g.Matches ρ σ pos g' →
      Mirrors F ρ Q (G (v, g)) (G' (v', g'))) :
    Mirrors F ρ Q (f.pop >>= G) (f'.pop >>= G') :=
  hf.popKeeping hF fun v v' g g' hv hg _ _ => hG v v' g g' hv hg

theorem Matches.popMany (hf : f.Matches ρ σ pos f') (hF : F.Fits σ) (n : Nat)
    {G : List Value × Frame → Except Trap γ} {G' : List Value × Frame → Except Trap δ}
    (hG : ∀ vs vs' g g', MatchAll ρ vs vs' → g.Matches ρ σ pos g' →
      Mirrors F ρ Q (G (vs, g)) (G' (vs', g'))) :
    Mirrors F ρ Q (f.popMany n >>= G) (f'.popMany n >>= G') := by
  have hlen := hf.stack.length_eq
  have hpop : Mirrors F ρ (fun p p' => MatchAll ρ p.1 p'.1 ∧ p.2.Matches ρ σ pos p'.2)
      (f.popMany n) (f'.popMany n) := by
    unfold Frame.popMany
    by_cases hn : f.stack.length < n
    · rw [if_pos hn, if_pos (hlen ▸ hn), hf.here, hf.there]
      exact mirrors_fault (hF.stackUnderflow pos)
    · rw [if_neg hn, if_neg (hlen ▸ hn)]
      refine mirrors_ok ⟨?_, hf.args, hf.locals, ?_, hf.handling, hf.here, hf.there⟩
      · exact List.rel_reverse (List.forall₂_take n hf.stack)
      · exact List.forall₂_drop n hf.stack
  exact hpop.bind fun p p' hp => hG p.1 p'.1 p.2 p'.2 hp.1 hp.2

end

theorem Matches.give (hf : f.Matches ρ σ pos f') (hnext : σ (pos + 1) = σ pos + 1)
    {h h' : Heap} (hh : h.Matches ρ h') (hv : v.Matches ρ v') :
    Mirrors F ρ (StepMatches ρ σ) (f.give h v) (f'.give h' v') :=
  mirrors_ok (.next (.refl ρ) ((hf.push hv).advance hnext) hh)

/-! ### Operands -/

theorem Matches.loadArg (hf : f.Matches ρ σ pos f') (hF : F.Fits σ) (index : UInt16) :
    Mirrors F ρ (Value.Matches ρ) (f.loadArg index) (f'.loadArg index) := by
  unfold Frame.loadArg
  cases hv : f.args[index.toNat]? with
  | none =>
    rw [forall₂_getElem?_none hf.args hv]
    exact hf.mismatch hF _
  | some v =>
    obtain ⟨v', hv', hm⟩ := forall₂_getElem? hf.args hv
    rw [hv']
    exact mirrors_ok hm

/-- The second frame has the same slots, or the lack of a slot is excused. -/
def SlotsMatch (F : FaultMatch) (f f' : Frame) : Prop :=
  f'.locals.length = f.locals.length ∨ ∀ pos id, F.excused (.typeMismatch pos (.noLocal id))

theorem Matches.noSlot {α β : Type} {P : α → β → Prop} {x' : Except Trap β} {id : SlotId}
    (hf : f.Matches ρ σ pos f') (hF : F.Fits σ) (hl : SlotsMatch F f f')
    (hx : f'.locals.length = f.locals.length → x' = f'.mismatch (.noLocal id)) :
    Mirrors F ρ P (f.mismatch (.noLocal id)) x' := by
  rcases hl with hlen | hexcused
  · rw [hx hlen]
    exact hf.mismatch hF _
  · exact mirrors_excused (hexcused _ _) x'

theorem Matches.loadSlot (hf : f.Matches ρ σ pos f') (hF : F.Fits σ) (hl : SlotsMatch F f f')
    (id : SlotId) :
    Mirrors F ρ (Value.Matches ρ) (f.loadSlot id) (f'.loadSlot id) := by
  unfold Frame.loadSlot
  cases hv : f.locals[id.toNat]? with
  | none =>
    refine hf.noSlot hF hl fun hlen => ?_
    rw [List.getElem?_eq_none_iff, ← hlen, ← List.getElem?_eq_none_iff] at hv
    rw [hv]
  | some v =>
    obtain ⟨v', hv', hm⟩ := hf.locals _ v hv
    rw [hv']
    exact mirrors_ok hm

theorem Matches.storeArg (hf : f.Matches ρ σ pos f') (hF : F.Fits σ) (index : UInt16) (hv : v.Matches ρ v') :
    Mirrors F ρ (Frame.Matches ρ σ pos) (f.storeArg index v) (f'.storeArg index v') := by
  have hlen := hf.args.length_eq
  unfold Frame.storeArg
  by_cases hlt : index.toNat < f.args.length
  · rw [if_pos hlt, if_pos (hlen ▸ hlt)]
    exact mirrors_ok ⟨forall₂_set hf.args _ hv, hf.locals, hf.stack, hf.handling, hf.here, hf.there⟩
  · rw [if_neg hlt, if_neg (hlen ▸ hlt)]
    exact hf.mismatch hF _

theorem Matches.storeSlot (hf : f.Matches ρ σ pos f') (hF : F.Fits σ) (hl : SlotsMatch F f f')
    (id : SlotId) (hv : v.Matches ρ v') :
    Mirrors F ρ (Frame.Matches ρ σ pos) (f.storeSlot id v) (f'.storeSlot id v') := by
  unfold Frame.storeSlot
  by_cases hlt : id.toNat < f.locals.length
  · obtain ⟨w', hw', -⟩ := hf.locals _ _ (List.getElem?_eq_getElem hlt)
    obtain ⟨hlt', -⟩ := List.getElem?_eq_some_iff.1 hw'
    rw [if_pos hlt, if_pos hlt']
    refine mirrors_ok ⟨hf.args, fun k w hw => ?_, hf.stack, hf.handling, hf.here, hf.there⟩
    by_cases hk : id.toNat = k
    · obtain rfl := hk
      rw [List.getElem?_set_self hlt] at hw
      obtain rfl := Option.some.inj hw
      exact ⟨v', List.getElem?_set_self hlt', hv⟩
    · rw [List.getElem?_set_ne hk] at hw
      obtain ⟨w', hw', hm⟩ := hf.locals k w hw
      exact ⟨w', by rw [List.getElem?_set_ne hk, hw'], hm⟩
  · rw [if_neg hlt]
    refine hf.noSlot hF hl fun hlen => ?_
    rw [if_neg (hlen ▸ hlt)]

/-! ### Values -/

variable {a a' b b' : Value} {h h' : Heap}

theorem matches_ofBool (ρ : Renaming) (b : Bool) : (ofBool b).Matches ρ (ofBool b) := .int32 _

theorem mirrors_arith32 (ρ : Renaming) (op : Opcode) (a b : Int32) :
    Mirrors F ρ (Value.Matches ρ) ((arith32 op a b).mapError .raise)
      ((arith32 op a b).mapError .raise) := by
  unfold arith32
  split
  · exact mirrors_ok (.int32 _)
  · exact mirrors_ok (.int32 _)
  · exact mirrors_ok (.int32 _)
  · split
    · exact mirrors_raise _
    · exact mirrors_ok (.int32 _)
  · split
    · exact mirrors_raise _
    · exact mirrors_ok (.int32 _)
  · exact mirrors_ok (matches_ofBool ρ _)
  · exact mirrors_ok (matches_ofBool ρ _)

theorem mirrors_arith64 (ρ : Renaming) (op : Opcode) (a b : Int64) :
    Mirrors F ρ (Value.Matches ρ) ((arith64 op a b).mapError .raise)
      ((arith64 op a b).mapError .raise) := by
  unfold arith64
  split
  · exact mirrors_ok (.int64 _)
  · exact mirrors_ok (.int64 _)
  · exact mirrors_ok (.int64 _)
  · split
    · exact mirrors_raise _
    · exact mirrors_ok (.int64 _)
  · split
    · exact mirrors_raise _
    · exact mirrors_ok (.int64 _)
  · exact mirrors_ok (matches_ofBool ρ _)
  · exact mirrors_ok (matches_ofBool ρ _)

theorem matches_arithFloat (ρ : Renaming) (op : Opcode) (a b : Binary64) :
    (arithFloat op a b).Matches ρ (arithFloat op a b) := by
  unfold arithFloat
  split
  · exact .float64 _
  · exact .float64 _
  · exact .float64 _
  · exact .float64 _
  · exact .float64 _
  · exact matches_ofBool ρ _
  · exact matches_ofBool ρ _

theorem Matches.arith (hf : f.Matches ρ σ pos f') (hF : F.Fits σ) (hh : h.Matches ρ h')
    (op : Opcode) (ha : a.Matches ρ a') (hb : b.Matches ρ b') :
    Mirrors F ρ (Value.Matches ρ) (f.arith h op a b) (f'.arith h' op a' b') := by
  have hmismatch : Mirrors F ρ (Value.Matches ρ)
      (f.mismatch (.arithmetic op (h.text a) (h.text b)))
      (f'.mismatch (.arithmetic op (h'.text a') (h'.text b'))) := by
    rw [hh.text ha, hh.text hb]
    exact hf.mismatch hF _
  cases ha with
  | int32 x =>
    cases hb with
    | int32 y => exact mirrors_arith32 ρ op x y
    | _ => exact hmismatch
  | int64 x =>
    cases hb with
    | int64 y => exact mirrors_arith64 ρ op x y
    | _ => exact hmismatch
  | float64 x =>
    cases hb with
    | float64 y => exact mirrors_ok (matches_arithFloat ρ op x y)
    | _ => exact hmismatch
  | _ => cases hb <;> exact hmismatch

theorem Matches.negate (hf : f.Matches ρ σ pos f') (hF : F.Fits σ) (hh : h.Matches ρ h')
    (ha : a.Matches ρ a') :
    Mirrors F ρ (Value.Matches ρ) (f.negate h a) (f'.negate h' a') := by
  have hmismatch : Mirrors F ρ (Value.Matches ρ) (f.mismatch (.negation (h.text a)))
      (f'.mismatch (.negation (h'.text a'))) := by
    rw [hh.text ha]
    exact hf.mismatch hF _
  cases ha with
  | int32 x => exact mirrors_ok (.int32 _)
  | int64 x => exact mirrors_ok (.int64 _)
  | float64 x => exact mirrors_ok (.float64 _)
  | _ => exact hmismatch

theorem mirrors_elementsOf (hF : F.Fits σ) (hh : h.Matches ρ h') (ha : a.Matches ρ a') :
    Mirrors F ρ (fun items items' => MatchAll ρ items.toList items'.toList) (elementsOf h a)
      (elementsOf h' a') := by
  have hmismatch : Mirrors F ρ
      (fun (items items' : Array Value) => MatchAll ρ items.toList items'.toList)
      (.error (.fault (.typeMismatch 0 (.notArray (h.text a)))))
      (.error (.fault (.typeMismatch 0 (.notArray (h'.text a'))))) := by
    rw [hh.text ha]
    exact mirrors_fault (hF.refl _)
  cases ha with
  | null => exact mirrors_raise _
  | array hr => exact mirrors_ok (hh.items _ _ hr)
  | _ => exact hmismatch

theorem mirrors_indexOf (ha : a.Matches ρ a') (size : Nat) :
    Mirrors F ρ Eq (indexOf a size) (indexOf a' size) := by
  cases ha with
  | int32 x =>
    unfold indexOf
    dsimp only
    split
    · exact mirrors_ok rfl
    · exact mirrors_raise _
  | _ => exact mirrors_raise _

theorem Matches.lengthOf (hf : f.Matches ρ σ pos f') (hF : F.Fits σ) (ha : a.Matches ρ a') :
    Mirrors F ρ Eq (f.lengthOf a) (f'.lengthOf a') := by
  cases ha with
  | int32 x =>
    unfold Frame.lengthOf
    dsimp only
    split
    · exact mirrors_ok rfl
    · exact mirrors_raise _
  | _ => exact hf.mismatch hF _

theorem size_eq_of_matchAll {items items' : Array Value}
    (hi : MatchAll ρ items.toList items'.toList) : items'.size = items.size := by
  have hlen := hi.length_eq
  rw [Array.length_toList, Array.length_toList] at hlen
  exact hlen.symm

theorem matches_getD {items items' : Array Value} (hi : MatchAll ρ items.toList items'.toList)
    (k : Nat) : (items[k]?.getD .null).Matches ρ (items'[k]?.getD .null) := by
  rw [← Array.getElem?_toList, ← Array.getElem?_toList]
  cases hv : items.toList[k]? with
  | none =>
    rw [forall₂_getElem?_none hi hv]
    exact .null
  | some v =>
    obtain ⟨v', hv', hm⟩ := forall₂_getElem? hi hv
    rw [hv']
    exact hm

theorem matchAll_replicate (ρ : Renaming) (n : Nat) (hv : v.Matches ρ v') :
    MatchAll ρ (Array.replicate n v).toList (Array.replicate n v').toList := by
  rw [Array.toList_replicate, Array.toList_replicate]
  induction n with
  | zero => exact .nil
  | succ n ih => exact .cons hv ih

theorem Matches.store (hf : f.Matches ρ σ pos f') (hF : F.Fits σ) (hh : h.Matches ρ h')
    {array array' : Value} (harray : array.Matches ρ array') (ha : a.Matches ρ a')
    (hv : v.Matches ρ v') :
    Mirrors F ρ (Heap.Matches ρ) (f.store h array a v) (f'.store h' array' a' v') := by
  have hmismatch : Mirrors F ρ (Heap.Matches ρ) (f.mismatch (.arrayStore (h.text array)))
      (f'.mismatch (.arrayStore (h'.text array'))) := by
    rw [hh.text harray]
    exact hf.mismatch hF _
  cases harray with
  | null => exact mirrors_raise _
  | @array r r' hr =>
    have hindex : Mirrors F ρ Eq _ _ := mirrors_indexOf ha (h.items r).size
    have hsize := size_eq_of_matchAll (hh.items _ _ hr)
    unfold Frame.store
    dsimp only
    rw [hsize]
    refine hindex.bind fun k k' hk => ?_
    obtain rfl := hk
    exact mirrors_ok (hh.write hr k hv)
  | _ => exact hmismatch

theorem mirrors_unbox (ha : a.Matches ρ a') :
    Mirrors F ρ (Value.Matches ρ) (unbox a) (unbox a') := by
  cases ha with
  | null => exact mirrors_raise _
  | boxed hr hv => exact mirrors_ok hv
  | _ => exact mirrors_raise _

/-! ### Instructions -/

section

variable {r r' : Routine} {imports imports' : ImportTable} {i : Instruction}

theorem mirrors_target (hx : ∀ e, F.excused (.code e))
    (ht : ∀ target, r.target i = .ok target → r'.target i = .ok (σ target)) :
    Mirrors F ρ (fun target target' => target' = σ target) (r.target i) (r'.target i) := by
  cases htarget : r.target i with
  | ok target => exact ⟨σ target, ht target htarget, rfl⟩
  | error t =>
    unfold Routine.target at htarget
    cases hi : i.target? with
    | none =>
      rw [hi] at htarget
      cases htarget
      exact mirrors_excused (hx _) _
    | some id =>
      rw [hi] at htarget
      dsimp only at htarget
      cases ha : r.body.anchor id with
      | ok target =>
        rw [ha] at htarget
        cases htarget
      | error e =>
        rw [ha] at htarget
        cases htarget
        exact mirrors_excused (hx _) _

theorem Matches.branchIf (hf : f.Matches ρ σ pos f') (hF : F.Fits σ)
    (hnext : σ (pos + 1) = σ pos + 1)
    (ht : Mirrors F ρ (fun target target' => target' = σ target) (r.target i) (r'.target i))
    (hh : h.Matches ρ h') (wanted : Bool) :
    Mirrors F ρ (StepMatches ρ σ) (f.branchIf r h i wanted) (f'.branchIf r' h' i wanted) := by
  refine hf.pop hF fun v v' g g' hv hg => ?_
  dsimp only
  rw [hv.isTruthy]
  by_cases hw : v.isTruthy = wanted
  · rw [if_pos hw, if_pos hw]
    refine ht.bind fun target target' he => ?_
    obtain rfl := he
    exact mirrors_ok (.next (.refl ρ) (hg.jump target) hh)
  · rw [if_neg hw, if_neg hw]
    exact mirrors_ok (.next (.refl ρ) (hg.advance hnext) hh)

/-- The second table has the same members, or the lack of a member is excused. -/
def MembersMatch (F : FaultMatch) (imports imports' : ImportTable) : Prop :=
  ∀ id, imports'.get? id = imports.get? id ∨
    imports.get? id = none ∧ F.excused (.code (.unknownMember id))

theorem membersMatch_of_extends (hx : ∀ id, F.excused (.code (.unknownMember id)))
    (hi : imports'.Extends imports) : MembersMatch F imports imports' := by
  intro id
  cases hm : imports.get? id with
  | none => exact .inr ⟨rfl, hx id⟩
  | some member => exact .inl (hi.get? hm)

theorem Matches.beginCall (hf : f.Matches ρ σ pos f') (hF : F.Fits σ)
    (hi : MembersMatch F imports imports') :
    Mirrors F ρ (StepMatches ρ σ) (f.beginCall imports i) (f'.beginCall imports' i) := by
  unfold Frame.beginCall
  cases i.operand with
  | member id =>
    dsimp only
    rcases hi id with hsame | ⟨hnone, hexcused⟩
    · rw [hsame]
      cases imports.get? id with
      | none => exact mirrors_fault (hF.refl _)
      | some member =>
        refine hf.popMany hF _ fun vs vs' g g' hvs hg => ?_
        exact mirrors_ok (.call member _ hvs hg)
    · rw [hnone]
      exact mirrors_excused hexcused _
  | _ => exact hf.wrongOperand hF i

theorem Matches.leave (hf : f.Matches ρ σ pos f') (hσ : Monotone σ)
    (ht : Mirrors F ρ (fun target target' => target' = σ target) (r.target i) (r'.target i))
    (hh : h.Matches ρ h') :
    Mirrors F ρ (StepMatches ρ σ)
      (do return .next ({ f.dropHandling with stack := [] }.jump (← r.target i)) h)
      (do return .next ({ f'.dropHandling with stack := [] }.jump (← r'.target i)) h') := by
  refine ht.bind fun target target' he => ?_
  obtain rfl := he
  have hdrop := hf.dropHandling hσ
  exact mirrors_ok (.next (.refl ρ)
    ⟨hdrop.args, hdrop.locals, .nil, hdrop.handling, rfl, rfl⟩ hh)

theorem Matches.rethrow (hf : f.Matches ρ σ pos f') (hF : F.Fits σ) :
    Mirrors F ρ (StepMatches ρ σ)
      (match f.handling with
      | [] => .error (.fault (.noActiveException f.pc))
      | active :: _ => .error (.failed (.thrown active.exception)))
      (match f'.handling with
      | [] => .error (.fault (.noActiveException f'.pc))
      | active :: _ => .error (.failed (.thrown active.exception))) := by
  have hall := hf.handling
  rw [hf.here, hf.there]
  generalize f.handling = handling at hall
  generalize f'.handling = handling' at hall
  cases hall with
  | nil => exact mirrors_fault (hF.noActiveException pos)
  | cons hx hrest => exact ⟨_, rfl, hx.2⟩

/-- What an instruction does to frames that match, if it is not a return. -/
theorem mirrors_step (hF : F.Fits σ) (hσ : Monotone σ) (hnext : σ (pos + 1) = σ pos + 1)
    (ht : Mirrors F ρ (fun target target' => target' = σ target) (r.target i) (r'.target i))
    (hi : MembersMatch F imports imports') (hl : SlotsMatch F f f') (hret : i.opcode ≠ .ret)
    (hf : f.Matches ρ σ pos f') (hh : h.Matches ρ h') :
    Mirrors F ρ (StepMatches ρ σ) (f.step r imports h i) (f'.step r' imports' h' i) := by
  unfold Frame.step
  cases hop : i.opcode with
  | ret => exact absurd hop hret
  | nop => exact mirrors_ok (.next (.refl ρ) (hf.advance hnext) hh)
  | ldnull => exact hf.give hnext hh .null
  | ldcI4 =>
    cases i.operand with
    | int32 v => exact hf.give hnext hh (.int32 v)
    | _ => exact hf.wrongOperand hF i
  | ldcI8 =>
    cases i.operand with
    | int64 v => exact hf.give hnext hh (.int64 v)
    | _ => exact hf.wrongOperand hF i
  | ldcR8 =>
    cases i.operand with
    | float64 v => exact hf.give hnext hh (.float64 v)
    | _ => exact hf.wrongOperand hF i
  | ldstr =>
    cases i.operand with
    | text s => exact hf.give hnext hh (.text s)
    | _ => exact hf.wrongOperand hF i
  | ldarg =>
    cases i.operand with
    | argument index => exact (hf.loadArg hF index).bind fun v v' hv => hf.give hnext hh hv
    | _ => exact hf.wrongOperand hF i
  | starg =>
    cases i.operand with
    | argument index =>
      refine hf.pop hF fun v v' g g' hv hg => (hg.storeArg hF index hv).bind fun k k' hk => ?_
      exact mirrors_ok (.next (.refl ρ) (hk.advance hnext) hh)
    | _ => exact hf.wrongOperand hF i
  | ldloc =>
    cases i.operand with
    | slot id => exact (hf.loadSlot hF hl id).bind fun v v' hv => hf.give hnext hh hv
    | _ => exact hf.wrongOperand hF i
  | stloc =>
    cases i.operand with
    | slot id =>
      refine hf.popKeeping hF fun v v' g g' hv hg hs hs' => ?_
      have hl' : SlotsMatch F g g' := by
        unfold SlotsMatch
        rw [hs, hs']
        exact hl
      refine (hg.storeSlot hF hl' id hv).bind fun k k' hk => ?_
      exact mirrors_ok (.next (.refl ρ) (hk.advance hnext) hh)
    | _ => exact hf.wrongOperand hF i
  | dup => exact hf.pop hF fun v v' g g' hv hg => (hg.push hv).give hnext hh hv
  | pop =>
    exact hf.pop hF fun v v' g g' hv hg => mirrors_ok (.next (.refl ρ) (hg.advance hnext) hh)
  | add | sub | mul | div | rem | clt | cgt =>
    refine hf.pop hF fun b b' g g' hb hg => hg.pop hF fun a a' k k' ha hk => ?_
    exact (hk.arith hF hh _ ha hb).bind fun v v' hv => hk.give hnext hh hv
  | ceq =>
    refine hf.pop hF fun b b' g g' hb hg => hg.pop hF fun a a' k k' ha hk => ?_
    dsimp only
    rw [ha.equal hh.arraysNodup hh.objectsNodup hb]
    exact hk.give hnext hh (matches_ofBool ρ _)
  | neg =>
    refine hf.pop hF fun a a' g g' ha hg => ?_
    exact (hg.negate hF hh ha).bind fun v v' hv => hg.give hnext hh hv
  | br =>
    refine ht.bind fun target target' he => ?_
    obtain rfl := he
    exact mirrors_ok (.next (.refl ρ) (hf.jump target) hh)
  | brtrue => exact hf.branchIf hF hnext ht hh true
  | brfalse => exact hf.branchIf hF hnext ht hh false
  | leave => exact hf.leave hσ ht hh
  | throw =>
    refine hf.pop hF fun v v' g g' hv hg => ?_
    dsimp only
    rw [hv.isNull]
    split
    · exact mirrors_raise _
    · exact ⟨v', rfl, hv⟩
  | rethrow => exact hf.rethrow hF
  | call | callvirt | newobj => exact hf.beginCall hF hi
  | newarr =>
    cases i.operand with
    | ty element =>
      refine hf.pop hF fun v v' g g' hv hg => (hg.lengthOf hF hv).bind fun n n' hn => ?_
      obtain rfl := hn
      obtain ⟨ρ', he, harray, hh'⟩ :=
        hh.alloc (matchAll_replicate ρ n (Value.matches_initial ρ element))
      exact mirrors_ok (.next he (((hg.mono he).push harray).advance hnext) hh')
    | _ => exact hf.wrongOperand hF i
  | ldlen =>
    refine hf.pop hF fun a a' g g' ha hg => (mirrors_elementsOf hF hh ha).bind fun is is' his => ?_
    rw [size_eq_of_matchAll his]
    exact hg.give hnext hh (.int32 _)
  | ldelem =>
    refine hf.pop hF fun index index' g g' hindex hg => hg.pop hF fun a a' k k' ha hk => ?_
    refine (mirrors_elementsOf hF hh ha).bind fun is is' his => ?_
    rw [size_eq_of_matchAll his]
    refine (mirrors_indexOf hindex is.size).bind fun n n' hn => ?_
    obtain rfl := hn
    exact hk.give hnext hh (matches_getD his n)
  | stelem =>
    refine hf.pop hF fun v v' g g' hv hg => hg.pop hF fun index index' k k' hindex hk => ?_
    refine hk.pop hF fun a a' l l' ha hl => ?_
    refine (hl.store hF hh ha hindex hv).bind fun heap heap' hheap => ?_
    exact mirrors_ok (.next (.refl ρ) (hl.advance hnext) hheap)
  | box =>
    cases i.operand with
    | ty t =>
      refine hf.pop hF fun v v' g g' hv hg => ?_
      dsimp only
      split
      · obtain ⟨ρ', he, hbox, hh'⟩ := hh.newBox hv
        exact mirrors_ok (.next he (((hg.mono he).push hbox).advance hnext) hh')
      · exact hg.give hnext hh hv
    | _ => exact hf.wrongOperand hF i
  | unbox =>
    cases i.operand with
    | ty t =>
      refine hf.pop hF fun a a' g g' ha hg => ?_
      exact (mirrors_unbox ha).bind fun v v' hv => hg.give hnext hh hv
    | _ => exact hf.wrongOperand hF i

end

end Frame

end Interpose
