import Interpose.Body.Listing
import Interpose.Proofs.Body.Codec
import Interpose.Proofs.Lists
/-!
# Bodies that are alike

Two bodies are alike if they hold the same instructions, handlers and slots up to the ids
by which references go: what one refers to by an id, the other refers to by the id at the
same place.

Results:
* `Alike.regions_eq`, `Alike.listing_eq`: regions and listings do not show the difference.
* `alike_of_reload`: a body that was written and read again is like the first.
-/
namespace Interpose

variable {b b' : Body}

/-- The same instruction, whose target stands at the same place. -/
inductive Instruction.Alike (b b' : Body) : Instruction → Instruction → Prop
  | same (i : Instruction) (h : i.target? = none) : Alike b b' i i
  | target (op : Opcode) {t t' : InstructionId} (h : b.anchor t = b'.anchor t') :
    Alike b b' ⟨op, .target t⟩ ⟨op, .target t'⟩

/-- Ends of ranges at the same place. -/
def SameEnd (b b' : Body) : Option InstructionId → Option InstructionId → Prop :=
  Option.Rel fun id id' => b.anchor id = b'.anchor id'

/-- Handlers of the same kind with their anchors at the same places. -/
structure Handler.Alike (b b' : Body) (h h' : Handler) : Prop where
  kind : h.kind = h'.kind
  tryStart : b.anchor h.tryStart = b'.anchor h'.tryStart
  tryEnd : SameEnd b b' h.tryEnd? h'.tryEnd?
  handlerStart : b.anchor h.handlerStart = b'.anchor h'.handlerStart
  handlerEnd : SameEnd b b' h.handlerEnd? h'.handlerEnd?

/-- The same code up to the ids of instructions. -/
structure Body.Alike (b b' : Body) : Prop where
  code : List.Forall₂ (Instruction.Alike b b') b.code b'.code
  handlers : List.Forall₂ (Handler.Alike b b') b.handlers b'.handlers
  locals : b.locals = b'.locals

/-! ## Instructions -/

namespace Instruction.Alike

variable {i i' : Instruction}

theorem opcode_eq (h : Alike b b' i i') : i.opcode = i'.opcode := by
  cases h <;> rfl

theorem member?_eq (h : Alike b b' i i') : i.member? = i'.member? := by
  cases h <;> rfl

theorem retarget {f : Nat → Nat} (h : ∀ t, i.target? = some t → b.anchor t = b'.anchor (f t)) :
    Alike b b' i (i.retarget f) := by
  obtain ⟨op, o⟩ := i
  cases o with
  | target t => exact .target op (h t rfl)
  | _ => exact .same _ rfl

theorem line_eq (h : Alike b b' i i') (hl : ∀ id id', b.anchor id = b'.anchor id' →
    b.label id = b'.label id') (pos : Nat) : b.instructionLine pos i = b'.instructionLine pos i' := by
  cases h with
  | same _ ht => simp only [Body.instructionLine, ht]
  | target op h => simp only [Body.instructionLine, target?, hl _ _ h]

end Instruction.Alike

theorem SameEnd.map {f : Nat → Nat} {id? : Option InstructionId}
    (h : ∀ id, id? = some id → b.anchor id = b'.anchor (f id)) : SameEnd b b' id? (id?.map f) := by
  cases id? with
  | none => exact .none
  | some id => exact .some (h id rfl)

theorem Handler.Alike.reanchor {f : Nat → Nat} {x : Handler}
    (h : ∀ id ∈ x.anchors, b.anchor id = b'.anchor (f id)) : Alike b b' x (x.reanchor f) := by
  simp only [anchors, List.mem_cons, List.mem_append, Option.mem_toList] at h
  constructor
  · rfl
  · exact h _ (.inl rfl)
  · exact SameEnd.map fun id hid => h id (.inr (.inl hid))
  · exact h _ (.inr (.inr (.inl rfl)))
  · exact SameEnd.map fun id hid => h id (.inr (.inr (.inr hid)))

namespace Body

/-- Anchors that are found at the same place are shown alike, and so are those not found. -/
theorem label_eq {id id' : InstructionId} (h : b.anchor id = b'.anchor id') :
    b.label id = b'.label id' := by
  unfold anchor at h
  unfold label
  cases hp : b.position? id <;> cases hp' : b'.position? id' <;> simp_all

theorem endLabel_eq {id? id'? : Option InstructionId} (h : SameEnd b b' id? id'?) :
    b.endLabel id? = b'.endLabel id'? := by
  cases h with
  | none => rfl
  | some h => exact label_eq h

namespace Alike

/-- The recorded depth of the stack plays no part. -/
theorem withMaxStack (b : Body) (k : UInt16) : b.Alike { b with maxStack := k } where
  code := List.forall₂_same.2 fun i _ => by
    have hi : Instruction.Alike b { b with maxStack := k } i (i.retarget id) :=
      .retarget fun _ _ => rfl
    rwa [Instruction.retarget_id] at hi
  handlers := List.forall₂_same.2 fun x _ => by
    have hx : Handler.Alike b { b with maxStack := k } x (x.reanchor id) :=
      .reanchor fun _ _ => rfl
    rwa [Handler.reanchor_id] at hx
  locals := rfl

theorem refl (b : Body) : b.Alike b := withMaxStack b b.maxStack

theorem size_eq (h : b.Alike b') : b.size = b'.size := by
  have hlen := h.code.length_eq
  rwa [Body.code, Body.code, List.length_map, List.length_map] at hlen

theorem span_eq (h : b.Alike b') {start start' : InstructionId}
    {stop? stop'? : Option InstructionId} (hs : b.anchor start = b'.anchor start')
    (he : SameEnd b b' stop? stop'?) : b.span start stop? = b'.span start' stop'? := by
  unfold span
  cases he with
  | none => rw [hs, h.size_eq]
  | some he => rw [hs]; simp only [he]

theorem region_eq (h : b.Alike b') {x x' : Handler} (hx : Handler.Alike b b' x x') :
    b.region x = b'.region x' := by
  unfold region
  rw [h.span_eq hx.tryStart hx.tryEnd, h.span_eq hx.handlerStart hx.handlerEnd, hx.kind]

theorem regionsOf_eq (h : b.Alike b') {hs hs' : List Handler}
    (hh : List.Forall₂ (Handler.Alike b b') hs hs') : b.regionsOf hs = b'.regionsOf hs' := by
  induction hh with
  | nil => rfl
  | cons hx _ ih => rw [regionsOf, regionsOf, h.region_eq hx, ih]

theorem regions_eq (h : b.Alike b') : b.regions = b'.regions := h.regionsOf_eq h.handlers

/-! ## Listings -/

theorem numbered_eq {α : Type} {R : α → α → Prop} {line line' : Nat → α → String}
    (hline : ∀ n a a', R a a' → line n a = line' n a') {l l' : List α}
    (hl : List.Forall₂ R l l') (n : Nat) : numbered line n l = numbered line' n l' := by
  induction hl generalizing n with
  | nil => rfl
  | cons ha _ ih => rw [numbered, numbered, hline n _ _ ha, ih]

theorem handlerLine_eq {x x' : Handler} (hx : Handler.Alike b b' x x') :
    b.handlerLine x = b'.handlerLine x' := by
  unfold handlerLine
  rw [label_eq hx.tryStart, endLabel_eq hx.tryEnd, hx.kind, label_eq hx.handlerStart,
    endLabel_eq hx.handlerEnd]

/-- Listings show positions, not ids. -/
theorem listing_eq (h : b.Alike b') (hmax : b.maxStack = b'.maxStack) :
    b.listing = b'.listing := by
  have hcode : numbered b.instructionLine 0 b.code = numbered b'.instructionLine 0 b'.code :=
    numbered_eq (fun pos _ _ hi => hi.line_eq (fun _ _ => label_eq) pos) h.code 0
  have hhandlers : b.handlers.map b.handlerLine = b'.handlers.map b'.handlerLine :=
    forall₂_map_eq h.handlers fun _ _ => handlerLine_eq
  unfold listing
  rw [hcode, hhandlers, h.locals, hmax]

end Alike

/-! ## Reloading -/

/-- A body that was written and read again is like the first. -/
theorem alike_of_reload {l : LabelledBody} (he : b.encode = .ok l) (hd : l.decode = .ok b') :
    b.Alike b' ∧ b.maxStack = b'.maxStack := by
  obtain ⟨hin, -⟩ := encode_eq_ok_iff.1 he
  obtain ⟨b₁, hd₁, hids, hcode, hhandlers, hlocals, hmax, -⟩ := decode_of_encode he
  obtain rfl : b₁ = b' := Except.ok.inj (hd₁.symm.trans hd)
  have hplace : ∀ id ∈ b.references, b.anchor id = b₁.anchor (b.ids.idxOf id) := by
    intro id hid
    have hlt := idxOf_lt_size (hin id hid)
    rw [anchor_eq, anchor_eq, lookUp, lookUp, if_pos (hin id hid), hids, idxOf_range hlt,
      if_pos (List.mem_range.2 hlt)]
  refine ⟨⟨?_, ?_, hlocals.symm⟩, hmax.symm⟩
  · rw [hcode, List.forall₂_map_right_iff, List.forall₂_same]
    intro i hi
    refine .retarget fun t ht => hplace t ?_
    exact mem_references.2 (.inl ⟨i, hi, ht⟩)
  · rw [hhandlers, List.forall₂_map_right_iff, List.forall₂_same]
    intro x hx
    refine .reanchor fun id hid => hplace id ?_
    exact mem_references.2 (.inr ⟨x, hx, hid⟩)

end Body

end Interpose
