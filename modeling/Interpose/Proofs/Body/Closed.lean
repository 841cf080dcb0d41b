import Interpose.Body.Labelled
import Interpose.Proofs.Body.Anchor
/-!
# What a body refers to

A body refers to instructions by the targets of its branches and the anchors of its handlers.
It is closed if these are instructions of its own. The ids that an edit gives out are the next
ones, so a reference that leads nowhere may lead to an instruction that was inserted since. It
keeps its meaning as long as the two bodies are apart.

Results:
* `closed_iff`: a closed body refers to nothing outside itself.
* `Closed.apart`: a closed body is apart from every other one.
* `Apart.anchored`: anchors that another body has are the body's own, if the two are apart.
-/
namespace Interpose

/-- The anchors of a handler, field by field. -/
def Handler.anchors (h : Handler) : List Nat :=
  h.tryStart :: (h.tryEnd?.toList ++ h.handlerStart :: h.handlerEnd?.toList)

/-- What instructions target and handlers are anchored at: instructions first. -/
def references (code : List Instruction) (handlers : List Handler) : List Nat :=
  code.flatMap (·.target?.toList) ++ handlers.flatMap Handler.anchors

def Body.references (b : Body) : List Nat := Interpose.references b.code b.handlers

/-- Do the branch targets and the anchors of a body belong to it? -/
structure Body.Closed (b : Body) : Prop where
  targets : ∀ i ∈ b.code, ∀ id, i.target? = some id → id < b.size
  anchors : b.Anchored

/-- Does a body refer to no instruction that it does not have and this other one has? -/
def Body.Apart (b other : Body) : Prop := ∀ id ∈ b.references, id ∈ other.ids → id ∈ b.ids

instance (b other : Body) : Decidable (b.Apart other) :=
  inferInstanceAs (Decidable (∀ id ∈ b.references, id ∈ other.ids → id ∈ b.ids))

theorem Handler.forall_mem_anchors {x : Handler} {P : InstructionId → Prop} :
    (∀ id ∈ x.anchors, P id) ↔ P x.tryStart ∧ (∀ id, x.tryEnd? = some id → P id) ∧
      P x.handlerStart ∧ ∀ id, x.handlerEnd? = some id → P id := by
  simp only [anchors, List.forall_mem_cons, List.forall_mem_append, Option.mem_toList]

theorem mem_references {code : List Instruction} {handlers : List Handler} {id : Nat} :
    id ∈ references code handlers ↔
      (∃ i ∈ code, i.target? = some id) ∨ ∃ x ∈ handlers, id ∈ x.anchors := by
  simp only [references, List.mem_append, List.mem_flatMap, Option.mem_toList]

namespace Body

variable {b other : Body} {id : InstructionId}

theorem exists_position?_of_lt (h : id < b.size) : ∃ pos, b.position? id = some pos := by
  obtain ⟨pos, hpos⟩ := anchor_isOk.2 ((b.mem_ids id).2 h)
  exact ⟨pos, anchor_eq_ok.1 hpos⟩

theorem anchored_iff_forall : b.Anchored ↔ ∀ x ∈ b.handlers, ∀ id ∈ x.anchors, id ∈ b.ids := by
  simp only [Anchored, Handler.forall_mem_anchors]

/-- A body is closed if it refers to nothing outside itself. -/
theorem closed_iff : b.Closed ↔ ∀ id ∈ b.references, id ∈ b.ids := by
  constructor
  · intro h id hid
    rcases mem_references.1 hid with ⟨i, hi, ht⟩ | ⟨x, hx, ha⟩
    · exact (b.mem_ids id).2 (h.targets i hi id ht)
    · exact anchored_iff_forall.1 h.anchors x hx id ha
  · intro h
    refine ⟨fun i hi id ht => (b.mem_ids id).1 (h id ?_), anchored_iff_forall.2 fun x hx id ha => ?_⟩
    · exact mem_references.2 (.inl ⟨i, hi, ht⟩)
    · exact h id (mem_references.2 (.inr ⟨x, hx, ha⟩))

theorem Closed.apart (h : b.Closed) (other : Body) : b.Apart other :=
  fun id hid _ => closed_iff.1 h id hid

/-- Handlers whose anchors another body has are anchored, if the two are apart. -/
theorem Apart.anchored (h : b.Apart other)
    (ha : ∀ x ∈ b.handlers, ∀ id ∈ x.anchors, id ∈ other.ids) : b.Anchored :=
  anchored_iff_forall.2 fun x hx id hid =>
    h id (mem_references.2 (.inr ⟨x, hx, hid⟩)) (ha x hx id hid)

theorem map_snd_number (n : Nat) (code : List Instruction) :
    (number n code).map (·.2) = code := by
  induction code generalizing n with
  | nil => rfl
  | cons i rest ih => rw [number, List.map_cons, ih]

end Body

end Interpose
