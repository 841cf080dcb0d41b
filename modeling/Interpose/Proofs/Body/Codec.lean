import Mathlib.Data.List.Nodup
import Interpose.Proofs.Body.Closed
/-!
# The codec of bodies

A labelled body and a body are told apart by what a reference names: a label, or an id.
Reading and writing both replace each reference by the place of what it names, so one
account of such a replacement (`Reads`) serves both.

Results:
* `decode_eq_ok_iff`, `decode_eq_error_iff`: when a labelled body is read, what is read,
  and which label is reported otherwise.
* `closed_of_decode`: a body that was read is closed.
* `decode_rename`: the labels themselves do not matter.
* `encode_eq_ok_iff`: when a body is written, and what is written.
* `decode_of_encode`: what was written reads back, and is then written the same.
* `body_codec`: all of it.
-/
namespace Interpose

/-! ## References -/

/-- The instruction with its target renamed. -/
def Instruction.retarget (f : Nat → Nat) (i : Instruction) : Instruction :=
  match i.operand with
  | .target t => ⟨i.opcode, .target (f t)⟩
  | _ => i

/-- The handler with its anchors renamed. -/
def Handler.reanchor (f : Nat → Nat) (h : Handler) : Handler :=
  ⟨h.kind, f h.tryStart, h.tryEnd?.map f, f h.handlerStart, h.handlerEnd?.map f⟩

def LabelledBody.references (l : LabelledBody) : List Nat :=
  Interpose.references (l.code.map (·.2)) l.handlers

section

variable {f g : Nat → Nat} {i : Instruction} {h : Handler}

theorem Instruction.target?_retarget : (i.retarget f).target? = i.target?.map f := by
  obtain ⟨op, o⟩ := i
  cases o <;> rfl

theorem Instruction.retarget_retarget : (i.retarget f).retarget g = i.retarget (g ∘ f) := by
  obtain ⟨op, o⟩ := i
  cases o <;> rfl

theorem Instruction.retarget_id : i.retarget id = i := by
  obtain ⟨op, o⟩ := i
  cases o <;> rfl

theorem Instruction.retarget_congr (hi : ∀ t, i.target? = some t → f t = g t) :
    i.retarget f = i.retarget g := by
  obtain ⟨op, o⟩ := i
  cases o with
  | target t =>
    have ht : f t = g t := hi t rfl
    simp only [retarget, ht]
  | _ => rfl

theorem Handler.anchors_reanchor : (h.reanchor f).anchors = h.anchors.map f := by
  cases ht : h.tryEnd? <;> cases hs : h.handlerEnd? <;> simp [anchors, reanchor, ht, hs]

theorem Handler.reanchor_reanchor : (h.reanchor f).reanchor g = h.reanchor (g ∘ f) := by
  simp [reanchor]

theorem Handler.reanchor_id : h.reanchor id = h := by
  simp [reanchor]

theorem Handler.reanchor_congr (hh : ∀ n ∈ h.anchors, f n = g n) :
    h.reanchor f = h.reanchor g := by
  simp only [anchors, List.mem_cons, List.mem_append, Option.mem_toList] at hh
  simp only [reanchor, Handler.mk.injEq, true_and]
  refine ⟨hh _ (.inl rfl), ?_, hh _ (.inr (.inr (.inl rfl))), ?_⟩
  · exact Option.map_congr fun n hn => hh n (.inr (.inl hn))
  · exact Option.map_congr fun n hn => hh n (.inr (.inr (.inr hn)))

variable {code : List Instruction} {handlers : List Handler}

theorem map_retarget_congr (hc : ∀ n ∈ references code handlers, f n = g n) :
    code.map (·.retarget f) = code.map (·.retarget g) :=
  List.map_congr_left fun i hi => Instruction.retarget_congr fun t ht =>
    hc t (mem_references.2 (.inl ⟨i, hi, ht⟩))

theorem map_reanchor_congr (hc : ∀ n ∈ references code handlers, f n = g n) :
    handlers.map (·.reanchor f) = handlers.map (·.reanchor g) :=
  List.map_congr_left fun h hh => Handler.reanchor_congr fun n hn =>
    hc n (mem_references.2 (.inr ⟨h, hh, hn⟩))

theorem references_rename :
    references (code.map (·.retarget f)) (handlers.map (·.reanchor f)) =
      (references code handlers).map f := by
  simp only [references, List.flatMap_map, List.map_append, List.map_flatMap,
    Instruction.target?_retarget, Handler.anchors_reanchor, Option.toList_map]

end

/-! ## Replacing references -/

/-- `n` is the first of these references that is not known. -/
def FirstUnknown (known refs : List Nat) (n : Nat) : Prop :=
  ∃ front back, refs = front ++ n :: back ∧ (∀ m ∈ front, m ∈ known) ∧ n ∉ known

theorem known_or_firstUnknown (known refs : List Nat) :
    (∀ n ∈ refs, n ∈ known) ∨ ∃ n, FirstUnknown known refs n := by
  induction refs with
  | nil => exact .inl fun n hn => absurd hn List.not_mem_nil
  | cons n rest ih =>
    by_cases hn : n ∈ known
    · rcases ih with hall | ⟨m, front, back, rfl, hf, hm⟩
      · exact .inl (by simpa [hn] using hall)
      · exact .inr ⟨m, n :: front, back, rfl, by simpa [hn] using hf, hm⟩
    · exact .inr ⟨n, [], rest, rfl, by simp, hn⟩

/-- The place of a number among those known. -/
def lookUp (known : List Nat) (unknown : Nat → CodeError) (n : Nat) : Except CodeError Nat :=
  if n ∈ known then .ok (known.idxOf n) else .error (unknown n)

theorem idxOf?_eq (known : List Nat) (n : Nat) :
    known.idxOf? n = if n ∈ known then some (known.idxOf n) else none := by
  split
  · next hn =>
    rw [List.idxOf?, List.findIdx?_eq_some_iff_getElem]
    have hlt : known.idxOf n < known.length := List.idxOf_lt_length_iff.2 hn
    refine ⟨hlt, by simp, fun j hj => ?_⟩
    simpa using List.not_of_lt_findIdx hj
  · next hn =>
    rw [List.idxOf?_eq_none_iff]
    exact hn

theorem LabelledBody.resolve_eq (labels : List Nat) :
    resolve labels = lookUp labels .undefinedLabel := by
  funext n
  rw [resolve, idxOf?_eq, lookUp]
  split <;> simp_all

theorem Body.anchor_eq (b : Body) : b.anchor = lookUp b.ids .unknownInstruction := by
  funext n
  rw [anchor, position?, idxOf?_eq, lookUp]
  split <;> simp_all

/-- A step that puts the place of each of `refs` in its stead, in turn: it gives `value` if
all are known, and else reports the first that is not. -/
structure Reads {β : Type} (known : List Nat) (unknown : Nat → CodeError) (refs : List Nat)
    (step : Except CodeError β) (value : β) : Prop where
  ok : (∀ n ∈ refs, n ∈ known) → step = .ok value
  error : ∀ n, FirstUnknown known refs n → step = .error (unknown n)

namespace Reads

variable {β γ : Type} {known : List Nat} {unknown : Nat → CodeError} {refs refs' : List Nat}
  {step : Except CodeError β} {value : β}

theorem eq_ok_iff (h : Reads known unknown refs step value) {y : β} :
    step = .ok y ↔ (∀ n ∈ refs, n ∈ known) ∧ y = value := by
  constructor
  · intro hy
    rcases known_or_firstUnknown known refs with hall | ⟨n, hn⟩
    · exact ⟨hall, by rw [h.ok hall] at hy; exact (Except.ok.inj hy).symm⟩
    · rw [h.error n hn] at hy
      cases hy
  · rintro ⟨hall, rfl⟩
    exact h.ok hall

theorem eq_error_iff (h : Reads known unknown refs step value) {e : CodeError} :
    step = .error e ↔ ∃ n, e = unknown n ∧ FirstUnknown known refs n := by
  constructor
  · intro he
    rcases known_or_firstUnknown known refs with hall | ⟨n, hn⟩
    · rw [h.ok hall] at he
      cases he
    · rw [h.error n hn] at he
      exact ⟨n, (Except.error.inj he).symm, hn⟩
  · rintro ⟨n, rfl, hn⟩
    exact h.error n hn

theorem pure (value : β) : Reads known unknown [] (.ok value) value where
  ok _ := rfl
  error n := by
    rintro ⟨front, back, he, -⟩
    simp at he

theorem one (n : Nat) :
    Reads known unknown [n] (lookUp known unknown n) (known.idxOf n) where
  ok hall := if_pos (hall n (List.mem_singleton.2 rfl))
  error m := by
    rintro ⟨front, back, he, -, hm⟩
    obtain rfl : n = m := by cases front <;> simp_all
    exact if_neg hm

theorem bind {k : β → Except CodeError γ} {out : γ} (h : Reads known unknown refs step value)
    (h' : Reads known unknown refs' (k value) out) :
    Reads known unknown (refs ++ refs') (step >>= k) out where
  ok hall := by
    rw [h.ok fun n hn => hall n (List.mem_append_left _ hn)]
    exact h'.ok fun n hn => hall n (List.mem_append_right _ hn)
  error n := by
    rintro ⟨front, back, he, hf, hn⟩
    -- The first that is not known is among the first references, or all those are known.
    rcases List.append_eq_append_iff.1 he with ⟨as, rfl, rfl⟩ | ⟨bs, rfl, hb⟩
    · rw [h.ok fun m hm => hf m (List.mem_append_left _ hm)]
      exact h'.error n ⟨as, back, rfl, fun m hm => hf m (List.mem_append_right _ hm), hn⟩
    · cases bs with
      | nil =>
        rw [h.ok fun m hm => hf m (by simpa using hm)]
        exact h'.error n ⟨[], back, hb.symm, by simp, hn⟩
      | cons m bs =>
        obtain ⟨rfl, -⟩ := List.cons.inj hb
        rw [h.error n ⟨front, bs, rfl, hf, hn⟩]
        rfl

theorem map {k : β → γ} (h : Reads known unknown refs step value) :
    Reads known unknown refs (step >>= fun x => .ok (k x)) (k value) :=
  List.append_nil refs ▸ h.bind (k := fun x => .ok (k x)) (Reads.pure (k value))

theorem traverse {α : Type} {refs : α → List Nat} {step : α → Except CodeError β}
    {value : α → β} {l : List α} (h : ∀ a, Reads known unknown (refs a) (step a) (value a)) :
    Reads known unknown (l.flatMap refs) (Interpose.traverse step l) (l.map value) := by
  induction l with
  | nil => exact Reads.pure []
  | cons a rest ih => exact (h a).bind ih.map

theorem mapTarget (i : Instruction) :
    Reads known unknown i.target?.toList (i.mapTarget (lookUp known unknown))
      (i.retarget known.idxOf) := by
  obtain ⟨op, o⟩ := i
  cases o with
  | target t => exact (Reads.one t).map
  | _ => exact Reads.pure _

theorem mapAnchor? (n? : Option Nat) :
    Reads known unknown n?.toList (Interpose.mapAnchor? (lookUp known unknown) n?)
      (n?.map known.idxOf) := by
  cases n? with
  | none => exact Reads.pure none
  | some n => exact (Reads.one n).map

theorem mapAnchors (h : Handler) :
    Reads known unknown h.anchors (h.mapAnchors (lookUp known unknown))
      (h.reanchor known.idxOf) :=
  (Reads.one h.tryStart).bind
    ((Reads.mapAnchor? h.tryEnd?).bind
      ((Reads.one h.handlerStart).bind (Reads.mapAnchor? h.handlerEnd?).map))

/-- Both directions of the codec: the references of the code, then those of the handlers. -/
theorem relabel {code : List Instruction} {handlers : List Handler}
    {k : List Instruction → List Handler → γ} :
    Reads known unknown (references code handlers)
      (do
        let code ← Interpose.traverse (·.mapTarget (lookUp known unknown)) code
        let handlers ← Interpose.traverse (·.mapAnchors (lookUp known unknown)) handlers
        return k code handlers)
      (k (code.map (·.retarget known.idxOf)) (handlers.map (·.reanchor known.idxOf))) :=
  (Reads.traverse Reads.mapTarget).bind (Reads.traverse Reads.mapAnchors).map

end Reads

/-- A body with ids in list order. -/
def Body.ofParts (locals : Array Slot) (code : List Instruction) (handlers : List Handler)
    (maxStack : UInt16) : Body :=
  { ofList code with locals := locals, handlers := handlers, maxStack := maxStack }

/-! ## Repeated labels -/

/-- `n` is the first label that occurred before. -/
def FirstRepeated (labels : List Nat) (n : Nat) : Prop :=
  ∃ front back, labels = front ++ n :: back ∧ front.Nodup ∧ n ∈ front

namespace LabelledBody

theorem firstRepeated?_seen {seen labels : List Nat} {n : Nat} :
    firstRepeated? seen labels = some n ↔
      ∃ front back, labels = front ++ n :: back ∧ front.Nodup ∧ (∀ m ∈ front, m ∉ seen) ∧
        (n ∈ front ∨ n ∈ seen) := by
  induction labels generalizing seen with
  | nil => simp [firstRepeated?]
  | cons x rest ih =>
    rw [firstRepeated?]
    by_cases hx : x ∈ seen
    · rw [if_pos (by simpa using hx), Option.some.injEq]
      constructor
      · rintro rfl
        exact ⟨[], rest, rfl, List.nodup_nil, by simp, .inr hx⟩
      · rintro ⟨_ | ⟨y, front⟩, back, he, -, hf, -⟩
        · exact (List.cons.inj he).1
        · obtain ⟨rfl, -⟩ := List.cons.inj he
          exact absurd hx (hf x List.mem_cons_self)
    · rw [if_neg (by simpa using hx), ih]
      constructor
      · rintro ⟨front, back, rfl, hnd, hf, hn⟩
        refine ⟨x :: front, back, rfl, ?_, ?_, ?_⟩
        · exact List.nodup_cons.2 ⟨fun hm => hf x hm List.mem_cons_self, hnd⟩
        · intro m hm
          rcases List.mem_cons.1 hm with rfl | hm
          · exact hx
          · exact fun hs => hf m hm (List.mem_cons_of_mem _ hs)
        · simpa [or_assoc, or_comm, or_left_comm] using hn
      · rintro ⟨_ | ⟨y, front⟩, back, he, hnd, hf, hn⟩
        · obtain ⟨rfl, -⟩ := List.cons.inj he
          exact absurd hn (by simp [hx])
        · obtain ⟨rfl, rfl⟩ := List.cons.inj he
          obtain ⟨hy, hnd⟩ := List.nodup_cons.1 hnd
          refine ⟨front, back, rfl, hnd, ?_, ?_⟩
          · intro m hm hs
            rcases List.mem_cons.1 hs with rfl | hs
            · exact hy hm
            · exact hf m (List.mem_cons_of_mem _ hm) hs
          · simpa [or_assoc, or_comm, or_left_comm] using hn

theorem firstRepeated?_eq_some_iff {labels : List Nat} {n : Nat} :
    firstRepeated? [] labels = some n ↔ FirstRepeated labels n := by
  rw [firstRepeated?_seen]
  simp [FirstRepeated]

theorem not_nodup_of_firstRepeated {labels : List Nat} {n : Nat} (h : FirstRepeated labels n) :
    ¬ labels.Nodup := by
  intro hnd
  have hnone := (firstRepeated?_eq_none_iff [] labels).2 ⟨hnd, by simp⟩
  rw [firstRepeated?_eq_some_iff.2 h] at hnone
  cases hnone

/-! ## Reading -/

variable {l : LabelledBody} {b : Body}

/-- The body with ids in list order and, for each reference, the index of the instruction
that bears the label. -/
def indexed (l : LabelledBody) : Body :=
  Body.ofParts l.locals ((l.code.map (·.2)).map (·.retarget l.labels.idxOf))
    (l.handlers.map (·.reanchor l.labels.idxOf)) l.maxStack

theorem reads_decode (h : l.labels.Nodup) :
    Reads l.labels .undefinedLabel l.references l.decode l.indexed := by
  have hnone : firstRepeated? [] l.labels = none :=
    (firstRepeated?_eq_none_iff [] l.labels).2 ⟨h, by simp⟩
  unfold decode
  rw [hnone, resolve_eq]
  exact Reads.relabel

theorem decode_of_firstRepeated {n : Nat} (h : FirstRepeated l.labels n) :
    l.decode = .error (.duplicateLabel n) := by
  unfold decode
  rw [firstRepeated?_eq_some_iff.2 h]

theorem nodup_or_firstRepeated (labels : List Nat) :
    labels.Nodup ∨ ∃ n, FirstRepeated labels n := by
  cases h : firstRepeated? [] labels with
  | none => exact .inl ((firstRepeated?_eq_none_iff [] labels).1 h).1
  | some n => exact .inr ⟨n, firstRepeated?_eq_some_iff.1 h⟩

theorem decode_eq_ok_iff :
    l.decode = .ok b ↔ l.labels.Nodup ∧ (∀ n ∈ l.references, n ∈ l.labels) ∧ b = l.indexed := by
  rcases nodup_or_firstRepeated l.labels with hnd | ⟨n, hn⟩
  · rw [(reads_decode hnd).eq_ok_iff]
    simp only [hnd, true_and]
  · rw [decode_of_firstRepeated hn]
    simp [not_nodup_of_firstRepeated hn]

theorem decode_eq_error_iff {e : CodeError} :
    l.decode = .error e ↔
      (∃ n, e = .duplicateLabel n ∧ FirstRepeated l.labels n) ∨
        ∃ n, e = .undefinedLabel n ∧ l.labels.Nodup ∧ FirstUnknown l.labels l.references n := by
  rcases nodup_or_firstRepeated l.labels with hnd | ⟨n, hn⟩
  · rw [(reads_decode hnd).eq_error_iff]
    constructor
    · rintro ⟨n, rfl, hn⟩
      exact .inr ⟨n, rfl, hnd, hn⟩
    · rintro (⟨n, -, hn⟩ | ⟨n, rfl, -, hn⟩)
      · exact absurd hnd (not_nodup_of_firstRepeated hn)
      · exact ⟨n, rfl, hn⟩
  · constructor
    · intro he
      rw [decode_of_firstRepeated hn] at he
      cases he
      exact .inl ⟨n, rfl, hn⟩
    · rintro (⟨m, rfl, hm⟩ | ⟨m, -, hnd, -⟩)
      · exact decode_of_firstRepeated hm
      · exact absurd hnd (not_nodup_of_firstRepeated hn)

/-! ## Renaming of labels -/

/-- The labelled body under other labels. -/
def rename (f : Nat → Nat) (l : LabelledBody) : LabelledBody where
  locals := l.locals
  code := l.code.map fun p => (f p.1, p.2.retarget f)
  handlers := l.handlers.map (·.reanchor f)
  maxStack := l.maxStack

theorem labels_rename (f : Nat → Nat) : (l.rename f).labels = l.labels.map f := by
  simp [labels, rename]

theorem references_rename (f : Nat → Nat) :
    (l.rename f).references = l.references.map f := by
  rw [LabelledBody.references, LabelledBody.references, ← Interpose.references_rename]
  simp [rename, Function.comp_def]

/-- A renaming that keeps the numbers it renames apart keeps their places. -/
theorem idxOf_map {f : Nat → Nat} {known : List Nat} {n : Nat}
    (hf : ∀ m ∈ known, f m = f n → m = n) : (known.map f).idxOf (f n) = known.idxOf n := by
  induction known with
  | nil => rfl
  | cons m rest ih =>
    have ih := ih fun x hx => hf x (List.mem_cons_of_mem _ hx)
    by_cases hm : m = n
    · simp [hm]
    · have hfm : f m ≠ f n := fun he => hm (hf m List.mem_cons_self he)
      rw [List.map_cons, List.idxOf_cons_ne _ hfm, List.idxOf_cons_ne _ hm, ih]

/-- A renaming that keeps apart what labels and references name leaves the body as it was. -/
theorem decode_rename {f : Nat → Nat}
    (hf : ∀ m ∈ l.labels, ∀ n, n ∈ l.labels ∨ n ∈ l.references → f m = f n → m = n) :
    (l.rename f).decode = .ok b ↔ l.decode = .ok b := by
  have hnodup : (l.labels.map f).Nodup ↔ l.labels.Nodup :=
    ⟨fun h => h.of_map f, fun h => h.map_on fun m hm n hn he => hf m hm n (.inl hn) he⟩
  have hknown : (∀ n ∈ l.references.map f, n ∈ l.labels.map f) ↔
      ∀ n ∈ l.references, n ∈ l.labels := by
    rw [List.forall_mem_map]
    refine forall₂_congr fun n hn => ⟨fun h => ?_, List.mem_map_of_mem⟩
    obtain ⟨m, hm, he⟩ := List.mem_map.1 h
    exact hf m hm n (.inr hn) he ▸ hm
  have hplace : ∀ n ∈ l.references, (l.labels.map f).idxOf (f n) = l.labels.idxOf n :=
    fun n hn => idxOf_map fun m hm he => hf m hm n (.inr hn) he
  have hindexed : (l.rename f).indexed = l.indexed := by
    have hcode : ((l.rename f).code.map (·.2)).map (·.retarget (l.labels.map f).idxOf) =
        (l.code.map (·.2)).map (·.retarget l.labels.idxOf) := by
      rw [← map_retarget_congr hplace]
      simp [rename, Function.comp_def, Instruction.retarget_retarget]
    have hhandlers : (l.rename f).handlers.map (·.reanchor (l.labels.map f).idxOf) =
        l.handlers.map (·.reanchor l.labels.idxOf) := by
      rw [← map_reanchor_congr hplace]
      simp [rename, Function.comp_def, Handler.reanchor_reanchor]
    simp only [indexed, labels_rename, hcode, hhandlers]
    rfl
  rw [decode_eq_ok_iff, decode_eq_ok_iff, labels_rename, references_rename, hnodup, hknown,
    hindexed]

end LabelledBody

/-! ## Writing -/

namespace Body

variable {b : Body} {l : LabelledBody}

/-- The labelled body with positions for ids. -/
def positioned (b : Body) : LabelledBody where
  locals := b.locals
  code := number 0 (b.code.map (·.retarget b.ids.idxOf))
  handlers := b.handlers.map (·.reanchor b.ids.idxOf)
  maxStack := b.maxStack

theorem encode_eq_ok_iff :
    b.encode = .ok l ↔ (∀ id ∈ b.references, id ∈ b.ids) ∧ l = b.positioned := by
  have h : Reads b.ids .unknownInstruction b.references b.encode b.positioned := by
    unfold encode
    rw [anchor_eq]
    exact Reads.relabel
  exact h.eq_ok_iff

theorem idxOf_lt_size {id : InstructionId} (h : id ∈ b.ids) : b.ids.idxOf id < b.size := by
  have hlt := List.idxOf_lt_length_iff.2 h
  rwa [ids, List.length_map] at hlt

section

variable {locals : Array Slot} {code : List Instruction} {handlers : List Handler}
  {maxStack : UInt16}

theorem ids_ofParts : (ofParts locals code handlers maxStack).ids = List.range code.length := by
  rw [ids, ofParts, ofList, map_fst_number, List.range_eq_range']

theorem code_ofParts : (ofParts locals code handlers maxStack).code = code :=
  map_snd_number 0 code

theorem size_ofParts : (ofParts locals code handlers maxStack).size = code.length :=
  length_number 0 code

theorem idxOf_range {n pos : Nat} (h : pos < n) : (List.range n).idxOf pos = pos := by
  have hlt : pos < (List.range n).length := by simpa using h
  have := List.nodup_range.idxOf_getElem pos hlt
  rwa [List.getElem_range] at this

/-- A position is its own place. -/
theorem map_retarget_range {n : Nat} (h : ∀ m ∈ Interpose.references code handlers, m < n) :
    code.map (·.retarget (List.range n).idxOf) = code := by
  have hid := map_retarget_congr (f := (List.range n).idxOf) (g := id)
    fun m hm => idxOf_range (h m hm)
  simpa [Instruction.retarget_id] using hid

theorem map_reanchor_range {n : Nat} (h : ∀ m ∈ Interpose.references code handlers, m < n) :
    handlers.map (·.reanchor (List.range n).idxOf) = handlers := by
  have hid := map_reanchor_congr (f := (List.range n).idxOf) (g := id)
    fun m hm => idxOf_range (h m hm)
  simpa [Handler.reanchor_id] using hid

theorem decode_number (h : ∀ m ∈ Interpose.references code handlers, m < code.length) :
    LabelledBody.decode ⟨locals, number 0 code, handlers, maxStack⟩ =
      .ok (ofParts locals code handlers maxStack) := by
  have hlabels : LabelledBody.labels ⟨locals, number 0 code, handlers, maxStack⟩ =
      List.range code.length := by
    rw [LabelledBody.labels, map_fst_number, List.range_eq_range']
  rw [LabelledBody.decode_eq_ok_iff, hlabels, LabelledBody.references, map_snd_number]
  refine ⟨List.nodup_range, fun n hn => List.mem_range.2 (h n hn), ?_⟩
  rw [LabelledBody.indexed, hlabels, map_snd_number, map_retarget_range h, map_reanchor_range h]

theorem encode_ofParts (h : ∀ m ∈ Interpose.references code handlers, m < code.length) :
    (ofParts locals code handlers maxStack).encode =
      .ok ⟨locals, number 0 code, handlers, maxStack⟩ := by
  rw [encode_eq_ok_iff, references, positioned, ids_ofParts, code_ofParts, map_retarget_range h]
  refine ⟨fun n hn => List.mem_range.2 (h n hn), ?_⟩
  exact congrArg (LabelledBody.mk locals (number 0 code) · maxStack) (map_reanchor_range h).symm

end

/-- A body that was read is closed. -/
theorem closed_of_decode (h : l.decode = .ok b) : b.Closed := by
  obtain ⟨-, hin, rfl⟩ := LabelledBody.decode_eq_ok_iff.1 h
  refine closed_iff.2 fun id hid => ?_
  rw [LabelledBody.indexed, references, code_ofParts] at hid
  rw [LabelledBody.indexed, ids_ofParts, List.length_map, List.mem_range]
  obtain ⟨n, hn, rfl⟩ := List.mem_map.1 (references_rename ▸ hid)
  have hlt := List.idxOf_lt_length_iff.2 (hin n hn)
  rwa [LabelledBody.labels, List.length_map, ← List.length_map (f := Prod.snd)] at hlt

/-- The body with positions for ids. -/
def renumbered (b : Body) : Body :=
  ofParts b.locals (b.code.map (·.retarget b.ids.idxOf)) (b.handlers.map (·.reanchor b.ids.idxOf))
    b.maxStack

theorem renumbered_ofParts {locals : Array Slot} {code : List Instruction}
    {handlers : List Handler} {maxStack : UInt16}
    (h : ∀ m ∈ Interpose.references code handlers, m < code.length) :
    (ofParts locals code handlers maxStack).renumbered = ofParts locals code handlers maxStack := by
  rw [renumbered, ids_ofParts, code_ofParts, map_retarget_range h]
  exact congrArg (ofParts locals code · maxStack) (map_reanchor_range h)

/-- A body that was read has positions for ids already. -/
theorem renumbered_of_decode (h : l.decode = .ok b) : b.renumbered = b := by
  have hclosed := closed_iff.1 (closed_of_decode h)
  obtain ⟨-, -, rfl⟩ := LabelledBody.decode_eq_ok_iff.1 h
  refine renumbered_ofParts fun n hn => ?_
  have hmem := hclosed n (by rwa [references, LabelledBody.indexed, code_ofParts])
  rwa [LabelledBody.indexed, ids_ofParts, List.mem_range] at hmem

theorem length_map_retarget (b : Body) (f : Nat → Nat) :
    (b.code.map (·.retarget f)).length = b.size := by
  simp [Body.code, size]

theorem lt_of_mem_references_positioned (h : ∀ id ∈ b.references, id ∈ b.ids) :
    ∀ n ∈ Interpose.references (b.code.map (·.retarget b.ids.idxOf))
      (b.handlers.map (·.reanchor b.ids.idxOf)), n < b.size := by
  rw [references_rename, List.forall_mem_map]
  exact fun n hn => idxOf_lt_size (h n hn)

/-- What was written reads back with positions for ids. -/
theorem decode_positioned (h : ∀ id ∈ b.references, id ∈ b.ids) :
    b.positioned.decode = .ok b.renumbered :=
  decode_number fun n hn =>
    (b.length_map_retarget _).symm ▸ lt_of_mem_references_positioned h n hn

/-- Positions for ids are written the same. -/
theorem encode_renumbered (h : ∀ id ∈ b.references, id ∈ b.ids) :
    b.renumbered.encode = .ok b.positioned :=
  encode_ofParts fun n hn =>
    (b.length_map_retarget _).symm ▸ lt_of_mem_references_positioned h n hn

/-- What was written reads back with positions for ids, and is then written the same. -/
theorem decode_of_encode (h : b.encode = .ok l) :
    ∃ b', l.decode = .ok b' ∧ b'.ids = List.range b.size ∧
      b'.code = b.code.map (·.retarget b.ids.idxOf) ∧
      b'.handlers = b.handlers.map (·.reanchor b.ids.idxOf) ∧
      b'.locals = b.locals ∧ b'.maxStack = b.maxStack ∧ b'.encode = .ok l := by
  obtain ⟨hin, rfl⟩ := encode_eq_ok_iff.1 h
  exact ⟨b.renumbered, decode_positioned hin, b.length_map_retarget _ ▸ ids_ofParts, code_ofParts,
    rfl, rfl, rfl, encode_renumbered hin⟩

end Body

/-- Reading fails at the first repeated label, else at the first undefined reference; it
gives ids in list order, whatever the labels; writing fails at a reference outside the body
alone, and reading what was written replaces each id by its position, once for all. -/
theorem body_codec :
    (∀ l : LabelledBody,
      ((∃ b, l.decode = .ok b) ↔ l.labels.Nodup ∧ ∀ n ∈ l.references, n ∈ l.labels) ∧
      (∀ e, l.decode = .error e ↔
        (∃ n, e = .duplicateLabel n ∧ FirstRepeated l.labels n) ∨
          ∃ n, e = .undefinedLabel n ∧ l.labels.Nodup ∧ FirstUnknown l.labels l.references n) ∧
      (∀ b, l.decode = .ok b → b.ids = List.range l.code.length ∧
        b.code = (l.code.map (·.2)).map (·.retarget l.labels.idxOf) ∧
        b.handlers = l.handlers.map (·.reanchor l.labels.idxOf) ∧
        b.locals = l.locals ∧ b.maxStack = l.maxStack) ∧
      ∀ f : Nat → Nat,
        (∀ m ∈ l.labels, ∀ n, n ∈ l.labels ∨ n ∈ l.references → f m = f n → m = n) →
          ∀ b, (l.rename f).decode = .ok b ↔ l.decode = .ok b) ∧
    ∀ b : Body,
      ((∃ l, b.encode = .ok l) ↔ ∀ id ∈ b.references, id ∈ b.ids) ∧
      ∀ l, b.encode = .ok l → ∃ b', l.decode = .ok b' ∧ b'.ids = List.range b.size ∧
        b'.code = b.code.map (·.retarget b.ids.idxOf) ∧
        b'.handlers = b.handlers.map (·.reanchor b.ids.idxOf) ∧
        b'.locals = b.locals ∧ b'.maxStack = b.maxStack ∧ b'.encode = .ok l := by
  refine ⟨fun l => ⟨?_, fun e => LabelledBody.decode_eq_error_iff, ?_,
    fun f hf b => LabelledBody.decode_rename hf⟩, fun b => ⟨?_, fun l => Body.decode_of_encode⟩⟩
  · simp only [LabelledBody.decode_eq_ok_iff, exists_and_left, exists_eq, and_true]
  · intro b h
    obtain ⟨-, -, rfl⟩ := LabelledBody.decode_eq_ok_iff.1 h
    refine ⟨?_, Body.code_ofParts, rfl, rfl, rfl⟩
    rw [LabelledBody.indexed, Body.ids_ofParts, List.length_map, List.length_map]
  · simp only [Body.encode_eq_ok_iff, exists_and_left, exists_eq, and_true]

/-- A body read under scattered labels. -/
def scattered : LabelledBody where
  code := [(30, ⟨.br, .target 20⟩), (10, .plain .pop), (20, .plain .ret)]
  handlers := [⟨.catchAll, 30, some 10, 10, none⟩]

/-- A body in which an instruction was put before the first. -/
def preceded : Body where
  stream := [(1, .plain .nop), (0, ⟨.br, .target 1⟩)]
  handlers := [⟨.catchAll, 0, none, 1, some 0⟩]
  ids_perm := .swap 0 1 []

theorem scattered_codec :
    (∃ b, (scattered.rename (· + 7)).decode = .ok b ∧ scattered.decode = .ok b ∧
      b.ids = [0, 1, 2] ∧ b.code = [⟨.br, .target 2⟩, .plain .pop, .plain .ret]) ∧
    ∃ l b, preceded.encode = .ok l ∧ l.decode = .ok b ∧ b.ids = [0, 1] ∧
      b.code = [.plain .nop, ⟨.br, .target 0⟩] ∧
      b.handlers = [⟨.catchAll, 1, none, 0, some 1⟩] := by
  constructor
  · obtain ⟨hok, -, hread, hrename⟩ := body_codec.1 scattered
    obtain ⟨b, hb⟩ := hok.2 (by decide)
    obtain ⟨hids, hcode, -⟩ := hread b hb
    exact ⟨b, (hrename (· + 7) (fun _ _ _ _ => Nat.add_right_cancel) b).2 hb, hb, hids, hcode⟩
  · obtain ⟨hok, hread⟩ := body_codec.2 preceded
    obtain ⟨l, hl⟩ := hok.2 (by decide)
    obtain ⟨b, hb, hids, hcode, hhandlers, -⟩ := hread l hl
    exact ⟨l, b, hl, hb, hids, hcode, hhandlers⟩

end Interpose
