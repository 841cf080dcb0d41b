import Interpose.Proofs.Body.Anchor
import Interpose.Weave.Instrument
/-!
# The edits of weaving, as lists

What the edits that weave a body do to its stream: runs of instructions go behind an
anchor or to the end, and every return is retired.

Results:
* `stream_insertAllAfter`, `stream_appendAll`: where runs go.
* `stream_leaveAtReturns`: the stream with its returns retired.
-/
namespace Interpose

section

variable {b b' : Body} {anchor id exit : InstructionId} {i : Instruction}
  {front back : List (InstructionId × Instruction)}

/-- The ids of the returns of a stream. -/
def returnIds (stream : List (InstructionId × Instruction)) : List InstructionId :=
  (stream.filter fun p => p.2.opcode == .ret).map (·.1)

/-- What stands in the place of a return: its value is stored, if there is one, and control
leaves for `exit`. A leave that stands beside a store has the id `fresh`. -/
def leaving (exit : InstructionId) (result? : Option SlotId) (fresh id : InstructionId) :
    List (InstructionId × Instruction) :=
  match result? with
  | none => [(id, .leave exit)]
  | some slot => [(id, .stloc slot), (fresh, .leave exit)]

/-- What stands in the place of an instruction. -/
def retired (exit : InstructionId) (result? : Option SlotId) (fresh id : InstructionId)
    (i : Instruction) : List (InstructionId × Instruction) :=
  if i.opcode = .ret then leaving exit result? fresh id else [(id, i)]

/-- Number of fresh ids that stand in the place of an instruction. -/
def growth (result? : Option SlotId) (i : Instruction) : Nat :=
  if i.opcode = .ret then (if result?.isSome then 1 else 0) else 0

/-- The stream with its returns retired. Leaves beside a store have ids from `fresh` on. -/
def retire (exit : InstructionId) (result? : Option SlotId) :
    Nat → List (InstructionId × Instruction) → List (InstructionId × Instruction)
  | _, [] => []
  | fresh, (id, i) :: rest =>
    retired exit result? fresh id i ++ retire exit result? (fresh + growth result? i) rest

theorem length_retired (exit : InstructionId) (result? : Option SlotId)
    (fresh id : InstructionId) (i : Instruction) :
    (retired exit result? fresh id i).length = 1 + growth result? i := by
  unfold retired growth leaving
  split
  · cases result? <;> rfl
  · rfl

namespace Body

/-- Inserting before the first instruction puts the new one at the front. -/
theorem stream_insertBefore_first {first : InstructionId} (hf : b.first? = some first)
    {x : Instruction} (h : b.insertBefore first x = .ok (id, b')) :
    id = b.size ∧ b'.stream = (b.size, x) :: b.stream ∧ b'.locals = b.locals ∧
      b'.handlers = b.handlers := by
  unfold insertBefore at h
  split at h
  · cases h
    refine ⟨rfl, ?_, rfl, rfl⟩
    show placeBefore first (b.size, x) b.stream = _
    cases hs : b.stream with
    | nil => rfl
    | cons p rest =>
      rw [first?, ids, hs] at hf
      obtain rfl : p.1 = first := Option.some.inj hf
      rw [placeBefore, if_pos rfl]
  · cases h

theorem placeAfter_append (x : InstructionId × Instruction)
    (h : ∀ p ∈ front, p.1 ≠ anchor) :
    placeAfter anchor x (front ++ (anchor, i) :: back) = front ++ (anchor, i) :: x :: back := by
  induction front with
  | nil => rw [List.nil_append, placeAfter, if_pos rfl, List.nil_append]
  | cons p rest ih =>
    rw [List.cons_append, placeAfter, if_neg (h p List.mem_cons_self),
      ih fun q hq => h q (List.mem_cons_of_mem _ hq), List.cons_append]

theorem putAt_append {old : Instruction} (h : ∀ p ∈ front ++ back, p.1 ≠ id) :
    putAt id i (front ++ (id, old) :: back) = front ++ (id, i) :: back := by
  have keep (l : List (InstructionId × Instruction)) (hl : ∀ p ∈ l, p.1 ≠ id) :
      (l.map fun p => if p.1 = id then (p.1, i) else p) = l := by
    have he : l.map (fun p => if p.1 = id then (p.1, i) else p) = l.map fun p => p :=
      List.map_congr_left fun p hp => if_neg (hl p hp)
    rw [he, List.map_id']
  rw [putAt, List.map_append, List.map_cons, if_pos rfl,
    keep front fun p hp => h p (List.mem_append_left _ hp),
    keep back fun p hp => h p (List.mem_append_right _ hp)]

/-- No other entry of a stream bears the id of this one. -/
theorem ne_of_stream (h : b.stream = front ++ (id, i) :: back) :
    ∀ p ∈ front ++ back, p.1 ≠ id := by
  have hn := b.nodup_ids
  rw [ids, h, List.map_append, List.map_cons, List.nodup_append, List.nodup_cons] at hn
  obtain ⟨-, ⟨hback, -⟩, hfront⟩ := hn
  intro p hp he
  rcases List.mem_append.1 hp with hp | hp
  · exact hfront p.1 (List.mem_map_of_mem hp) id List.mem_cons_self he
  · exact hback (List.mem_map.2 ⟨p, hp, he⟩)

/-- The parts of a body that an edit of its stream leaves alone. -/
structure SameParts (b b' : Body) : Prop where
  locals : b'.locals = b.locals
  handlers : b'.handlers = b.handlers

theorem SameParts.trans {b₁ b₂ b₃ : Body} (h : SameParts b₁ b₂) (h' : SameParts b₂ b₃) :
    SameParts b₁ b₃ :=
  ⟨h'.locals.trans h.locals, h'.handlers.trans h.handlers⟩

theorem stream_insertAfter (hs : b.stream = front ++ (anchor, i) :: back) {x : Instruction}
    (h : b.insertAfter anchor x = .ok (id, b')) :
    id = b.size ∧ b'.stream = front ++ (anchor, i) :: (b.size, x) :: back ∧ SameParts b b' := by
  unfold insertAfter at h
  split at h
  · cases h
    refine ⟨rfl, ?_, rfl, rfl⟩
    show placeAfter anchor (b.size, x) b.stream = _
    rw [hs]
    exact placeAfter_append _ fun p hp => ne_of_stream hs p (List.mem_append_left _ hp)
  · cases h

theorem stream_replace {old : Instruction} (hs : b.stream = front ++ (id, old) :: back)
    {x o : Instruction} (h : b.replace id x = .ok (o, b')) :
    b'.stream = front ++ (id, x) :: back ∧ SameParts b b' := by
  unfold replace at h
  split at h
  · cases h
  · cases h
    refine ⟨?_, rfl, rfl⟩
    show putAt id x b.stream = _
    rw [hs]
    exact putAt_append (ne_of_stream hs)

/-- A run of insertions puts its instructions behind the anchor, in order. -/
theorem stream_insertAllAfter {code : List Instruction}
    (hs : b.stream = front ++ (anchor, i) :: back)
    (h : b.insertAllAfter anchor code = .ok (id, b')) :
    b'.stream = front ++ (anchor, i) :: number b.size code ++ back ∧ SameParts b b' := by
  induction code generalizing b front anchor i with
  | nil =>
    cases h
    exact ⟨by rw [hs]; simp [number], rfl, rfl⟩
  | cons x rest ih =>
    obtain ⟨⟨id₁, b₁⟩, h₁, h⟩ := bind_eq_ok.1 h
    obtain ⟨rfl, hs₁, hp₁⟩ := stream_insertAfter hs h₁
    have hsize : b₁.size = b.size + 1 := by
      rw [size, hs₁, size, hs]
      simp only [List.length_append, List.length_cons]
      omega
    have hs₁' : b₁.stream = (front ++ [(anchor, i)]) ++ (b.size, x) :: back := by
      rw [hs₁]
      simp
    obtain ⟨hs', hp⟩ := ih hs₁' h
    refine ⟨?_, hp₁.trans hp⟩
    rw [hs', hsize]
    simp [number]

theorem stream_appendAll (code : List Instruction) :
    (b.appendAll code).stream = b.stream ++ number b.size code ∧
      SameParts b (b.appendAll code) := by
  induction code generalizing b with
  | nil => exact ⟨by simp [appendAll, number], rfl, rfl⟩
  | cons x rest ih =>
    rw [appendAll]
    obtain ⟨hs, hlocals, hhandlers⟩ := ih (b := (b.pushBack x).2)
    refine ⟨?_, hlocals, hhandlers⟩
    rw [hs, size_pushBack]
    simp [pushBack, withFresh, number]

theorem stream_leaveAtReturn {result? : Option SlotId}
    (hs : b.stream = front ++ (id, i) :: back)
    (h : b.leaveAtReturn exit result? id = .ok b') :
    b'.stream = front ++ leaving exit result? b.size id ++ back ∧ SameParts b b' := by
  unfold leaveAtReturn at h
  split at h
  · obtain ⟨⟨o, b₁⟩, h₁, h⟩ := bind_eq_ok.1 h
    obtain ⟨hs₁, hp₁⟩ := stream_replace hs h₁
    cases h
    exact ⟨by rw [hs₁]; simp [leaving], hp₁⟩
  · obtain ⟨⟨o, b₁⟩, h₁, h⟩ := bind_eq_ok.1 h
    obtain ⟨hs₁, hp₁⟩ := stream_replace hs h₁
    obtain ⟨⟨id', b₂⟩, h₂, h⟩ := bind_eq_ok.1 h
    obtain ⟨-, hs₂, hp₂⟩ := stream_insertAfter hs₁ h₂
    have hsize : b₁.size = b.size := by
      rw [size, hs₁, size, hs]
      simp
    cases h
    exact ⟨by rw [hs₂, hsize]; simp [leaving], hp₁.trans hp₂⟩

/-- Making every return of a part of the stream leave for the exit. -/
theorem stream_leaveAtReturns {result? : Option SlotId}
    {middle : List (InstructionId × Instruction)} (hs : b.stream = front ++ middle ++ back)
    (h : b.leaveAtReturns exit result? (returnIds middle) = .ok b') :
    b'.stream = front ++ retire exit result? b.size middle ++ back ∧ SameParts b b' := by
  induction middle generalizing b front with
  | nil =>
    cases h
    exact ⟨hs, rfl, rfl⟩
  | cons p rest ih =>
    obtain ⟨id, i⟩ := p
    have hs₀ : b.stream = front ++ (id, i) :: (rest ++ back) := by rw [hs]; simp
    -- a return is edited, and any other instruction stays
    obtain ⟨b₁, hs₁, hp₁, h⟩ : ∃ b₁ : Body,
        b₁.stream = front ++ retired exit result? b.size id i ++ (rest ++ back) ∧
          SameParts b b₁ ∧ b₁.leaveAtReturns exit result? (returnIds rest) = .ok b' := by
      by_cases hr : i.opcode = .ret
      · have hids : returnIds ((id, i) :: rest) = id :: returnIds rest := by
          simp [returnIds, hr]
        rw [hids] at h
        obtain ⟨b₁, h₁, h⟩ := bind_eq_ok.1 h
        obtain ⟨hs₁, hp₁⟩ := stream_leaveAtReturn hs₀ h₁
        refine ⟨b₁, ?_, hp₁, h⟩
        rw [retired, if_pos hr]
        exact hs₁
      · have hids : returnIds ((id, i) :: rest) = returnIds rest := by
          simp [returnIds, hr]
        rw [hids] at h
        refine ⟨b, ?_, ⟨rfl, rfl⟩, h⟩
        rw [retired, if_neg hr, hs₀]
        simp
    have hsize : b₁.size = b.size + growth result? i := by
      rw [size, hs₁, size, hs₀]
      simp only [List.length_append, List.length_cons, length_retired]
      omega
    obtain ⟨hs', hp⟩ := ih (hs₁.trans (List.append_assoc _ _ _).symm) h
    refine ⟨?_, hp₁.trans hp⟩
    rw [hs', hsize, retire]
    simp only [List.append_assoc]

end Body

end

end Interpose
