import Interpose.Proofs.Weave.Chain
/-!
# Edits and the order of execution

Edits of a chain whose links run both ways, read off the list of its ids. A call that inserts
instructions puts their ids, the next ones in order, between two neighbours of that list, and
a call that replaces one leaves the list alone. Nothing else that is stored under an id
changes. A run of insertions fails at its first or not at all.

Results:
* `holds_of_threaded`: the converse of `Holds.threaded`. The links alone tell the list that a
  chain holds.
* `insertBefore_of_holds` and its like: the calls on the entries.
* `sublist_edits`: no sequence of edits drops an id or changes the order of two.
* `edits_as_on_list`: the calls on the ids.
-/
namespace Interpose

/-! ## What the links tell -/

section

variable {next : InstructionId → Option InstructionId} {cursor : Option InstructionId}
  {l : List InstructionId} {id : InstructionId}

theorem Visits.head?_eq (h : Visits next cursor l) : l.head? = cursor := by
  cases h <;> rfl

theorem Body.after?_eq_none (h : id ∉ l) : Body.after? id l = none :=
  Option.eq_none_iff_forall_ne_some.2 fun _ hy => h (Body.mem_of_after? hy)

/-- What is visited next is the neighbour in the list. -/
theorem Visits.after?_eq (h : Visits next cursor l) (hn : l.Nodup) (hid : id ∈ l) :
    next id = Body.after? id l := by
  induction h with
  | stop => cases hid
  | @step x rest hrest ih =>
    obtain ⟨hx, hnodup⟩ := List.nodup_cons.1 hn
    rcases List.mem_cons.1 hid with rfl | hid
    · rw [← List.nil_append (id :: rest)] at hn ⊢
      rw [Body.after?_middle hn, hrest.head?_eq]
    · have hne : x ≠ id := fun he => hx (he ▸ hid)
      rw [ih hnodup hid]
      cases rest with
      | nil => cases hid
      | cons y rest => rw [Body.after?_cons_cons, if_neg hne]

end

namespace Chain

variable {c c' c'' : Chain} {i x : Instruction} {id anchor : InstructionId}
  {code code' : List Instruction} {front back : List (InstructionId × Instruction)}

theorem not_mem_of_nodup (hn : ((front ++ (id, x) :: back).map (·.1)).Nodup) :
    id ∉ front.map (·.1) := by
  rw [List.map_append, List.map_cons] at hn
  exact fun hm => (List.nodup_append.1 hn).2.2 id hm id List.mem_cons_self rfl

/-- What a walk finds is stored under the id. -/
theorem get?_of_mem_walk {n : Nat} {cursor : Option InstructionId}
    {p : InstructionId × Instruction} (h : p ∈ c.walk n cursor) : c.get? p.1 = some p.2 := by
  induction n generalizing cursor with
  | zero => cases cursor <;> cases h
  | succ n ih =>
    cases cursor with
    | none => cases h
    | some id =>
      unfold walk at h
      split at h
      · next link hl =>
        rcases List.mem_cons.1 h with rfl | h
        · rw [get?, hl]
          rfl
        · exact ih h
      · cases h

theorem links_eq_none (h : ¬ id < c.size) : c.links[id]? = none :=
  Array.getElem?_eq_none (Nat.not_lt.1 h)

/-- A chain whose links run both ways holds the entries that a walk finds. -/
theorem holds_of_threaded (h : c.Threaded) : c.Holds c.stream := by
  have hlength : c.size = c.stream.length := by
    have hperm := h.everyId.length_eq
    rw [List.length_range, ids, List.length_map] at hperm
    exact hperm.symm
  have hnodup : c.ids.Nodup := h.everyId.nodup_iff.2 List.nodup_range
  have hmem (id : InstructionId) : id ∈ c.ids ↔ id < c.size := by
    rw [h.everyId.mem_iff, List.mem_range]
  refine ⟨hlength, hlength ▸ h.everyId, fun id => ?_, fun id => ?_, fun id => ?_,
    h.forwards.head?_eq.symm, h.ends.symm⟩
  · by_cases hid : id ∈ c.ids
    · obtain ⟨p, hp, rfl⟩ := List.mem_map.1 hid
      obtain ⟨front, back, hs⟩ := List.append_of_mem hp
      rw [ids, hs] at hnodup
      rw [get?_of_mem_walk hp, hs, Holds.lookup_splice (not_mem_of_nodup hnodup), if_pos rfl]
    · have hnone : c.stream.lookup id = none := List.lookup_eq_none_iff.2 fun p hp =>
        bne_iff_ne.2 fun he => hid (he ▸ List.mem_map_of_mem hp)
      rw [get?, links_eq_none fun hlt => hid ((hmem id).2 hlt), hnone]
      rfl
  · by_cases hid : id ∈ c.ids
    · exact h.forwards.after?_eq hnodup hid
    · rw [next?, links_eq_none fun hlt => hid ((hmem id).2 hlt)]
      exact (Body.after?_eq_none hid).symm
  · by_cases hid : id ∈ c.ids
    · exact h.backwards.after?_eq (List.nodup_reverse.2 hnodup) (List.mem_reverse.2 hid)
    · rw [prev?, links_eq_none fun hlt => hid ((hmem id).2 hlt)]
      exact (Body.after?_eq_none fun hm => hid (List.mem_reverse.1 hm)).symm

/-! ## Entries put in -/

/-- The second chain has these instructions more, under the next ids in order. -/
structure Inserted (c : Chain) (code : List Instruction) (c' : Chain) : Prop where
  size : c'.size = c.size + code.length
  get? : ∀ id : Nat, c'.get? id = if id < c.size then c.get? id else code[id - c.size]?
  locals : c'.locals = c.locals
  handlers : c'.handlers = c.handlers

theorem get?_eq_none (h : ¬ id < c.size) : c.get? id = none := by
  rw [get?, links_eq_none h]
  rfl

theorem inserted_nil (c : Chain) : Inserted c [] c := by
  refine ⟨rfl, fun id => ?_, rfl, rfl⟩
  split
  · rfl
  · next hid => exact get?_eq_none hid

theorem inserted_splice (c : Chain) (prev? next? : Option InstructionId) (i : Instruction) :
    Inserted c [i] (c.splice prev? next? i) := by
  refine ⟨size_splice .., fun id => ?_, locals_splice .., handlers_splice ..⟩
  rw [get?_splice]
  by_cases hid : id < c.size
  · rw [if_pos hid, if_neg (Nat.ne_of_lt hid)]
  · rw [if_neg hid]
    by_cases he : id = c.size
    · rw [if_pos he, he, Nat.sub_self]
      rfl
    · rw [if_neg he, get?_eq_none hid, List.getElem?_eq_none]
      show 1 ≤ id - c.size
      omega

theorem Inserted.append (h : Inserted c code c') (h' : Inserted c' code' c'') :
    Inserted c (code ++ code') c'' := by
  refine ⟨?_, fun id => ?_, h'.locals.trans h.locals, h'.handlers.trans h.handlers⟩
  · rw [h'.size, h.size, List.length_append, Nat.add_assoc]
  · rw [h'.get?, h.get?, h.size]
    by_cases hid : id < c.size
    · rw [if_pos (Nat.lt_add_right _ hid), if_pos hid, if_pos hid]
    · by_cases hlt : id < c.size + code.length
      · rw [if_pos hlt, if_neg hid, if_neg hid, List.getElem?_append_left (by omega)]
      · rw [if_neg hlt, if_neg hid, List.getElem?_append_right (by omega), Nat.sub_sub]

/-! ## Calls on the entries -/

theorem insertBefore_of_holds (h : c.Holds (front ++ (anchor, x) :: back)) (i : Instruction) :
    ∃ c', insertBefore anchor i c = .ok c.size c' ∧
      c'.Holds (front ++ (c.size, i) :: (anchor, x) :: back) ∧ Inserted c [i] c' := by
  unfold insertBefore
  rw [h.link]
  exact ⟨_, rfl, h.splice i, inserted_splice ..⟩

theorem insertAfter_of_holds (h : c.Holds (front ++ (anchor, x) :: back)) (i : Instruction) :
    ∃ c', insertAfter anchor i c = .ok c.size c' ∧
      c'.Holds (front ++ (anchor, x) :: (c.size, i) :: back) ∧ Inserted c [i] c' := by
  have hsplit : c.Holds ((front ++ [(anchor, x)]) ++ back) := by simpa using h
  have hs := hsplit.splice i
  unfold insertAfter
  rw [h.link]
  refine ⟨_, rfl, ?_, inserted_splice ..⟩
  simpa using hs

/-- After its first instruction a run is inserted behind what was inserted last. -/
theorem insertAllAfter_of_holds (h : c.Holds (front ++ (anchor, x) :: back))
    (code : List Instruction) :
    ∃ c', insertAllAfter anchor code c =
        .ok (if code.isEmpty then anchor else c.size + code.length - 1) c' ∧
      c'.Holds (front ++ (anchor, x) :: (Body.number c.size code ++ back)) ∧
      Inserted c code c' := by
  induction code generalizing c front anchor x with
  | nil => exact ⟨c, rfl, h, inserted_nil c⟩
  | cons i rest ih =>
    obtain ⟨c₁, hc₁, h₁, hi₁⟩ := insertAfter_of_holds h i
    have hsplit : c₁.Holds ((front ++ [(anchor, x)]) ++ (c.size, i) :: back) := by simpa using h₁
    obtain ⟨c', hc', h', hi'⟩ := ih hsplit
    have hsize : c₁.size = c.size + 1 := hi₁.size
    refine ⟨c', ?_, ?_, hi₁.append hi'⟩
    · show (insertAfter anchor i >>= (insertAllAfter · rest)) c = _
      rw [bind_of_ok hc₁, hc', hsize]
      cases rest with
      | nil => rfl
      | cons y rest =>
        have hlast : c.size + 1 + (rest.length + 1) - 1 = c.size + (rest.length + 1 + 1) - 1 := by
          omega
        simp only [List.isEmpty_cons, Bool.false_eq_true, if_false, List.length_cons, hlast]
    · rw [hsize] at h'
      simpa [Body.number] using h'

end Chain

/-! ## What every edit keeps -/

namespace Body

variable {b b' b'' : Body} {anchor id : InstructionId} {i : Instruction}

/-- The second body has the ids of the first in the same order, and may have more. -/
structure Grows (b b' : Body) : Prop where
  ids : b.ids.Sublist b'.ids
  maxStack : b'.maxStack = b.maxStack

theorem grows_refl (b : Body) : Grows b b := ⟨.refl _, rfl⟩

theorem Grows.trans (h : b.Grows b') (h' : b'.Grows b'') : b.Grows b'' :=
  ⟨h.ids.trans h'.ids, h'.maxStack.trans h.maxStack⟩

theorem grows_pushBack (b : Body) (i : Instruction) : Grows b (b.pushBack i).2 :=
  ⟨ids_pushBack b i ▸ List.sublist_append_left .., rfl⟩

theorem grows_insertBefore (h : b.insertBefore anchor i = .ok (id, b')) : Grows b b' := by
  obtain ⟨-, front, back, hids, hids'⟩ := ids_insertBefore h
  refine ⟨?_, ?_⟩
  · rw [hids, hids']
    exact (List.Sublist.refl front).append (List.sublist_cons_self ..)
  · unfold insertBefore at h
    split at h <;> cases h
    rfl

theorem grows_insertAfter (h : b.insertAfter anchor i = .ok (id, b')) : Grows b b' := by
  obtain ⟨-, front, back, hids, hids'⟩ := ids_insertAfter h
  refine ⟨?_, ?_⟩
  · rw [hids, hids']
    exact (List.Sublist.refl front).append ((List.sublist_cons_self ..).cons_cons anchor)
  · unfold insertAfter at h
    split at h <;> cases h
    rfl

theorem grows_insertAllAfter {code : List Instruction}
    (h : b.insertAllAfter anchor code = .ok (id, b')) : Grows b b' := by
  induction code generalizing b anchor with
  | nil =>
    cases h
    exact grows_refl _
  | cons i rest ih =>
    obtain ⟨⟨id₁, b₁⟩, h₁, h⟩ := bind_eq_ok.1 h
    exact (grows_insertAfter h₁).trans (ih h)

theorem grows_replace {old : Instruction}
    (h : b.replace id i = .ok (old, b')) : Grows b b' := by
  unfold replace at h
  split at h <;> cases h
  refine ⟨?_, rfl⟩
  show b.ids.Sublist ((putAt id i b.stream).map (·.1))
  rw [map_fst_putAt]
  exact .refl _

theorem grows_addSlot {s : Slot} {slot : SlotId} (h : b.addSlot s = .ok (slot, b')) :
    Grows b b' := by
  unfold addSlot at h
  dsimp only at h
  split at h <;> cases h
  exact ⟨.refl _, rfl⟩

theorem grows_appendAll (b : Body) (code : List Instruction) : Grows b (b.appendAll code) := by
  induction code generalizing b with
  | nil => exact grows_refl b
  | cons i rest ih => exact (grows_pushBack b i).trans (ih _)

theorem grows_leaveAtReturn {exit : InstructionId} {result? : Option SlotId}
    (h : b.leaveAtReturn exit result? id = .ok b') : Grows b b' := by
  unfold leaveAtReturn at h
  split at h
  · obtain ⟨⟨old, b₁⟩, h₁, h⟩ := bind_eq_ok.1 h
    cases h
    exact grows_replace h₁
  · obtain ⟨⟨old, b₁⟩, h₁, h⟩ := bind_eq_ok.1 h
    obtain ⟨⟨id', b₂⟩, h₂, h⟩ := bind_eq_ok.1 h
    cases h
    exact (grows_replace h₁).trans (grows_insertAfter h₂)

theorem grows_leaveAtReturns {exit : InstructionId} {result? : Option SlotId}
    {ids : List InstructionId} (h : b.leaveAtReturns exit result? ids = .ok b') : Grows b b' := by
  induction ids generalizing b with
  | nil =>
    cases h
    exact grows_refl _
  | cons id rest ih =>
    obtain ⟨b₁, h₁, h⟩ := bind_eq_ok.1 h
    exact (grows_leaveAtReturn h₁).trans (ih h)

theorem grows_declareResult {returnType : Ty} {result? : Option SlotId}
    (h : Guard.declareResult b returnType = .ok (result?, b')) : Grows b b' := by
  unfold Guard.declareResult at h
  split at h
  · cases h
    exact grows_refl b
  · obtain ⟨⟨slot, b₁⟩, h₁, h⟩ := bind_eq_ok.1 h
    cases h
    exact grows_addSlot h₁

theorem grows_wrap {g : Guard} {start : InstructionId} {returnType : Ty} {region : GuardedRegion}
    (h : g.wrap b start returnType = .ok (region, b')) : Grows b b' := by
  obtain ⟨⟨result?, b₁⟩, h₁, h⟩ := bind_eq_ok.1 h
  obtain ⟨b₂, h₂, h⟩ := bind_eq_ok.1 h
  cases h
  have hgrows := ((grows_declareResult h₁).trans (grows_appendAll ..)).trans
    (grows_leaveAtReturns h₂)
  exact ⟨hgrows.ids, hgrows.maxStack⟩

/-- A call that fails changes nothing. -/
theorem grows_after {α : Type} {r : Except CodeError (α × Body)}
    (h : ∀ a b', r = .ok (a, b') → Grows b b') : Grows b (b.after r) := by
  cases r with
  | error e => exact grows_refl b
  | ok p => exact h p.1 p.2 rfl

theorem grows_edit (b : Body) (e : Edit) : Grows b (b.edit e) := by
  cases e with
  | pushBack i => exact grows_pushBack b i
  | insertBefore anchor i => exact grows_after fun _ _ => grows_insertBefore
  | insertAfter anchor i => exact grows_after fun _ _ => grows_insertAfter
  | insertAllAfter anchor code => exact grows_after fun _ _ => grows_insertAllAfter
  | replace id i => exact grows_after fun _ _ => grows_replace
  | addVariable ty => exact grows_after fun _ _ => grows_addSlot
  | addSynthetic ty name => exact grows_after fun _ _ => grows_addSlot
  | wrap g start returnType => exact grows_after fun _ _ => grows_wrap

theorem grows_edits (b : Body) (edits : List Edit) : Grows b (edits.foldl edit b) := by
  induction edits generalizing b with
  | nil => exact grows_refl b
  | cons e rest ih => exact (grows_edit b e).trans (ih _)

end Body

/-! ## Calls on the ids -/

namespace Chain

variable {c : Chain} {b : Body} {i : Instruction} {id anchor : InstructionId}
  {code : List Instruction} {front back : List InstructionId}

/-- A call ends with `id`, with these instructions more and the ids in this order. -/
def Puts (c : Chain) (code : List Instruction) (ids : List InstructionId) (id : InstructionId)
    (r : EStateM.Result CodeError Chain InstructionId) : Prop :=
  ∃ c', r = .ok id c' ∧ c'.Threaded ∧ c'.ids = ids ∧ Inserted c code c'

/-- What the calls at an id do. The ids are those before it and those behind it. -/
structure EditsAt (c : Chain) (front : List InstructionId) (anchor : InstructionId)
    (back : List InstructionId) : Prop where
  insertBefore : ∀ i, c.Puts [i] (front ++ c.size :: anchor :: back) c.size
    (insertBefore anchor i c)
  insertAfter : ∀ i, c.Puts [i] (front ++ anchor :: c.size :: back) c.size
    (insertAfter anchor i c)
  insertAllAfter : ∀ code, c.Puts code
    (front ++ anchor :: (List.range' c.size code.length ++ back))
    (if code.isEmpty then anchor else c.size + code.length - 1) (insertAllAfter anchor code c)
  replace : ∀ i, ∃ old c', c.get? anchor = some old ∧ replace anchor i c = .ok old c' ∧
    c'.Threaded ∧ c'.ids = c.ids ∧
    (∀ id, c'.get? id = if id = anchor then some i else c.get? id) ∧
    c'.locals = c.locals ∧ c'.handlers = c.handlers

/-- The calls at an id all fail, and leave the chain as it is. -/
structure Rejects (c : Chain) (anchor : InstructionId) : Prop where
  insertBefore : ∀ i, insertBefore anchor i c = .error (.unknownInstruction anchor) c
  insertAfter : ∀ i, insertAfter anchor i c = .error (.unknownInstruction anchor) c
  insertAllAfter : ∀ i rest,
    insertAllAfter anchor (i :: rest) c = .error (.unknownInstruction anchor) c
  replace : ∀ i, replace anchor i c = .error (.unknownInstruction anchor) c

theorem Holds.ids_eq {stream : List (InstructionId × Instruction)} (h : c.Holds stream) :
    c.ids = stream.map (·.1) := by
  rw [Chain.ids, h.stream_eq]

theorem Holds.puts {stream : List (InstructionId × Instruction)} {c' : Chain}
    {ids : List InstructionId} {r : EStateM.Result CodeError Chain InstructionId}
    (h : c'.Holds stream) (hids : stream.map (·.1) = ids) (hr : r = .ok id c')
    (hi : Inserted c code c') : c.Puts code ids id r :=
  ⟨c', hr, h.threaded, h.ids_eq.trans hids, hi⟩

theorem editsAt (h : c.Threaded) (hids : c.ids = front ++ anchor :: back) :
    c.EditsAt front anchor back := by
  have hc := holds_of_threaded h
  obtain ⟨front', rest, hs, rfl, hrest⟩ := List.map_eq_append_iff.1 hids
  obtain ⟨p, back', rfl, rfl, rfl⟩ := List.map_eq_cons_iff.1 hrest
  rw [hs] at hc
  refine ⟨fun i => ?_, fun i => ?_, fun code => ?_, fun i => ?_⟩
  · obtain ⟨c', hr, h', hi⟩ := insertBefore_of_holds hc i
    exact h'.puts (by simp) hr hi
  · obtain ⟨c', hr, h', hi⟩ := insertAfter_of_holds hc i
    exact h'.puts (by simp) hr hi
  · obtain ⟨c', hr, h', hi⟩ := insertAllAfter_of_holds hc code
    exact h'.puts (by simp [Body.map_fst_number]) hr hi
  · obtain ⟨c', hr, h', hp⟩ := replace_of_holds front' back' p.1 hc i
    have hfront : p.1 ∉ front'.map (·.1) := not_mem_of_nodup hc.nodup
    refine ⟨p.2, c', ?_, hr, h'.threaded, ?_, fun id => ?_, hp.locals, hp.handlers⟩
    · rw [hc.get?, Holds.lookup_splice hfront, if_pos rfl]
    · rw [h'.ids_eq, hc.ids_eq]
      simp
    · rw [h'.get?, hc.get?, Holds.lookup_splice hfront, Holds.lookup_splice hfront]
      split <;> rfl

theorem rejects (h : c.Threaded) (hid : anchor ∉ c.ids) : c.Rejects anchor := by
  have hlink : c.links[anchor]? = none := (holds_of_threaded h).link_none hid
  have hafter (i : Instruction) :
      insertAfter anchor i c = .error (.unknownInstruction anchor) c := by
    unfold insertAfter
    rw [hlink]
  refine ⟨fun i => ?_, hafter, fun i rest => bind_of_error (hafter i), fun i => ?_⟩
  · unfold insertBefore
    rw [hlink]
  · unfold replace
    rw [hlink]

/-- A chain whose links run both ways stores a body. -/
theorem exists_stores (h : c.Threaded) : ∃ b, c.Stores b :=
  have hc := holds_of_threaded h
  ⟨{ hc.toBody with locals := c.locals, handlers := c.handlers }, hc, rfl, rfl⟩

/-- Edits drop no id and change the order of no two, and the next id is a fresh one. -/
theorem sublist_edits (h : c.Threaded) (edits : List Edit) :
    (edits.foldl edit c).Threaded ∧ c.ids.Sublist (edits.foldl edit c).ids ∧
      (edits.foldl edit c).size ∉ (edits.foldl edit c).ids := by
  obtain ⟨b, hb⟩ := exists_stores h
  have hs := (stores_edits hb edits).holds
  have hsublist := (Body.grows_edits b edits).ids
  refine ⟨hs.threaded, ?_, fun hm => ?_⟩
  · rw [hs.ids_eq, hb.holds.ids_eq]
    exact hsublist
  · rw [hs.ids_eq, hs.mem_iff] at hm
    exact Nat.lt_irrefl _ hm

/-- The calls that edit a chain act on its ids as on a list: each new instruction gets the
next id, which goes where the call says, and nothing else changes. At an id that the chain
does not have they fail, and change nothing. In any sequence of edits no id is used twice,
dropped or moved past another, and the greatest stack of the stored body stays. -/
theorem edits_as_on_list (h : c.Threaded) :
    (∀ i, c.Puts [i] (c.ids ++ [c.size]) c.size (pushBack i c)) ∧
    (∀ front anchor back, c.ids = front ++ anchor :: back → c.EditsAt front anchor back) ∧
    (∀ anchor, anchor ∉ c.ids → c.Rejects anchor) ∧
    (∀ edits : List Edit, (edits.foldl edit c).Threaded ∧
      c.ids.Sublist (edits.foldl edit c).ids ∧
      (edits.foldl edit c).size ∉ (edits.foldl edit c).ids) ∧
    ∀ b, c.Stores b → ∀ edits : List Edit,
      (edits.foldl edit c).Stores (edits.foldl Body.edit b) ∧
        (edits.foldl Body.edit b).maxStack = b.maxStack := by
  refine ⟨fun i => ?_, fun _ _ _ => editsAt h, fun _ => rejects h, sublist_edits h,
    fun b hb edits => ⟨stores_edits hb edits, (Body.grows_edits b edits).maxStack⟩⟩
  have hc := holds_of_threaded h
  exact (holds_append hc i).puts (by simp [Chain.ids]) rfl (inserted_splice ..)

/-- Two instructions and a return. -/
def short : Chain := ofList [.ldcI4 7, .plain .pop, .plain .ret]

theorem short_edits_as_on_list :
    short.Threaded ∧
      (∃ c', insertAllAfter 1 [.ldcI4 8, .plain .pop] short = .ok 4 c' ∧
        c'.ids = [0, 1, 3, 4, 2] ∧ c'.get? 3 = some (.ldcI4 8) ∧ c'.get? 2 = some (.plain .ret)) ∧
      insertAfter 3 (.plain .nop) short = .error (.unknownInstruction 3) short := by
  have hthreaded : short.Threaded := (Made.ofList _).stores.holds.threaded
  obtain ⟨-, hat, hrejects, -⟩ := edits_as_on_list hthreaded
  obtain ⟨c', hr, -, hids, hi⟩ := (hat [0] 1 [2] (by decide)).insertAllAfter
    [.ldcI4 8, .plain .pop]
  refine ⟨hthreaded, ⟨c', hr, hids, ?_, ?_⟩, (hrejects 3 (by decide)).insertAfter (.plain .nop)⟩
  · rw [hi.get?]
    rfl
  · rw [hi.get?]
    rfl

end Chain

end Interpose
