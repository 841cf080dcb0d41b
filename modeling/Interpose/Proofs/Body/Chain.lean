import Mathlib.Data.List.Nodup
import Interpose.Body.Chain
import Interpose.Proofs.Body.Anchor
/-!
# The links of a chain

The entries of a body, in the order of execution, are what a chain holds if its links run
through them: forwards from the first, backwards from the last. Putting an instruction
between two neighbours puts it between them in that list (`Holds.splice`); every call that
edits a chain comes down to that, or to a new instruction under an old id.

Results:
* `after?_splice`: the neighbours in a list with one more element.
* `Holds.splice`, `Holds.replace`: the list that a chain holds after an edit.
* `Holds.threaded`: the links of such a chain run both ways through all ids.
-/
namespace Interpose

/-! ## Neighbours in a list -/

namespace Body

variable {a b x : InstructionId} {l front back : List InstructionId}

theorem after?_cons_cons (z y : InstructionId) (rest : List InstructionId) :
    after? a (z :: y :: rest) = if z = a then some y else after? a (y :: rest) := rfl

/-- The neighbours in a list with `x` put in. -/
theorem after?_splice (hn : (front ++ x :: back).Nodup) :
    after? a (front ++ x :: back) = if a = x then back.head? else
      if front.getLast? = some a then some x else after? a (front ++ back) := by
  induction front with
  | nil =>
    cases back with
    | nil => by_cases ha : a = x <;> simp [after?, ha]
    | cons y rest => by_cases ha : a = x <;> simp [after?_cons_cons, ha, eq_comm]
  | cons z front ih =>
    have hz : z ∉ front ++ x :: back := (List.nodup_cons.1 hn).1
    have ih := ih (List.nodup_cons.1 hn).2
    cases front with
    | nil =>
      have hzx : z ≠ x := fun he => hz (he ▸ List.mem_cons_self)
      rw [List.nil_append] at ih
      show (if z = a then some x else after? a (x :: back)) = _
      by_cases hza : z = a
      · subst hza
        simp [hzx]
      · rw [if_neg hza, ih]
        cases back with
        | nil => simp [after?, hza]
        | cons y rest => simp [after?_cons_cons, hza]
    | cons w front =>
      have hza (he : z = a) : a ≠ x ∧ (w :: front).getLast? ≠ some a := by
        subst he
        exact ⟨fun he => hz (he ▸ by simp), fun hl => hz (List.mem_append_left _ (List.mem_of_getLast? hl))⟩
      show (if z = a then some w else after? a (w :: front ++ x :: back)) = _
      rw [ih, List.getLast?_cons_cons]
      show _ = if a = x then back.head? else if (w :: front).getLast? = some a then some x else
        if z = a then some w else after? a (w :: front ++ back)
      by_cases he : z = a
      · obtain ⟨hax, hl⟩ := hza he
        rw [if_pos he, if_neg hax, if_neg hl, if_pos he]
      · rw [if_neg he, if_neg he]

/-- What follows an element is the head of what stands behind it. -/
theorem after?_middle (hn : (front ++ a :: back).Nodup) :
    after? a (front ++ a :: back) = back.head? := by
  rw [after?_splice hn, if_pos rfl]

theorem mem_of_after? (h : after? a l = some b) : a ∈ l := by
  induction l with
  | nil => cases h
  | cons x rest ih =>
    cases rest with
    | nil => cases h
    | cons y rest =>
      rw [after?_cons_cons] at h
      split at h
      · next he => exact he ▸ List.mem_cons_self
      · exact List.mem_cons_of_mem _ (ih h)

/-- `b` follows `a` where the two stand side by side. -/
theorem after?_eq_some_iff (hn : l.Nodup) :
    after? a l = some b ↔ ∃ front back, l = front ++ a :: b :: back := by
  constructor
  · intro h
    obtain ⟨front, back, rfl⟩ := List.append_of_mem (mem_of_after? h)
    rw [after?_middle hn] at h
    obtain ⟨rest, rfl⟩ : ∃ rest, back = b :: rest := by
      cases back with
      | nil => cases h
      | cons y rest => exact ⟨rest, by rw [Option.some.inj h]⟩
    exact ⟨front, rest, rfl⟩
  · rintro ⟨front, back, rfl⟩
    rw [after?_middle hn]
    rfl

/-- What follows in a list goes before in the reverse. -/
theorem after?_reverse (hn : l.Nodup) : after? b l.reverse = some a ↔ after? a l = some b := by
  rw [after?_eq_some_iff hn, after?_eq_some_iff (List.nodup_reverse.2 hn)]
  constructor
  · rintro ⟨front, back, h⟩
    exact ⟨back.reverse, front.reverse, by rw [← List.reverse_reverse l, h]; simp⟩
  · rintro ⟨front, back, rfl⟩
    exact ⟨back.reverse, front.reverse, by simp⟩

theorem after?_getLast (hn : l.Nodup) (h : l.getLast? = some a) : after? a l = none := by
  obtain ⟨front, rfl⟩ := List.getLast?_eq_some_iff.1 h
  exact after?_middle hn

end Body

/-- Following `next` from a cursor visits these ids and then ends. -/
inductive Visits (next : InstructionId → Option InstructionId) :
    Option InstructionId → List InstructionId → Prop
  | stop : Visits next none []
  | step {id : InstructionId} {rest : List InstructionId} :
      Visits next (next id) rest → Visits next (some id) (id :: rest)

/-- A list whose neighbours `next` tells is visited from its head. -/
theorem visits_of_after? {next : InstructionId → Option InstructionId} {l : List InstructionId}
    (hn : l.Nodup) (h : ∀ id, next id = Body.after? id l) : Visits next l.head? l := by
  have visits (front rest : List InstructionId) (he : l = front ++ rest) :
      Visits next rest.head? rest := by
    induction rest generalizing front with
    | nil => exact .stop
    | cons id rest ih =>
      have hnext : next id = rest.head? := by
        rw [h, he, Body.after?_middle (he ▸ hn)]
      exact .step (hnext ▸ ih (front ++ [id]) (by simp [he]))
  exact visits [] l rfl

namespace Chain

variable {c : Chain} {prev? next? : Option InstructionId} {i x : Instruction}
  {id anchor : InstructionId}

/-! ## What a new entry changes -/

theorem get?_setNext (c : Chain) : (setNext id prev? c).get? anchor = c.get? anchor := by
  cases prev? with
  | none => rfl
  | some p =>
    simp only [get?, setNext, Array.getElem?_modify]
    split <;> simp [Function.comp_def]

theorem get?_setPrev (c : Chain) : (setPrev id next? c).get? anchor = c.get? anchor := by
  cases next? with
  | none => rfl
  | some n =>
    simp only [get?, setPrev, Array.getElem?_modify]
    split <;> simp [Function.comp_def]

theorem next?_setPrev (c : Chain) : (setPrev id next? c).next? anchor = c.next? anchor := by
  cases next? with
  | none => rfl
  | some n =>
    simp only [Chain.next?, setPrev, Array.getElem?_modify]
    split
    · rw [Option.bind_map]
      rfl
    · rfl

theorem prev?_setNext (c : Chain) : (setNext id prev? c).prev? anchor = c.prev? anchor := by
  cases prev? with
  | none => rfl
  | some p =>
    simp only [Chain.prev?, setNext, Array.getElem?_modify]
    split
    · rw [Option.bind_map]
      rfl
    · rfl

theorem next?_setNext (c : Chain) (hp : ∀ p ∈ prev?, p < c.size) :
    (setNext id prev? c).next? anchor = if prev? = some anchor then some id else c.next? anchor := by
  cases prev? with
  | none => simp [setNext, Chain.next?]
  | some p =>
    have hlt : p < c.links.size := hp p rfl
    simp only [Chain.next?, setNext, Array.getElem?_modify, Option.some.injEq]
    split
    · next he =>
      subst he
      rw [Array.getElem?_eq_getElem hlt]
      rfl
    · rfl

theorem prev?_setPrev (c : Chain) (hn : ∀ n ∈ next?, n < c.size) :
    (setPrev id next? c).prev? anchor = if next? = some anchor then some id else c.prev? anchor := by
  cases next? with
  | none => simp [setPrev, Chain.prev?]
  | some n =>
    have hlt : n < c.links.size := hn n rfl
    simp only [Chain.prev?, setPrev, Array.getElem?_modify, Option.some.injEq]
    split
    · next he =>
      subst he
      rw [Array.getElem?_eq_getElem hlt]
      rfl
    · rfl

theorem size_setNext (c : Chain) : (setNext id prev? c).size = c.size := by
  cases prev? <;> simp [setNext, size]

section

variable (c : Chain) (prev? next? : Option InstructionId) (i : Instruction)

theorem get?_splice (anchor : InstructionId) : (c.splice prev? next? i).get? anchor =
    if anchor = c.size then some i else c.get? anchor := by
  rw [splice, get?_setPrev, get?_setNext, get?, get?, Array.getElem?_push, size]
  split <;> rfl

theorem next?_splice (hp : ∀ p ∈ prev?, p < c.size) (anchor : InstructionId) :
    (c.splice prev? next? i).next? anchor =
      if anchor = c.size then next? else
        if prev? = some anchor then some c.size else c.next? anchor := by
  have hp' : ∀ p ∈ prev?, p < c.links.size + 1 := fun p h => Nat.lt_succ_of_lt (hp p h)
  rw [splice, next?_setPrev, next?_setNext _ (by simpa [size] using hp'), Chain.next?, Chain.next?,
    Array.getElem?_push, size]
  by_cases ha : anchor = c.links.size
  · have hne : prev? ≠ some anchor := fun he => absurd (hp anchor he) (by simp [ha, size])
    rw [if_neg hne, if_pos ha, if_pos ha]
    rfl
  · rw [if_neg ha, if_neg ha]

theorem prev?_splice (hn : ∀ n ∈ next?, n < c.size) (anchor : InstructionId) :
    (c.splice prev? next? i).prev? anchor =
      if anchor = c.size then prev? else
        if next? = some anchor then some c.size else c.prev? anchor := by
  have hn' : ∀ n ∈ next?, n < c.links.size + 1 := fun n h => Nat.lt_succ_of_lt (hn n h)
  rw [splice, prev?_setPrev _ (by rw [size_setNext]; simpa [size] using hn'), prev?_setNext,
    Chain.prev?, Chain.prev?, Array.getElem?_push, size]
  by_cases ha : anchor = c.links.size
  · have hne : next? ≠ some anchor := fun he => absurd (hn anchor he) (by simp [ha, size])
    rw [if_neg hne, if_pos ha, if_pos ha]
    rfl
  · rw [if_neg ha, if_neg ha]

theorem first?_splice :
    (c.splice prev? next? i).first? = if prev?.isNone then some c.size else c.first? := by
  cases prev? <;> cases next? <;> rfl

theorem last?_splice :
    (c.splice prev? next? i).last? = if next?.isNone then some c.size else c.last? := by
  cases prev? <;> cases next? <;> rfl

theorem locals_splice : (c.splice prev? next? i).locals = c.locals := by
  cases prev? <;> cases next? <;> rfl

theorem handlers_splice : (c.splice prev? next? i).handlers = c.handlers := by
  cases prev? <;> cases next? <;> rfl

end

/-! ## The list that a chain holds -/

/-- The links of a chain run through these entries, which bear the ids below its size. -/
structure Holds (c : Chain) (stream : List (InstructionId × Instruction)) : Prop where
  size : c.size = stream.length
  ids : (stream.map (·.1)).Perm (List.range stream.length)
  get? : ∀ id, c.get? id = stream.lookup id
  next? : ∀ id, c.next? id = Body.after? id (stream.map (·.1))
  prev? : ∀ id, c.prev? id = Body.after? id (stream.map (·.1)).reverse
  first? : c.first? = (stream.map (·.1)).head?
  last? : c.last? = (stream.map (·.1)).getLast?

theorem holds_empty : Holds {} [] where
  size := rfl
  ids := .refl _
  get? _ := rfl
  next? _ := rfl
  prev? _ := rfl
  first? := rfl
  last? := rfl

namespace Holds

variable {stream front back : List (InstructionId × Instruction)}

theorem nodup (h : c.Holds stream) : (stream.map (·.1)).Nodup :=
  h.ids.nodup_iff.2 List.nodup_range

theorem mem_iff (h : c.Holds stream) : id ∈ stream.map (·.1) ↔ id < c.size := by
  rw [h.ids.mem_iff, List.mem_range, h.size]

theorem lookup_splice (hid : id ∉ front.map (·.1)) (k : InstructionId) :
    (front ++ (id, i) :: back).lookup k =
      if k = id then some i else (front ++ back).lookup k := by
  have lookup_cons (x : InstructionId) (y : Instruction) (l : List (InstructionId × Instruction)) :
      ((x, y) :: l).lookup k = if k = x then some y else l.lookup k := by
    rw [List.lookup_cons]
    by_cases hk : k = x
    · rw [if_pos hk, beq_iff_eq.2 hk]
    · rw [if_neg hk, beq_false_of_ne hk]
  induction front with
  | nil => exact lookup_cons id i back
  | cons p front ih =>
    obtain ⟨hp, hfront⟩ : id ≠ p.1 ∧ id ∉ front.map (·.1) := by simpa using hid
    rw [List.cons_append, lookup_cons, List.cons_append, lookup_cons, ih hfront]
    by_cases hk : k = p.1
    · rw [if_pos hk, if_pos hk, if_neg fun he => hp (he.symm.trans hk)]
    · rw [if_neg hk, if_neg hk]

/-- A fresh instruction put between two neighbours stands between them. -/
theorem splice (h : c.Holds (front ++ back)) (i : Instruction) :
    (c.splice (front.map (·.1)).getLast? (back.map (·.1)).head? i).Holds
      (front ++ (c.size, i) :: back) := by
  have hids : ((front ++ (c.size, i) :: back).map (·.1)).Perm
      (c.size :: (front ++ back).map (·.1)) := by
    rw [List.map_append, List.map_cons, List.map_append]
    exact List.perm_middle
  have hfresh : c.size ∉ (front ++ back).map (·.1) := fun hm => Nat.lt_irrefl _ (h.mem_iff.1 hm)
  have hn : ((front ++ (c.size, i) :: back).map (·.1)).Nodup :=
    hids.nodup_iff.2 (List.nodup_cons.2 ⟨hfresh, h.nodup⟩)
  have hp : ∀ p ∈ (front.map (·.1)).getLast?, p < c.size := fun p hp =>
    h.mem_iff.1 (by rw [List.map_append]; exact List.mem_append_left _ (List.mem_of_getLast? hp))
  have hb : ∀ n ∈ (back.map (·.1)).head?, n < c.size := fun n hn =>
    h.mem_iff.1 (by rw [List.map_append]; exact List.mem_append_right _ (List.mem_of_head? hn))
  rw [List.map_append, List.map_cons] at hn
  refine ⟨?_, ?_, fun id => ?_, fun id => ?_, fun id => ?_, ?_, ?_⟩
  · rw [size_splice, h.size]
    simp
    omega
  · refine hids.trans ?_
    rw [List.length_append, List.length_cons, ← Nat.add_assoc, List.range_succ, h.size,
      ← List.length_append]
    exact (h.ids.cons _).trans (List.perm_append_singleton ..).symm
  · rw [List.map_append] at hfresh
    rw [get?_splice, h.get?, lookup_splice fun hm => hfresh (List.mem_append_left _ hm)]
  · rw [next?_splice _ _ _ _ hp, h.next?, List.map_append, List.map_append, List.map_cons,
      Body.after?_splice hn]
  · rw [prev?_splice _ _ _ _ hb, h.prev?, List.map_append, List.map_append, List.map_cons]
    have hr := List.nodup_reverse.2 hn
    have hreverse : (front.map (·.1) ++ c.size :: back.map (·.1)).reverse =
        (back.map (·.1)).reverse ++ c.size :: (front.map (·.1)).reverse := by simp
    rw [hreverse] at hr ⊢
    rw [Body.after?_splice hr, List.reverse_append, List.head?_reverse, List.getLast?_reverse]
  · rw [first?_splice, h.first?]
    cases front <;> simp
  · rw [last?_splice, h.last?]
    cases back with
    | nil => simp
    | cons p rest => simp [List.getLast?_append, List.getLast?_cons_cons]

/-- The entry of an id and its links. -/
theorem link (h : c.Holds (front ++ (id, x) :: back)) :
    c.links[id]? = some ⟨x, (front.map (·.1)).getLast?, (back.map (·.1)).head?⟩ := by
  have hn := h.nodup
  rw [List.map_append, List.map_cons] at hn
  have hr := List.nodup_reverse.2 hn
  have hreverse : (front.map (·.1) ++ id :: back.map (·.1)).reverse =
      (back.map (·.1)).reverse ++ id :: (front.map (·.1)).reverse := by simp
  rw [hreverse] at hr
  have hfront : id ∉ front.map (·.1) := fun hm =>
    (List.nodup_append.1 hn).2.2 id hm id List.mem_cons_self rfl
  have hget : c.get? id = some x := by rw [h.get?, lookup_splice hfront, if_pos rfl]
  have hnext : c.next? id = (back.map (·.1)).head? := by
    rw [h.next?, List.map_append, List.map_cons, Body.after?_middle hn]
  have hprev : c.prev? id = (front.map (·.1)).getLast? := by
    rw [h.prev?, List.map_append, List.map_cons, hreverse, Body.after?_middle hr,
      List.head?_reverse]
  obtain ⟨⟨instruction, prev, next⟩, hl, rfl⟩ := Option.map_eq_some_iff.1 hget
  rw [Chain.next?, hl] at hnext
  rw [Chain.prev?, hl] at hprev
  rw [hl, ← hnext, ← hprev]
  rfl

theorem link_none (h : c.Holds stream) (hid : id ∉ stream.map (·.1)) : c.links[id]? = none := by
  rw [h.mem_iff] at hid
  exact Array.getElem?_eq_none (Nat.not_lt.1 hid)

/-- A new instruction under an old id stands where the old one stood. -/
theorem replace (h : c.Holds (front ++ (id, x) :: back)) (i : Instruction) :
    Holds { c with links := c.links.modify id ({ · with instruction := i }) }
      (front ++ (id, i) :: back) := by
  have hids : (front ++ (id, i) :: back).map (·.1) = (front ++ (id, x) :: back).map (·.1) := by
    simp
  have hlength : (front ++ (id, i) :: back).length = (front ++ (id, x) :: back).length := by
    simp
  have hlink := h.link
  have hfront : id ∉ front.map (·.1) := fun hm => by
    have hn := h.nodup
    rw [List.map_append, List.map_cons] at hn
    exact (List.nodup_append.1 hn).2.2 id hm id List.mem_cons_self rfl
  refine ⟨?_, hids ▸ hlength ▸ h.ids, fun k => ?_, fun k => ?_, fun k => ?_, hids ▸ h.first?,
    hids ▸ h.last?⟩
  · rw [hlength, ← h.size]
    exact Array.size_modify
  · rw [Chain.get?, Array.getElem?_modify, lookup_splice hfront]
    split
    · next he =>
      subst he
      rw [hlink, if_pos rfl]
      rfl
    · next he =>
      rw [if_neg (Ne.symm he)]
      have hk := h.get? k
      rw [lookup_splice hfront, if_neg (Ne.symm he)] at hk
      exact hk
  · rw [hids, ← h.next?, Chain.next?, Array.getElem?_modify]
    split
    · rw [Option.bind_map]
      rfl
    · rfl
  · rw [hids, ← h.prev?, Chain.prev?, Array.getElem?_modify]
    split
    · rw [Option.bind_map]
      rfl
    · rfl

/-- Walking through a chain gives the entries it holds. -/
theorem stream_eq (h : c.Holds stream) : c.stream = stream := by
  have walks (n : Nat) (front back : List (InstructionId × Instruction))
      (he : stream = front ++ back) (hn : back.length ≤ n) :
      c.walk n (back.map (·.1)).head? = back := by
    induction back generalizing n front with
    | nil => cases n <;> rfl
    | cons p rest ih =>
      obtain ⟨k, rfl⟩ : ∃ k, n = k + 1 := ⟨n - 1, by simp at hn; omega⟩
      have hlink := (he ▸ h : c.Holds (front ++ (p.1, p.2) :: rest)).link
      rw [List.map_cons, List.head?_cons, walk, hlink]
      dsimp only
      rw [ih k (front ++ [p]) (by simp [he]) (by simpa using hn)]
  rw [Chain.stream, h.first?]
  exact walks c.size [] stream rfl (Nat.le_of_eq h.size.symm)

/-- The body with these entries. -/
def toBody (h : c.Holds stream) : Body where
  stream := stream
  ids_perm := h.ids

end Holds

/-! ## The links run both ways -/

/-- The links of a chain run through every id once, forwards and backwards, and the positions
along them number the ids. -/
structure Threaded (c : Chain) : Prop where
  everyId : c.ids.Perm (List.range c.size)
  forwards : Visits c.next? c.first? c.ids
  ends : c.ids.getLast? = c.last?
  backwards : Visits c.prev? c.last? c.ids.reverse
  adjacent : ∀ a b, c.next? a = some b ↔ c.prev? b = some a
  first : ∀ a, c.first? = some a → c.prev? a = none
  last : ∀ a, c.last? = some a → c.next? a = none
  position : ∀ id, id < c.size ↔ ∃ pos, c.position? id = some pos
  place : ∀ pos, pos < c.size ↔ ∃ id, c.position? id = some pos
  apart : ∀ a b pos, c.position? a = some pos → c.position? b = some pos → a = b

theorem Holds.threaded {stream : List (InstructionId × Instruction)} (h : c.Holds stream) :
    c.Threaded := by
  have hids : c.ids = stream.map (·.1) := by rw [Chain.ids, h.stream_eq]
  have hposition (id : InstructionId) (pos : Nat) :
      c.position? id = some pos ↔ c.ids[pos]? = some id := by
    rw [Chain.position?, hids]
    exact h.toBody.position?_eq_some_iff
  have hlength : c.ids.length = c.size := by rw [hids, List.length_map, h.size]
  constructor
  · rw [hids, h.size]
    exact h.ids
  · rw [hids, h.first?]
    exact visits_of_after? h.nodup h.next?
  · rw [hids, h.last?]
  · rw [hids, h.last?, ← List.head?_reverse]
    exact visits_of_after? (List.nodup_reverse.2 h.nodup) h.prev?
  · intro a b
    rw [h.next?, h.prev?, Body.after?_reverse h.nodup]
  · intro a ha
    rw [h.first?] at ha
    rw [h.prev?]
    exact Body.after?_getLast (List.nodup_reverse.2 h.nodup) (by rw [List.getLast?_reverse, ha])
  · intro a ha
    rw [h.last?] at ha
    rw [h.next?]
    exact Body.after?_getLast h.nodup ha
  · intro id
    simp only [hposition]
    rw [← h.mem_iff, ← hids, List.mem_iff_getElem?]
  · intro pos
    simp only [hposition]
    rw [← hlength]
    exact ⟨fun hlt => ⟨_, List.getElem?_eq_getElem hlt⟩,
      fun ⟨_, hid⟩ => (List.getElem?_eq_some_iff.1 hid).1⟩
  · intro a b pos ha hb
    rw [hposition] at ha hb
    exact Option.some.inj (ha.symm.trans hb)

end Chain

end Interpose
