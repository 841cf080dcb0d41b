import Interpose.Member
/-!
# The import table

A table is filled by importing members, one by one, and cut back to a size that it had. No
member is in it twice, so the id of a member and the member of an id determine each other. An
id that was given keeps its member until the table is cut back to it or below; a member that
was cut off gets a new id when it is imported again.

Results:
* `Extends.get?`: what an id refers to in a table, it refers to in a longer one.
* `entries_addAll`: importing appends the members that are missing, each once.
* `find?_eq_some_iff`: in a table without repetitions an id and its member find each other.
* `nodup_edits`, `get?_edits`, `size_edits_le`: what any sequence of edits keeps.
* `edits_invariant`: all of this, of the tables that edits make from the empty one.
-/
namespace Interpose

namespace ImportTable

variable {t t' t'' : ImportTable} {member : MemberRef} {ms : List MemberRef} {id : MemberId}

/-! ## Members and their ids -/

/-- The id under which a member is found is its own. -/
theorem get?_of_find? (h : t.find? member = some id) : t.get? id = some member := by
  obtain ⟨hlt, heq, -⟩ := List.findIdx?_eq_some_iff_getElem.1 h
  unfold get?
  rw [List.getElem?_eq_getElem hlt, eq_of_beq heq]

theorem exists_find?_of_mem (h : member ∈ t.entries) : ∃ id, t.find? member = some id := by
  cases hf : t.find? member with
  | some id => exact ⟨id, rfl⟩
  | none =>
    have hne := List.findIdx?_eq_none_iff.1 hf member h
    simp at hne

theorem mem_of_find? (h : t.find? member = some id) : member ∈ t.entries :=
  List.mem_of_getElem? (get?_of_find? h)

theorem isSome_find?_iff : (t.find? member).isSome ↔ member ∈ t.entries := by
  rw [Option.isSome_iff_exists]
  exact ⟨fun ⟨_, hid⟩ => mem_of_find? hid, exists_find?_of_mem⟩

theorem isSome_get?_iff : (t.get? id).isSome ↔ id < t.size := by simp [get?, size]

theorem lt_size_of_get? (h : t.get? id = some member) : id < t.size :=
  isSome_get?_iff.1 (by rw [h]; rfl)

/-- Without repetitions a member has no other id than the first one. -/
theorem find?_eq_some_iff (h : t.entries.Nodup) :
    t.find? member = some id ↔ t.get? id = some member := by
  refine ⟨get?_of_find?, fun hget => ?_⟩
  obtain ⟨first, hfirst⟩ := exists_find?_of_mem (List.mem_of_getElem? hget)
  have hlt : first < t.entries.length := lt_size_of_get? (get?_of_find? hfirst)
  have hsame : first = id := List.getElem?_inj hlt h |>.1 ((get?_of_find? hfirst).trans hget.symm)
  rw [hfirst, hsame]

/-! ## Longer tables -/

/-- The member ids of a table, and none else, are kept by the other. -/
def Extends (t' t : ImportTable) : Prop := t.entries <+: t'.entries

theorem Extends.refl (t : ImportTable) : t.Extends t := List.prefix_rfl

theorem Extends.trans (h' : t''.Extends t') (h : t'.Extends t) : t''.Extends t :=
  List.IsPrefix.trans h h'

theorem Extends.get? (h : t'.Extends t) (hm : t.get? id = some member) :
    t'.get? id = some member := by
  obtain ⟨rest, hrest⟩ := h
  unfold ImportTable.get? at hm ⊢
  rw [← hrest, List.getElem?_append_left (lt_size_of_get? hm), hm]

theorem Extends.find? (h : t'.Extends t) (hf : t.find? member = some id) :
    t'.find? member = some id := by
  obtain ⟨rest, hrest⟩ := h
  unfold ImportTable.find? at hf ⊢
  rw [← hrest, List.findIdx?_append, hf]
  rfl

theorem Extends.size_le (h : t'.Extends t) : t.size ≤ t'.size := h.length_le

theorem eq_of_extends (h : t'.Extends t) (hle : t'.size ≤ t.size) : t' = t := by
  obtain ⟨entries⟩ := t
  obtain ⟨entries'⟩ := t'
  exact congrArg _ (h.eq_of_length_le hle).symm

/-! ## Importing -/

theorem extends_add (t : ImportTable) (m : MemberRef) : (t.add m).2.Extends t := by
  unfold add
  split
  · exact .refl t
  · exact List.prefix_append _ _

/-- A member that is there is not added again. -/
theorem add_cases (t : ImportTable) (member : MemberRef) :
    member ∈ t.entries ∧ (t.add member).2 = t ∨
      member ∉ t.entries ∧ (t.add member).2.entries = t.entries ++ [member] := by
  cases hf : t.find? member with
  | some id => exact .inl ⟨mem_of_find? hf, by simp [add, hf]⟩
  | none =>
    refine .inr ⟨fun hm => ?_, by simp [add, hf]⟩
    obtain ⟨id, hid⟩ := exists_find?_of_mem hm
    rw [hf] at hid
    cases hid

/-- Imports members one after the other. -/
def addAll (t : ImportTable) (ms : List MemberRef) : ImportTable :=
  ms.foldl (fun t m => (t.add m).2) t

@[simp] theorem addAll_nil (t : ImportTable) : t.addAll [] = t := rfl

@[simp] theorem addAll_cons (t : ImportTable) (m : MemberRef) (ms : List MemberRef) :
    t.addAll (m :: ms) = (t.add m).2.addAll ms := rfl

theorem addAll_filterMap_cons {α : Type} (t : ImportTable) (f : α → Option MemberRef) (a : α)
    (l : List α) :
    t.addAll ((a :: l).filterMap f) = (t.addAll (f a).toList).addAll (l.filterMap f) := by
  cases h : f a <;> simp [h]

/-- What is missing is appended, each member once. -/
theorem entries_addAll (t : ImportTable) (ms : List MemberRef) :
    ∃ added, (t.addAll ms).entries = t.entries ++ added ∧ added.Nodup ∧
      ∀ m ∈ added, m ∈ ms ∧ m ∉ t.entries := by
  induction ms generalizing t with
  | nil => exact ⟨[], by simp, .nil, by simp⟩
  | cons m rest ih =>
    obtain ⟨added, hentries, hnodup, hadded⟩ := ih (t.add m).2
    rcases t.add_cases m with ⟨-, hsame⟩ | ⟨hm, hgrown⟩
    · rw [hsame] at hentries hadded
      refine ⟨added, by rw [addAll_cons, hsame, hentries], hnodup, fun x hx => ?_⟩
      exact ⟨List.mem_cons_of_mem m (hadded x hx).1, (hadded x hx).2⟩
    · rw [hgrown] at hentries hadded
      refine ⟨m :: added, by rw [addAll_cons, hentries, List.append_assoc]; rfl, ?_, ?_⟩
      · refine List.nodup_cons.2 ⟨fun hin => (hadded m hin).2 ?_, hnodup⟩
        simp
      · intro x hx
        rcases List.mem_cons.1 hx with rfl | hx
        · exact ⟨List.mem_cons_self, hm⟩
        · obtain ⟨hrest, hnew⟩ := hadded x hx
          exact ⟨List.mem_cons_of_mem m hrest, fun hold => hnew (List.mem_append_left _ hold)⟩

theorem extends_addAll (t : ImportTable) (ms : List MemberRef) : (t.addAll ms).Extends t := by
  obtain ⟨added, hentries, -⟩ := t.entries_addAll ms
  exact ⟨added, hentries.symm⟩

theorem mem_addAll (h : member ∈ ms) (t : ImportTable) : member ∈ (t.addAll ms).entries := by
  induction ms generalizing t with
  | nil => cases h
  | cons m rest ih =>
    rcases List.mem_cons.1 h with rfl | h
    · refine ((t.add member).2.extends_addAll rest).subset ?_
      exact mem_of_find? (find?_add t member)
    · exact ih h _

/-- Members that are there already change nothing. -/
theorem addAll_eq_self (h : ∀ m ∈ ms, m ∈ t.entries) : t.addAll ms = t := by
  induction ms with
  | nil => rfl
  | cons m rest ih =>
    rcases t.add_cases m with ⟨-, hsame⟩ | ⟨hm, -⟩
    · rw [addAll_cons, hsame, ih fun x hx => h x (List.mem_cons_of_mem m hx)]
    · exact absurd (h m List.mem_cons_self) hm

theorem get?_add_self (t : ImportTable) (member : MemberRef) :
    (t.add member).2.get? (t.add member).1 = some member :=
  get?_of_find? (t.find?_add member)

/-- A member that is missing gets the next id. -/
theorem add_of_not_mem (h : member ∉ t.entries) :
    (t.add member).1 = t.size ∧ (t.add member).2.size = t.size + 1 := by
  have hnone : t.find? member = none := by
    rw [← Option.not_isSome_iff_eq_none, isSome_find?_iff]
    exact h
  simp [add, hnone, size]

theorem add_of_mem (h : member ∈ t.entries) : (t.add member).2 = t := by
  rcases t.add_cases member with ⟨-, hsame⟩ | ⟨hnew, -⟩
  · exact hsame
  · exact absurd h hnew

/-! ## Cutting back -/

theorem truncate_of_extends (h : t'.Extends t) : t'.truncate t.size = t := by
  obtain ⟨rest, hrest⟩ := h
  obtain ⟨entries⟩ := t
  simp [truncate, size, ← hrest]

theorem get?_truncate (t : ImportTable) (n : Nat) (id : MemberId) :
    (t.truncate n).get? id = if id < n then t.get? id else none :=
  List.getElem?_take

theorem size_truncate (t : ImportTable) (n : Nat) : (t.truncate n).size = min n t.size :=
  List.length_take

/-- A member that is cut off is gone, for it has no other id. -/
theorem not_mem_truncate (h : t.entries.Nodup) {n : Nat} (hget : t.get? id = some member)
    (hn : n ≤ id) : member ∉ (t.truncate n).entries := by
  intro hmem
  obtain ⟨kept, hkept⟩ := List.getElem?_of_mem hmem
  have hold : (t.truncate n).get? kept = some member := hkept
  rw [get?_truncate] at hold
  split at hold
  · next hlt =>
    have hsame : kept = id := Option.some.inj (((find?_eq_some_iff h).2 hold).symm.trans
      ((find?_eq_some_iff h).2 hget))
    exact absurd hlt (Nat.not_lt.2 (hsame ▸ hn))
  · cases hold

/-! ## Edits -/

/-- A call that changes a table. -/
inductive Edit
  | add (member : MemberRef)
  | truncate (size : Nat)

/-- Does the edit leave an id as it is? -/
def Edit.Spares (id : MemberId) : Edit → Prop
  | .add _ => True
  | .truncate size => id < size

def edit (t : ImportTable) : Edit → ImportTable
  | .add member => (t.add member).2
  | .truncate size => t.truncate size

/-- Makes edits one after the other. -/
def edits (t : ImportTable) (es : List Edit) : ImportTable := es.foldl edit t

theorem nodup_edit (h : t.entries.Nodup) (e : Edit) : (t.edit e).entries.Nodup := by
  cases e with
  | add member =>
    rcases t.add_cases member with ⟨-, hsame⟩ | ⟨hnew, hgrown⟩
    · rwa [edit, hsame]
    · rw [edit, hgrown]
      refine List.nodup_append.2 ⟨h, List.pairwise_singleton _ member, fun a ha b hb hsame => ?_⟩
      rw [List.mem_singleton.1 hb] at hsame
      exact hnew (hsame ▸ ha)
  | truncate size => exact h.sublist (List.take_sublist size _)

theorem nodup_edits (h : t.entries.Nodup) (es : List Edit) : (t.edits es).entries.Nodup := by
  induction es generalizing t with
  | nil => exact h
  | cons e rest ih => exact ih (nodup_edit h e)

theorem get?_edit {e : Edit} (he : e.Spares id) (hid : id < t.size) :
    (t.edit e).get? id = t.get? id := by
  cases e with
  | add member => exact t.get?_add_of_lt member hid
  | truncate size => exact (t.get?_truncate size id).trans (if_pos he)

/-- An id keeps its member through all edits that do not cut it off. -/
theorem get?_edits {es : List Edit} (hes : ∀ e ∈ es, e.Spares id) (hid : id < t.size) :
    (t.edits es).get? id = t.get? id := by
  induction es generalizing t with
  | nil => rfl
  | cons e rest ih =>
    have hkept := get?_edit (hes e List.mem_cons_self) hid
    have hvalid : id < (t.edit e).size := by
      rw [← isSome_get?_iff, hkept, isSome_get?_iff]
      exact hid
    exact (ih (fun x hx => hes x (List.mem_cons_of_mem e hx)) hvalid).trans hkept

theorem size_edit_le (t : ImportTable) (e : Edit) : (t.edit e).size ≤ t.size + 1 := by
  cases e with
  | add member =>
    by_cases hm : member ∈ t.entries
    · rw [edit, add_of_mem hm]
      omega
    · exact Nat.le_of_eq (add_of_not_mem hm).2
  | truncate size =>
    rw [edit, size_truncate]
    omega

/-- There are no more ids than there were imports. -/
theorem size_edits_le (t : ImportTable) (es : List Edit) :
    (t.edits es).size ≤ t.size + es.length := by
  induction es generalizing t with
  | nil => exact Nat.le_refl _
  | cons e rest ih =>
    have hstep := t.size_edit_le e
    have hrest := ih (t.edit e)
    rw [List.length_cons]
    show ((t.edit e).edits rest).size ≤ _
    omega

/-- The tables that imports and cuts make from the empty one. Ids and members find each other,
for no member is in such a table twice. An import gives an id of its member and moves no other;
it adds an entry, under the next id, just for a missing member. A cut keeps the ids below the
size, with their members, and only these; what it drops gets the next id when it is imported
again. An id outlasts the edits that do not cut it off, and is less than their number. -/
theorem edits_invariant (es : List Edit) :
    let t := ({} : ImportTable).edits es
    t.entries.Nodup ∧ t.size ≤ es.length ∧
    (∀ member id, t.find? member = some id ↔ t.get? id = some member) ∧
    (∀ member, (t.find? member).isSome ↔ member ∈ t.entries) ∧
    (∀ id, (t.get? id).isSome ↔ id < t.size) ∧
    (∀ member, (t.add member).2.get? (t.add member).1 = some member ∧
      (∀ id, id < t.size → (t.add member).2.get? id = t.get? id) ∧
      (member ∈ t.entries → (t.add member).2 = t) ∧
      (member ∉ t.entries →
        (t.add member).1 = t.size ∧ (t.add member).2.size = t.size + 1)) ∧
    (∀ n, (∀ id, (t.truncate n).get? id = if id < n then t.get? id else none) ∧
      ∀ member id, t.get? id = some member → n ≤ id →
        (t.truncate n).find? member = none ∧ (t.truncate n).size = n ∧
          ((t.truncate n).add member).1 = n) ∧
    ∀ id, id < t.size → ∀ more : List Edit, (∀ e ∈ more, e.Spares id) →
      (t.edits more).get? id = t.get? id := by
  intro t
  have hnodup : t.entries.Nodup := nodup_edits .nil es
  have hsize : t.size ≤ es.length := by
    have := ({} : ImportTable).size_edits_le es
    rwa [show ({} : ImportTable).size = 0 from rfl, Nat.zero_add] at this
  refine ⟨hnodup, hsize, fun member id => find?_eq_some_iff hnodup,
    fun member => isSome_find?_iff, fun id => isSome_get?_iff, fun member => ?_, fun n => ?_,
    fun id hid more hmore => get?_edits hmore hid⟩
  · exact ⟨t.get?_add_self member, fun id hid => t.get?_add_of_lt member hid, add_of_mem,
      add_of_not_mem⟩
  · refine ⟨t.get?_truncate n, fun member id hget hn => ?_⟩
    have hgone := not_mem_truncate hnodup hget hn
    have hshort : (t.truncate n).size = n := by
      rw [size_truncate, Nat.min_eq_left (Nat.le_trans hn (Nat.le_of_lt (lt_size_of_get? hget)))]
    refine ⟨?_, hshort, (add_of_not_mem hgone).1.trans hshort⟩
    rw [← Option.not_isSome_iff_eq_none, isSome_find?_iff]
    exact hgone

end ImportTable

end Interpose
