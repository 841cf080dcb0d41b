import Mathlib.Data.List.Nodup
import Interpose.Machine.Value
import Interpose.Proofs.Lists
/-!
# Values up to renaming

Two runs of code that differ in what they allocate give different identities to the same
arrays, objects and boxes. A renaming lists, for each identity of the first heap, that of
the second; it grows as the first heap does, and never gives one identity twice.

Results:
* `Value.Matches.equal`, `Heap.Matches.text`: what programs see of values is the same.
* `Heap.Matches.alloc`, `Heap.Matches.newObject`, `Heap.Matches.newBox`,
  `Heap.Matches.write`: heaps that match still do when both change alike.
* `Heap.Closed.matches_keep`, `Heap.Matches.closed`: a heap matches one if it refers to
  nothing but itself.
-/
namespace Interpose

namespace Heap

/-- The arrays below a number stay as they were; new identities are new. -/
structure Keeps (n : Nat) (h h' : Heap) : Prop where
  arrays : ∀ r, r < n → h'.arrays[r]? = h.arrays[r]?
  fresh : h.fresh ≤ h'.fresh

variable {h h' h'' : Heap} {n : Nat}

theorem Keeps.refl (n : Nat) (h : Heap) : Keeps n h h := ⟨fun _ _ => rfl, Nat.le_refl _⟩

theorem Keeps.trans (hk : Keeps n h h') (hk' : Keeps n h' h'') : Keeps n h h'' :=
  ⟨fun r hr => (hk'.arrays r hr).trans (hk.arrays r hr), Nat.le_trans hk.fresh hk'.fresh⟩

theorem keeps_alloc (h : Heap) (items : Array Value) :
    Keeps h.arrays.size h (h.alloc items).2 := by
  refine ⟨fun r hr => ?_, Nat.le_refl _⟩
  rw [alloc, Array.getElem?_push, if_neg (Nat.ne_of_lt hr)]

theorem keeps_newBox (n : Nat) (h : Heap) (v : Value) : Keeps n h (h.newBox v).2 :=
  ⟨fun _ _ => rfl, Nat.le_succ _⟩

theorem keeps_write {r : Ref} (hr : n ≤ r) (h : Heap) (index : Nat) (v : Value) :
    Keeps n h (h.write r index v) := by
  refine ⟨fun s hs => ?_, Nat.le_refl _⟩
  rw [write, Array.getElem?_modify, if_neg (by omega)]

theorem items_eq_getElem {r : Ref} (hr : r < h.arrays.size) : h.items r = h.arrays[r] := by
  unfold items
  rw [Array.getElem?_eq_getElem hr]
  rfl

theorem items_write (h : Heap) (r : Ref) (index : Nat) (v : Value) :
    (h.write r index v).items r = (h.items r).setIfInBounds index v := by
  unfold write items
  rw [Array.getElem?_modify, if_pos rfl]
  cases h.arrays[r]? with
  | none => rfl
  | some items => rfl

end Heap

/-- New identities for arrays, and for objects and boxes. -/
structure Renaming where
  arrays : List Ref
  objects : List Ref

namespace Renaming

/-- Goes on from another one. -/
structure Extends (ρ' ρ : Renaming) : Prop where
  arrays : ρ.arrays <+: ρ'.arrays
  objects : ρ.objects <+: ρ'.objects

variable {ρ ρ' ρ'' : Renaming}

theorem Extends.refl (ρ : Renaming) : ρ.Extends ρ := ⟨List.prefix_rfl, List.prefix_rfl⟩

theorem Extends.trans (h' : ρ''.Extends ρ') (h : ρ'.Extends ρ) : ρ''.Extends ρ :=
  ⟨h.arrays.trans h'.arrays, h.objects.trans h'.objects⟩

theorem getElem?_of_prefix {l l' : List Ref} (h : l <+: l') {r r' : Ref} (hr : l[r]? = some r') :
    l'[r]? = some r' := by
  obtain ⟨rest, rfl⟩ := h
  rw [List.getElem?_append_left (List.getElem?_eq_some_iff.1 hr).1, hr]

/-- Identities stay apart. -/
theorem eq_iff_of_nodup {l : List Ref} (hn : l.Nodup) {r r' s s' : Ref} (hr : l[r]? = some r')
    (hs : l[s]? = some s') : r = s ↔ r' = s' := by
  obtain ⟨hlt, rfl⟩ := List.getElem?_eq_some_iff.1 hr
  obtain ⟨hlt', rfl⟩ := List.getElem?_eq_some_iff.1 hs
  exact (List.Nodup.getElem_inj_iff hn).symm

/-- The renaming that keeps the identities of a heap. -/
def keep (h : Heap) : Renaming := ⟨List.range h.arrays.size, List.range h.fresh⟩

theorem Extends.arrays_of_keep {h : Heap} (he : ρ.Extends (.keep h)) {r : Ref}
    (hr : r < h.arrays.size) : ρ.arrays[r]? = some r :=
  getElem?_of_prefix he.arrays (List.getElem?_range hr)

end Renaming

/-! ## Values -/

/-- The second value is the first one renamed. -/
inductive Value.Matches (ρ : Renaming) : Value → Value → Prop
  | null : Matches ρ .null .null
  | int32 (v : Int32) : Matches ρ (.int32 v) (.int32 v)
  | int64 (v : Int64) : Matches ρ (.int64 v) (.int64 v)
  | float64 (v : Binary64) : Matches ρ (.float64 v) (.float64 v)
  | text (s : String) : Matches ρ (.text s) (.text s)
  | boxed {r r' : Ref} {v v' : Value} (hr : ρ.objects[r]? = some r') (hv : Matches ρ v v') :
    Matches ρ (.boxed r v) (.boxed r' v')
  | array {r r' : Ref} (hr : ρ.arrays[r]? = some r') : Matches ρ (.array r) (.array r')
  | object {r r' : Ref} (className message : String) (hr : ρ.objects[r]? = some r') :
    Matches ρ (.object r className message) (.object r' className message)
  | method (typeName name : String) : Matches ρ (.method typeName name) (.method typeName name)
  | dispatcher : Matches ρ .dispatcher .dispatcher

/-- Values one by one. -/
abbrev MatchAll (ρ : Renaming) : List Value → List Value → Prop := List.Forall₂ (Value.Matches ρ)

variable {ρ ρ' : Renaming}

namespace Value

variable {v v' a a' b b' : Value}

theorem Matches.mono (he : ρ'.Extends ρ) (h : v.Matches ρ v') : v.Matches ρ' v' := by
  induction h with
  | null => exact .null
  | int32 v => exact .int32 v
  | int64 v => exact .int64 v
  | float64 v => exact .float64 v
  | text s => exact .text s
  | boxed hr hv ih => exact .boxed (Renaming.getElem?_of_prefix he.objects hr) ih
  | array hr => exact .array (Renaming.getElem?_of_prefix he.arrays hr)
  | object className message hr =>
    exact .object className message (Renaming.getElem?_of_prefix he.objects hr)
  | method typeName name => exact .method typeName name
  | dispatcher => exact .dispatcher

theorem matches_initial (ρ : Renaming) (t : Ty) : (initial t).Matches ρ (initial t) := by
  unfold initial
  split
  · exact .int32 0
  · exact .int32 0
  · exact .int64 0
  · exact .float64 .zero
  · exact .null

theorem Matches.isNull (h : v.Matches ρ v') : v'.isNull = v.isNull := by
  cases h <;> rfl

theorem Matches.isTruthy (h : v.Matches ρ v') : v'.isTruthy = v.isTruthy := by
  cases h <;> rfl

theorem Matches.className? (h : v.Matches ρ v') : v'.className? = v.className? := by
  cases h <;> rfl

/-- Programs see the same values as equal. -/
theorem Matches.equal (harrays : ρ.arrays.Nodup) (hobjects : ρ.objects.Nodup)
    (ha : a.Matches ρ a') (hb : b.Matches ρ b') : a'.equal b' = a.equal b := by
  induction ha generalizing b b' with
  | boxed hr hv ih =>
    cases hb with
    | boxed hs hw => exact ih hw
    | _ => rfl
  | array hr =>
    cases hb with
    | array hs =>
      have hiff := Renaming.eq_iff_of_nodup harrays hr hs
      show (_ == _) = (_ == _)
      rw [Bool.eq_iff_iff, beq_iff_eq, beq_iff_eq, hiff]
    | _ => rfl
  | object className message hr =>
    cases hb with
    | object className' message' hs =>
      have hiff := Renaming.eq_iff_of_nodup hobjects hr hs
      show (_ == _) = (_ == _)
      rw [Bool.eq_iff_iff, beq_iff_eq, beq_iff_eq, hiff]
    | _ => rfl
  | _ => cases hb <;> rfl

end Value

theorem MatchAll.mono (he : ρ'.Extends ρ) {vs vs' : List Value} (h : MatchAll ρ vs vs') :
    MatchAll ρ' vs vs' := h.imp fun _ _ hv => hv.mono he

/-! ## Heaps -/

/-- The second heap holds the first one, renamed, and maybe more. -/
structure Heap.Matches (ρ : Renaming) (h h' : Heap) : Prop where
  arrays : ρ.arrays.length = h.arrays.size
  objects : ρ.objects.length = h.fresh
  arraysNodup : ρ.arrays.Nodup
  objectsNodup : ρ.objects.Nodup
  arraysBelow : ∀ r' ∈ ρ.arrays, r' < h'.arrays.size
  objectsBelow : ∀ r' ∈ ρ.objects, r' < h'.fresh
  items : ∀ r r', ρ.arrays[r]? = some r' → MatchAll ρ (h.items r).toList (h'.items r').toList

namespace Heap

variable {h h' : Heap}

theorem Matches.elements? (hm : h.Matches ρ h') {v v' : Value} (hv : v.Matches ρ v') :
    (h.elements? v = none ∧ h'.elements? v' = none) ∨
      ∃ items items', h.elements? v = some items ∧ h'.elements? v' = some items' ∧
        MatchAll ρ items.toList items'.toList := by
  cases hv with
  | array hr => exact .inr ⟨_, _, rfl, rfl, hm.items _ _ hr⟩
  | _ => exact .inl ⟨rfl, rfl⟩

/-! ### Texts -/

theorem textWith_matches {items items' : Ref → String}
    (hi : ∀ r r', ρ.arrays[r]? = some r' → items r = items' r') {v v' : Value}
    (hv : v.Matches ρ v') : v.textWith items = v'.textWith items' := by
  induction hv with
  | boxed hr hv ih => exact ih
  | array hr => exact hi _ _ hr
  | _ => rfl

/-- The text is the same if the same arrays may be shown. -/
theorem Matches.textWithin (hm : h.Matches ρ h') {shown shown' : List Ref} (hn : shown.Nodup)
    (hn' : shown'.Nodup) (hs : ∀ r r', ρ.arrays[r]? = some r' → (r ∈ shown ↔ r' ∈ shown'))
    {v v' : Value} (hv : v.Matches ρ v') : h.textWithin shown v = h'.textWithin shown' v' := by
  -- By induction on what may still be shown; an array shows its elements without itself.
  induction hk : shown.length generalizing shown shown' v v' with
  | zero =>
    rw [Heap.textWithin, Heap.textWithin]
    refine textWith_matches (fun r r' hr => ?_) hv
    have hnil := List.length_eq_zero_iff.1 hk
    have hnot : r ∉ shown := by
      rw [hnil]
      exact List.not_mem_nil
    rw [dif_neg hnot, dif_neg (fun hmem => hnot ((hs r r' hr).2 hmem))]
  | succ k ih =>
    rw [Heap.textWithin, Heap.textWithin]
    refine textWith_matches (fun r r' hr => ?_) hv
    by_cases hmem : r ∈ shown
    · have hmem' : r' ∈ shown' := (hs r r' hr).1 hmem
      have hitems : (h.items r).toList.map (h.textWithin (shown.erase r)) =
          (h'.items r').toList.map (h'.textWithin (shown'.erase r')) := by
        refine forall₂_map_eq (hm.items r r' hr) fun a b hab => ?_
        refine ih (hn.erase r) (hn'.erase r') (fun s s' hss => ?_) hab ?_
        · rw [hn.mem_erase_iff, hn'.mem_erase_iff, hs s s' hss, ne_eq, ne_eq,
            Renaming.eq_iff_of_nodup hm.arraysNodup hss hr]
        · rw [List.length_erase_of_mem hmem, hk]
          rfl
      rw [dif_pos hmem, dif_pos hmem', hitems]
    · rw [dif_neg hmem, dif_neg (fun hmem' => hmem ((hs r r' hr).2 hmem'))]

theorem Matches.text (hm : h.Matches ρ h') {v v' : Value} (hv : v.Matches ρ v') :
    h'.text v' = h.text v := by
  refine (hm.textWithin List.nodup_range List.nodup_range (fun r r' hr => ?_) hv).symm
  obtain ⟨hlt, heq⟩ := List.getElem?_eq_some_iff.1 hr
  rw [hm.arrays] at hlt
  have hbelow := hm.arraysBelow r' (List.mem_of_getElem? hr)
  rw [List.mem_range, List.mem_range]
  exact ⟨fun _ => hbelow, fun _ => hlt⟩

/-! ### Changes -/

theorem nodup_concat {l : List Ref} (hn : l.Nodup) {n : Nat} (hl : ∀ r ∈ l, r < n) :
    (l ++ [n]).Nodup := by
  rw [List.nodup_append]
  refine ⟨hn, List.nodup_singleton n, fun r hr s hs => ?_⟩
  obtain rfl := List.mem_singleton.1 hs
  exact Nat.ne_of_lt (hl r hr)

/-- Both make an array of the same items. -/
theorem Matches.alloc (hm : h.Matches ρ h') {items items' : Array Value}
    (hi : MatchAll ρ items.toList items'.toList) :
    ∃ ρ' : Renaming, ρ'.Extends ρ ∧ (h.alloc items).1.Matches ρ' (h'.alloc items').1 ∧
      (h.alloc items).2.Matches ρ' (h'.alloc items').2 := by
  have he : Renaming.Extends ⟨ρ.arrays ++ [h'.arrays.size], ρ.objects⟩ ρ :=
    ⟨List.prefix_append _ _, List.prefix_rfl⟩
  have hnew : (ρ.arrays ++ [h'.arrays.size])[h.arrays.size]? = some h'.arrays.size := by
    rw [← hm.arrays, List.getElem?_concat_length]
  refine ⟨_, he, .array hnew, ?_, hm.objects, nodup_concat hm.arraysNodup hm.arraysBelow,
    hm.objectsNodup, fun r' hr' => ?_, hm.objectsBelow, fun r r' hr => ?_⟩
  · show (ρ.arrays ++ [h'.arrays.size]).length = (h.arrays.push items).size
    rw [List.length_append, List.length_singleton, Array.size_push, hm.arrays]
  · show r' < (h'.arrays.push items').size
    rw [Array.size_push]
    rcases List.mem_append.1 hr' with hr' | hr'
    · exact Nat.lt_succ_of_lt (hm.arraysBelow r' hr')
    · obtain rfl := List.mem_singleton.1 hr'
      exact Nat.lt_succ_self _
  · rcases Nat.lt_or_ge r h.arrays.size with hlt | hge
    · have hold : ρ.arrays[r]? = some r' := by
        rw [← hr]
        exact (List.getElem?_append_left (hm.arrays ▸ hlt)).symm
      rw [items_alloc_of_lt h items hlt,
        items_alloc_of_lt h' items' (hm.arraysBelow r' (List.mem_of_getElem? hold))]
      exact (hm.items r r' hold).mono he
    · have hlt : r < (ρ.arrays ++ [h'.arrays.size]).length :=
        (List.getElem?_eq_some_iff.1 hr).1
      rw [List.length_append, List.length_singleton, hm.arrays] at hlt
      obtain rfl : r = h.arrays.size := Nat.le_antisymm (Nat.le_of_lt_succ hlt) hge
      obtain rfl := Option.some.inj (hnew.symm.trans hr)
      rw [items_alloc, items_alloc]
      exact hi.mono he

/-- A fresh identity on both sides. -/
theorem Matches.freshen (hm : h.Matches ρ h') :
    ∃ ρ' : Renaming, ρ'.Extends ρ ∧ ρ'.objects[h.fresh]? = some h'.fresh ∧
      Heap.Matches ρ' { h with fresh := h.fresh + 1 } { h' with fresh := h'.fresh + 1 } := by
  have he : Renaming.Extends ⟨ρ.arrays, ρ.objects ++ [h'.fresh]⟩ ρ :=
    ⟨List.prefix_rfl, List.prefix_append _ _⟩
  refine ⟨_, he, ?_, hm.arrays, ?_, hm.arraysNodup, nodup_concat hm.objectsNodup hm.objectsBelow,
    hm.arraysBelow, fun r' hr' => ?_, fun r r' hr => (hm.items r r' hr).mono he⟩
  · rw [← hm.objects, List.getElem?_concat_length]
  · rw [List.length_append, List.length_singleton, hm.objects]
  · rcases List.mem_append.1 hr' with hr' | hr'
    · exact Nat.lt_succ_of_lt (hm.objectsBelow r' hr')
    · obtain rfl := List.mem_singleton.1 hr'
      exact Nat.lt_succ_self _

theorem Matches.newObject (hm : h.Matches ρ h') (className message : String) :
    ∃ ρ' : Renaming, ρ'.Extends ρ ∧
      (h.newObject className message).1.Matches ρ' (h'.newObject className message).1 ∧
      (h.newObject className message).2.Matches ρ' (h'.newObject className message).2 := by
  obtain ⟨ρ', he, hfresh, hm'⟩ := hm.freshen
  exact ⟨ρ', he, .object className message hfresh, hm'⟩

theorem Matches.newBox (hm : h.Matches ρ h') {v v' : Value} (hv : v.Matches ρ v') :
    ∃ ρ' : Renaming, ρ'.Extends ρ ∧ (h.newBox v).1.Matches ρ' (h'.newBox v').1 ∧
      (h.newBox v).2.Matches ρ' (h'.newBox v').2 := by
  obtain ⟨ρ', he, hfresh, hm'⟩ := hm.freshen
  exact ⟨ρ', he, .boxed hfresh (hv.mono he), hm'⟩

theorem size_write (h : Heap) (r : Ref) (index : Nat) (v : Value) :
    (h.write r index v).arrays.size = h.arrays.size := by
  unfold write
  rw [Array.size_modify]

/-- Both change the same element of the same array. -/
theorem Matches.write (hm : h.Matches ρ h') {r r' : Ref} (hr : ρ.arrays[r]? = some r')
    (index : Nat) {v v' : Value} (hv : v.Matches ρ v') :
    (h.write r index v).Matches ρ (h'.write r' index v') := by
  refine ⟨?_, hm.objects, hm.arraysNodup, hm.objectsNodup, fun s' hs' => ?_, hm.objectsBelow,
    fun s s' hs => ?_⟩
  · rw [size_write, hm.arrays]
  · rw [size_write]
    exact hm.arraysBelow s' hs'
  · have hiff := Renaming.eq_iff_of_nodup hm.arraysNodup hr hs
    by_cases heq : r = s
    · obtain rfl := heq
      obtain rfl := hiff.1 rfl
      rw [items_write, items_write, Array.toList_setIfInBounds, Array.toList_setIfInBounds]
      exact forall₂_set (hm.items r r' hr) index hv
    · rw [items_write_of_ne h heq, items_write_of_ne h' (fun he => heq (hiff.2 he))]
      exact hm.items s s' hs

/-- The second heap may get more. -/
theorem Matches.keeps (hm : h.Matches ρ h') {h'' : Heap} (hk : h'.Keeps h'.arrays.size h'') :
    h.Matches ρ h'' := by
  have hsize : h'.arrays.size ≤ h''.arrays.size := by
    rcases Nat.eq_zero_or_pos h'.arrays.size with hzero | hpos
    · omega
    · have hlast := hk.arrays (h'.arrays.size - 1) (by omega)
      rw [Array.getElem?_eq_getElem (Nat.sub_one_lt_of_lt hpos)] at hlast
      obtain ⟨hlt, -⟩ := Array.getElem?_eq_some_iff.1 hlast
      omega
  refine ⟨hm.arrays, hm.objects, hm.arraysNodup, hm.objectsNodup,
    fun r' hr' => Nat.lt_of_lt_of_le (hm.arraysBelow r' hr') hsize,
    fun r' hr' => Nat.lt_of_lt_of_le (hm.objectsBelow r' hr') hk.fresh, fun r r' hr => ?_⟩
  have hsame : h''.items r' = h'.items r' := by
    unfold Heap.items
    rw [hk.arrays r' (hm.arraysBelow r' (List.mem_of_getElem? hr))]
  rw [hsame]
  exact hm.items r r' hr

/-! ### Closed heaps -/

end Heap

/-- Are the identities in the value ones that the heap has given away? -/
def Value.Within (h : Heap) : Value → Prop
  | .boxed r v => r < h.fresh ∧ v.Within h
  | .array r => r < h.arrays.size
  | .object r _ _ => r < h.fresh
  | _ => True

/-- Do the arrays hold only values of the heap? -/
def Heap.Closed (h : Heap) : Prop := ∀ items ∈ h.arrays, ∀ v ∈ items, v.Within h

theorem Value.Within.matches_keep {h : Heap} {v : Value} (hv : v.Within h) :
    v.Matches (.keep h) v := by
  induction v with
  | null => exact .null
  | int32 v => exact .int32 v
  | int64 v => exact .int64 v
  | float64 v => exact .float64 v
  | text s => exact .text s
  | boxed r v ih => exact .boxed (List.getElem?_range hv.1) (ih hv.2)
  | array r => exact .array (List.getElem?_range hv)
  | object r className message => exact .object className message (List.getElem?_range hv)
  | method typeName name => exact .method typeName name
  | dispatcher => exact .dispatcher

theorem matchAll_keep {h : Heap} {vs : List Value} (hvs : ∀ v ∈ vs, v.Within h) :
    MatchAll (.keep h) vs vs := by
  induction vs with
  | nil => exact .nil
  | cons v rest ih =>
    exact .cons (hvs v List.mem_cons_self).matches_keep
      (ih fun w hw => hvs w (List.mem_cons_of_mem _ hw))

/-- A closed heap matches itself. -/
theorem Heap.Closed.matches_keep {h : Heap} (hc : h.Closed) : h.Matches (.keep h) h := by
  refine ⟨List.length_range, List.length_range, List.nodup_range, List.nodup_range,
    fun r hr => List.mem_range.1 hr, fun r hr => List.mem_range.1 hr, fun r r' hr => ?_⟩
  obtain ⟨hlt, rfl⟩ := List.getElem?_eq_some_iff.1 hr
  rw [Renaming.keep, List.length_range] at hlt
  have hr' : (Renaming.keep h).arrays[r] = r := List.getElem_range _
  rw [hr']
  refine matchAll_keep fun v hv => ?_
  rw [Heap.items_eq_getElem hlt] at hv
  exact hc _ (Array.getElem_mem hlt) v (Array.mem_toList_iff.1 hv)

/-- What has been renamed is a value of the heap. -/
theorem Heap.Matches.within {h h' : Heap} (hm : h.Matches ρ h') {v v' : Value}
    (hv : v.Matches ρ v') : v.Within h := by
  induction hv with
  | boxed hr hv ih =>
    obtain ⟨hlt, -⟩ := List.getElem?_eq_some_iff.1 hr
    rw [hm.objects] at hlt
    exact ⟨hlt, ih⟩
  | array hr =>
    obtain ⟨hlt, -⟩ := List.getElem?_eq_some_iff.1 hr
    rw [hm.arrays] at hlt
    exact hlt
  | object className message hr =>
    obtain ⟨hlt, -⟩ := List.getElem?_eq_some_iff.1 hr
    rw [hm.objects] at hlt
    exact hlt
  | _ => exact trivial

theorem Heap.Matches.closed {h h' : Heap} (hm : h.Matches ρ h') : h.Closed := by
  intro items hitems v hv
  obtain ⟨r, hr, rfl⟩ := Array.mem_iff_getElem.1 hitems
  have hlt : r < ρ.arrays.length := hm.arrays ▸ hr
  have hall := hm.items r _ (List.getElem?_eq_getElem hlt)
  rw [Heap.items_eq_getElem hr] at hall
  obtain ⟨k, hk⟩ := List.getElem?_of_mem (Array.mem_toList_iff.2 hv)
  obtain ⟨v', -, hv'⟩ := forall₂_getElem? hall hk
  exact hm.within hv'

end Interpose
