import Interpose.Proofs.Machine.Renaming
import Interpose.Proofs.Verify.Effect
import Interpose.Proofs.Weave.HookCalls
/-!
# What the capturing code does

The code at the start of a woven method copies the arguments into a fresh array, those of
value types in boxes. Arrays that were there before stay as they were.

Results:
* `proceeds_capture`: the array that a slot refers to when the arguments are captured.
* `Method.captured_of_holds`: its elements stand for the declared arguments.
-/
namespace Interpose

/-- The value that stands for an argument in a snapshot. -/
def CapturedArgument.Holds (a : CapturedArgument) (args : List Value) (x : Value) : Prop :=
  ∃ v, args[a.slot.toNat]? = some v ∧
    if a.boxed?.isSome then ∃ ref, x = .boxed ref v else x = v

namespace Machine

variable (vm : Machine) {r : Routine} {f : Frame} {w : World}

/-- One argument is stored. -/
theorem proceeds_store {slot : SlotId} {array : Ref} {index : Nat} {a : CapturedArgument}
    (hat : CodeAt r.code.toList f.pc (Capture.storeCode slot index a))
    (hv : f.locals[slot.toNat]? = some (.array array)) (ha : a.slot.toNat < f.args.length)
    (hbox : ∀ t, a.boxed? = some t → t.isValueType = true) (hsmall : index < 2 ^ 31)
    (hlt : index < (w.heap.items array).size) :
    ∃ x heap, vm.Proceeds r f w []
        { f with pc := f.pc + (Capture.storeCode slot index a).length }
        { w with heap := heap } ∧
      a.Holds f.args x ∧
      (heap.items array).toList = (w.heap.items array).toList.set index x ∧
      w.heap.Keeps array heap := by
  obtain ⟨argument, boxed?⟩ := a
  obtain ⟨v, harg⟩ : ∃ v, f.args[argument.toNat]? = some v := ⟨_, List.getElem?_eq_getElem ha⟩
  have hindex := Int32.toInt_ofNat_of_lt hsmall
  have hload : vm.Proceeds r f w []
      { f with
        stack := v :: .int32 (Int32.ofNat index) :: .array array :: f.stack
        pc := f.pc + 3 } w :=
    (proceeds_ldloc hat.fetch hv).trans ((proceeds_ldcI4 hat.tail.fetch).trans
      (proceeds_ldarg hat.tail.tail.fetch harg))
  cases boxed? with
  | none =>
    have hstore := hload.trans (proceeds_stelem hat.tail.tail.tail.fetch rfl hindex hlt)
    refine ⟨v, _, hstore, ⟨v, harg, rfl⟩, ?_, Heap.keeps_write (Nat.le_refl _) _ _ _⟩
    rw [Heap.items_write, Array.toList_setIfInBounds]
  | some t =>
    have hboxed := hload.trans (proceeds_box hat.tail.tail.tail.fetch (hbox t rfl) rfl)
    have hstore := hboxed.trans (proceeds_stelem hat.tail.tail.tail.tail.fetch rfl hindex hlt)
    refine ⟨.boxed w.heap.fresh v, _, hstore, ⟨v, harg, ⟨w.heap.fresh, rfl⟩⟩, ?_,
      (Heap.keeps_newBox array w.heap v).trans (Heap.keeps_write (Nat.le_refl _) _ _ _)⟩
    rw [Heap.items_write, Array.toList_setIfInBounds]
    rfl

/-- The arguments are stored one after the other. -/
theorem proceeds_storeAll {slot : SlotId} {array : Ref} (as : List CapturedArgument) {index : Nat}
    (front : List Value) {back : List Value}
    (hat : CodeAt r.code.toList f.pc (Capture.storeAll slot index as))
    (hv : f.locals[slot.toNat]? = some (.array array))
    (ha : ∀ a ∈ as, a.slot.toNat < f.args.length)
    (hbox : ∀ a ∈ as, ∀ t, a.boxed? = some t → t.isValueType = true)
    (hsmall : index + as.length ≤ 2 ^ 31)
    (hitems : (w.heap.items array).toList = front ++ back) (hfront : front.length = index)
    (hback : back.length = as.length) :
    ∃ xs heap, vm.Proceeds r f w []
        { f with pc := f.pc + (Capture.storeAll slot index as).length }
        { w with heap := heap } ∧
      List.Forall₂ (fun a x => a.Holds f.args x) as xs ∧
      (heap.items array).toList = front ++ xs ∧ w.heap.Keeps array heap := by
  induction as generalizing f w index front back with
  | nil =>
    obtain rfl : back = [] := List.eq_nil_of_length_eq_zero hback
    exact ⟨[], w.heap, .refl f w, .nil, hitems, .refl _ _⟩
  | cons a rest ih =>
    cases back with
    | nil => cases hback
    | cons old back =>
      have hsize : index < (w.heap.items array).size := by
        rw [← Array.length_toList, hitems, List.length_append, List.length_cons]
        omega
      simp only [List.length_cons] at hsmall hback
      obtain ⟨x, heap, hstore, hholds, hset, hkeeps⟩ := proceeds_store vm hat.left hv
        (ha a List.mem_cons_self) (hbox a List.mem_cons_self) (by omega) hsize
      have hset' : (heap.items array).toList = (front ++ [x]) ++ back := by
        rw [hset, hitems, ← hfront, List.set_append_right _ _ (Nat.le_refl _), Nat.sub_self,
          List.set_cons_zero, List.append_assoc, List.singleton_append]
      obtain ⟨xs, heap', hrest, hall, hitems', hkeeps'⟩ := ih (w := { w with heap := heap })
        (f := { f with pc := f.pc + (Capture.storeCode slot index a).length })
        (front ++ [x]) hat.right hv (fun b hb => ha b (List.mem_cons_of_mem _ hb))
        (fun b hb => hbox b (List.mem_cons_of_mem _ hb)) (by omega) hset' (by simp [hfront])
        (by omega)
      refine ⟨x :: xs, heap', ?_, .cons hholds hall, ?_, hkeeps.trans hkeeps'⟩
      · have hdone := hstore.trans hrest
        rw [Capture.storeAll, List.length_append, ← Nat.add_assoc]
        exact hdone
      · rw [hitems', List.append_assoc, List.singleton_append]

/-- The capturing code leaves the arguments in a fresh array. -/
theorem proceeds_capture {slot : SlotId} {capture : Capture}
    (hat : CodeAt r.code.toList f.pc (capture.code slot)) (hslot : slot.toNat < f.locals.length)
    (ha : ∀ a ∈ capture.arguments, a.slot.toNat < f.args.length)
    (hbox : ∀ a ∈ capture.arguments, ∀ t, a.boxed? = some t → t.isValueType = true)
    (hsmall : capture.size < 2 ^ 31) :
    ∃ xs heap, vm.Proceeds r f w []
        { f with
          locals := f.locals.set slot.toNat (.array w.heap.arrays.size)
          pc := f.pc + (capture.code slot).length }
        { w with heap := heap } ∧
      List.Forall₂ (fun a x => a.Holds f.args x) capture.arguments xs ∧
      (heap.items w.heap.arrays.size).toList = xs ∧ w.heap.Keeps w.heap.arrays.size heap := by
  have hsize := Int32.toInt_ofNat_of_lt hsmall
  have hlen : (Int32.ofNat capture.size).toInt.toNat = capture.size := by omega
  have hnew : vm.Proceeds r f w []
      { f with
        locals := f.locals.set slot.toNat (.array w.heap.arrays.size)
        pc := f.pc + 3 }
      { w with heap := (w.heap.alloc (Array.replicate capture.size .null)).2 } := by
    rw [← hlen]
    exact (proceeds_ldcI4 hat.left.fetch).trans
      ((proceeds_newarr hat.left.tail.fetch rfl (by omega)).trans
        (proceeds_stloc hat.left.tail.tail.fetch rfl hslot))
  have hgrown := w.heap.keeps_alloc (Array.replicate capture.size .null)
  have hnulls := w.heap.items_alloc (Array.replicate capture.size .null)
  obtain ⟨xs, heap, hstore, hall, hitems, hkeeps⟩ := proceeds_storeAll vm
    (f := { f with
      locals := f.locals.set slot.toNat (.array w.heap.arrays.size)
      pc := f.pc + 3 })
    (w := { w with heap := (w.heap.alloc (Array.replicate capture.size .null)).2 })
    capture.arguments [] hat.right (List.getElem?_set_self hslot) ha hbox
    (by rw [Nat.zero_add]; exact Nat.le_of_lt hsmall)
    (congrArg Array.toList hnulls) rfl (by simp [Capture.size])
  refine ⟨xs, heap, ?_, hall, hitems, hgrown.trans hkeeps⟩
  have hlength : (capture.code slot).length =
      3 + (Capture.storeAll slot 0 capture.arguments).length := List.length_append
  rw [hlength, ← Nat.add_assoc]
  exact hnew.trans hstore

end Machine

/-! ## Declared arguments -/

namespace Method

/-- Number of receivers among the arguments. -/
def receivers (d : Method) : Nat := if d.hasThis then 1 else 0

theorem receivers_le (d : Method) : d.receivers ≤ 1 := by
  unfold receivers
  split <;> omega

/-- If sixteen bits suffice, an argument is found after the receiver and those before it. -/
theorem toNat_slotOf_of_add_lt {d : Method} {place : Nat} (h : place + d.receivers < 65536) :
    (d.slotOf place).toNat = place + d.receivers := by
  rw [toNat_slotOf]
  exact Nat.mod_eq_of_lt h

/-- These stand for the declared arguments, in order: boxed if of a value type. -/
def Captured (d : Method) (args xs : List Value) : Prop :=
  List.Forall₂ (fun p x => if p.1.ty.isValueType then ∃ ref, x = .boxed ref p.2 else x = p.2)
    (d.params.zip (args.drop d.receivers)) xs

/-- Every argument that is captured has a slot, unless there are too many to number. -/
theorem lt_argCount {d : Method} (h : d.params.length < 65535) :
    ∀ a ∈ (Capture.ofMethod d).arguments, a.slot < d.argCount := by
  intro a ha
  obtain ⟨i, p, hp, rfl⟩ := Capture.exists_param_of_mem ha
  have hi : i < d.params.length := (List.getElem?_eq_some_iff.1 hp).1
  have hone := d.receivers_le
  rw [UInt16.lt_iff_toNat_lt, argCount, toNat_slotOf_of_add_lt (by omega),
    toNat_slotOf_of_add_lt (by omega)]
  omega

/-- If every captured argument has a slot, then sixteen bits suffice to number them. -/
theorem lt_of_capture {d : Method}
    (h : ∀ a ∈ (Capture.ofMethod d).arguments, a.slot < d.argCount) :
    d.params.length + d.receivers < 65536 := by
  have hlt (place : Nat) (hp : place < d.params.length) :
      (place + d.receivers) % 65536 < (d.params.length + d.receivers) % 65536 := by
    have ha := Capture.getElem?_ofMethod d place
    rw [List.getElem?_eq_getElem hp, Option.map_some] at ha
    have hslot := UInt16.lt_iff_toNat_lt.1 (h _ (List.mem_of_getElem? ha))
    rw [toNat_slotOf, Method.argCount, toNat_slotOf] at hslot
    exact hslot
  have hone := d.receivers_le
  -- The argument with the slot of the number of arguments would have none.
  rcases Nat.lt_or_ge (d.params.length + d.receivers) 65536 with hsmall | hlarge
  · exact hsmall
  · rcases Nat.lt_or_ge d.params.length 65536 with hn | hn
    · have := hlt 0 (by omega)
      omega
    · have := hlt (d.params.length - 65536) (by omega)
      omega

/-- A snapshot stands for the declared arguments. -/
theorem captured_of_holds {d : Method} {args xs : List Value}
    (hsmall : d.params.length + d.receivers < 65536)
    (h : List.Forall₂ (fun a x => a.Holds args x) (Capture.ofMethod d).arguments xs) :
    d.Captured args xs := by
  have captured (ps : List Parameter) (place : Nat) (xs : List Value)
      (hps : place + ps.length + d.receivers < 65536)
      (h : List.Forall₂ (fun a x => a.Holds args x) (Capture.argumentsFrom d place ps) xs) :
      List.Forall₂ (fun p x => if p.1.ty.isValueType then ∃ ref, x = .boxed ref p.2 else x = p.2)
        (ps.zip (args.drop (place + d.receivers))) xs := by
    induction ps generalizing place xs with
    | nil =>
      cases h
      exact .nil
    | cons p rest ih =>
      cases h with
      | cons hx hrest =>
        rw [List.length_cons] at hps
        obtain ⟨v, hv, hx⟩ := hx
        have hv : args[(d.slotOf place).toNat]? = some v := hv
        rw [toNat_slotOf_of_add_lt (by omega)] at hv
        obtain ⟨hlt, hget⟩ := List.getElem?_eq_some_iff.1 hv
        rw [List.drop_eq_getElem_cons hlt, hget, List.zip_cons_cons]
        refine .cons ?_ ?_
        · cases hp : p.ty.isValueType <;> simp only [hp] at hx ⊢ <;> simpa using hx
        · have hnext := ih (place + 1) _ (by omega) hrest
          rw [Nat.add_right_comm] at hnext
          exact hnext
  have hall := captured d.params 0 xs (by omega) h
  rw [Nat.zero_add] at hall
  exact hall

/-- Captured arguments are boxed only if they are of a value type. -/
theorem isValueType_of_boxed {d : Method} {a : CapturedArgument}
    (ha : a ∈ (Capture.ofMethod d).arguments) {t : Ty} (ht : a.boxed? = some t) :
    t.isValueType = true := by
  obtain ⟨i, p, -, rfl⟩ := Capture.exists_param_of_mem ha
  dsimp only at ht
  split at ht
  · next hp =>
    cases ht
    exact hp
  · cases ht

end Method

end Interpose
