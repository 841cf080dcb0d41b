import Interpose.Proofs.Weave.Snapshot
/-!
# Snapshots of arguments

The code that captures the arguments of a method, run wherever it stands. The stored indices of
the parameters play no part: where an argument is found follows from the place of its parameter
in the declaration and from whether there is a receiver.

Results:
* `Capture.emit_eq`: the snapshot has a slot of its own, unless all slots are taken.
* `Method.snapshot_of_holds`: what is captured, by the place of the parameters.
* `capture_snapshots`: the code runs to its end and leaves the snapshot, and nothing else.
-/
namespace Interpose

namespace Capture

/-- The slot of the snapshot is a new one, of which there are at most `0x10000`. -/
theorem emit_eq (c : Capture) (b : Body) :
    c.emit b = if b.locals.size < 0x10000 then
        .ok (UInt16.ofNat b.locals.size, c.code (UInt16.ofNat b.locals.size),
          { b with locals := b.locals.push ⟨.objectArray, some "<>params", true⟩ })
      else .error (.tooManySlots (b.locals.size + 1)) := by
  unfold emit Body.addSynthetic Body.addSlot
  dsimp only
  split <;> rfl

end Capture

namespace Method

/-- The values are a snapshot of the arguments: one for each declared parameter, the argument
itself or, if the parameter is of a value type, a box around it. -/
structure Snapshot (d : Method) (args xs : List Value) : Prop where
  length_eq : xs.length = d.params.length
  holds : ∀ i p, d.params[i]? = some p → ∃ v x, args[d.receivers + i]? = some v ∧
    xs[i]? = some x ∧ if p.ty.isValueType then ∃ ref, x = .boxed ref v else x = v

variable {d : Method} {args xs : List Value}

theorem snapshot_of_holds (hparams : d.params.length < 65535)
    (h : List.Forall₂ (fun a x => a.Holds args x) (Capture.ofMethod d).arguments xs) :
    d.Snapshot args xs := by
  refine ⟨h.length_eq.symm.trans (Capture.size_ofMethod d), fun i p hp => ?_⟩
  have ha := Capture.getElem?_ofMethod d i
  rw [hp, Option.map_some] at ha
  obtain ⟨x, hx, v, hv, hboxed⟩ := forall₂_getElem? h ha
  have hi : i < d.params.length := (List.getElem?_eq_some_iff.1 hp).1
  have hone := d.receivers_le
  rw [toNat_slotOf_of_add_lt (by omega), Nat.add_comm] at hv
  refine ⟨v, x, hv, hx, ?_⟩
  cases hvalue : p.ty.isValueType <;> simpa [hvalue] using hboxed

end Method

namespace Machine

/-- Capturing the arguments of a method declares one new slot. In any activation that has it, and
that was given as many arguments as the method takes, the code runs to its end. There the slot
refers to an array that was not there before, with a snapshot of the arguments. The stack, the
arguments, all other slots and all other arrays are as they were. -/
theorem capture_snapshots (d : Method) (hparams : d.params.length < 65535) (b : Body) :
    match (Capture.ofMethod d).emit b with
    | .error e => 0x10000 ≤ b.locals.size ∧ e = .tooManySlots (b.locals.size + 1)
    | .ok (array, code, b') =>
      array.toNat = b.locals.size ∧
      b' = { b with locals := b.locals.push ⟨.objectArray, some "<>params", true⟩ } ∧
      ∀ (vm : Machine) (r : Routine) (f : Frame) (w : World) (callers : List Caller),
        CodeAt r.code.toList f.pc code → array.toNat < f.locals.length →
        f.args.length = d.argCount.toNat →
        ∃ heap,
          vm.Steps ⟨⟨r, f⟩, callers, w⟩
            ⟨⟨r, { f with
                locals := f.locals.set array.toNat (.array w.heap.arrays.size)
                pc := f.pc + code.length }⟩, callers, { w with heap := heap }⟩ ∧
          d.Snapshot f.args (heap.items w.heap.arrays.size).toList ∧
          w.heap.Keeps w.heap.arrays.size heap := by
  rw [Capture.emit_eq]
  by_cases hroom : b.locals.size < 0x10000
  · rw [if_pos hroom]
    have hslot : (UInt16.ofNat b.locals.size).toNat = b.locals.size := by
      rw [UInt16.toNat_ofNat']
      exact Nat.mod_eq_of_lt hroom
    refine ⟨hslot, rfl, fun vm r f w callers hat hlocals hargs => ?_⟩
    have hslots : ∀ a ∈ (Capture.ofMethod d).arguments, a.slot.toNat < f.args.length := by
      intro a ha
      rw [hargs]
      exact UInt16.lt_iff_toNat_lt.1 (Method.lt_argCount hparams a ha)
    have hsize : (Capture.ofMethod d).size < 2 ^ 31 := by
      rw [Capture.size_ofMethod]
      omega
    obtain ⟨xs, heap, hproceeds, hholds, rfl, hkeeps⟩ := proceeds_capture vm (w := w) hat hlocals
      hslots (fun a ha t ht => Method.isValueType_of_boxed ha ht) hsize
    exact ⟨heap, steps_of_proceeds hproceeds callers, Method.snapshot_of_holds hparams hholds,
      hkeeps⟩
  · rw [if_neg hroom]
    exact ⟨Nat.not_lt.1 hroom, rfl⟩

/-- An instance method of which the parameters are not stored in order. -/
def shuffled : Method where
  name := "Rename"
  params := [⟨1, "name", .string⟩, ⟨0, "times", .int32⟩]

/-- The receiver is left out, and of the two arguments the number is boxed. -/
theorem shuffled_capture_snapshots :
    let code := (Capture.ofMethod shuffled).code 1
    let r : Routine := ⟨"App", shuffled, .empty, #[.plain .nop] ++ code.toArray, []⟩
    let f : Frame := {
      args := [.object 0 "App" "", .text "b", .int32 3]
      locals := [.int32 9, .null]
      stack := [.int32 4]
      pc := 1 }
    ∀ vm : Machine, ∃ heap ref,
      vm.Steps ⟨⟨r, f⟩, [], {}⟩
        ⟨⟨r, { f with locals := [.int32 9, .array 0], pc := 13 }⟩, [], { heap := heap }⟩ ∧
      (heap.items 0).toList = [.text "b", .boxed ref (.int32 3)] := by
  intro code r f vm
  have hat : CodeAt r.code.toList f.pc code := by
    intro k i hi
    show (Instruction.plain .nop :: code)[1 + k]? = some i
    rw [Nat.add_comm, List.getElem?_cons_succ]
    exact hi
  have hcapture := capture_snapshots shuffled (by decide) { locals := #[⟨.int32, none, false⟩] }
  rw [Capture.emit_eq, if_pos (by decide)] at hcapture
  obtain ⟨-, -, hrun⟩ := hcapture
  obtain ⟨heap, hsteps, ⟨hlength, hholds⟩, -⟩ := hrun vm r f {} [] hat (by decide) (by decide)
  obtain ⟨v, x, hv, hx, hname⟩ := hholds 0 _ rfl
  obtain ⟨v', x', hv', hx', ref, htimes⟩ := hholds 1 _ rfl
  obtain rfl : Value.text "b" = v := Option.some.inj hv
  obtain rfl : Value.int32 3 = v' := Option.some.inj hv'
  refine ⟨heap, ref, hsteps, ?_⟩
  rw [← htimes, ← show x = .text "b" from hname]
  refine List.ext_getElem? fun i => ?_
  match i with
  | 0 => exact hx
  | 1 => exact hx'
  | i + 2 => exact List.getElem?_eq_none (Nat.le_trans (Nat.le_of_eq hlength) (Nat.le_add_left 2 i))

end Machine

end Interpose
