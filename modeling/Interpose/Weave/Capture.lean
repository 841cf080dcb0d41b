import Interpose.Method
/-!
# Snapshots of arguments

The instructions that copy a method's arguments, without the receiver and in the order
of declaration, into a fresh array of boxed values.

Results:
* `size_ofMethod`: one argument is captured per declared parameter.
* `getElem?_ofMethod`: which slot it is read from, and whether it is boxed.
-/
namespace Interpose

/-- How one argument is copied. -/
structure CapturedArgument where
  /-- The argument slot it is read from. -/
  slot : UInt16
  /-- Its declared type, if it is boxed. -/
  boxed? : Option Ty
deriving DecidableEq

/-- The arguments to copy, in order of declaration. -/
structure Capture where
  arguments : List CapturedArgument
deriving DecidableEq

namespace Capture

/-- The parameters from the given place of the declaration on. -/
def argumentsFrom (m : Method) : Nat → List Parameter → List CapturedArgument
  | _, [] => []
  | place, p :: rest =>
    ⟨m.slotOf place, if p.ty.isValueType then some p.ty else none⟩ ::
      argumentsFrom m (place + 1) rest

/-- The arguments of a method (`ParameterCapture::new`). The stored indices of its parameters play
no part. -/
def ofMethod (m : Method) : Capture := ⟨argumentsFrom m 0 m.params⟩

def size (c : Capture) : Nat := c.arguments.length

theorem length_argumentsFrom (m : Method) (place : Nat) (ps : List Parameter) :
    (argumentsFrom m place ps).length = ps.length := by
  induction ps generalizing place with
  | nil => rfl
  | cons p rest ih => simp [argumentsFrom, ih]

theorem size_ofMethod (m : Method) : (ofMethod m).size = m.params.length :=
  length_argumentsFrom m 0 m.params

theorem getElem?_argumentsFrom (m : Method) (place : Nat) (ps : List Parameter) (i : Nat) :
    (argumentsFrom m place ps)[i]? =
      ps[i]?.map fun p => ⟨m.slotOf (place + i), if p.ty.isValueType then some p.ty else none⟩ := by
  induction ps generalizing place i with
  | nil => rfl
  | cons p rest ih =>
    cases i with
    | zero => rfl
    | succ i =>
      rw [argumentsFrom, List.getElem?_cons_succ, List.getElem?_cons_succ, ih,
        Nat.succ_add_eq_add_succ]

theorem getElem?_ofMethod (m : Method) (i : Nat) :
    (ofMethod m).arguments[i]? =
      m.params[i]?.map fun p => ⟨m.slotOf i, if p.ty.isValueType then some p.ty else none⟩ := by
  have hfrom := getElem?_argumentsFrom m 0 m.params i
  rwa [Nat.zero_add] at hfrom

/-- Each argument that is captured is that of a parameter, in the slot of its place. -/
theorem exists_param_of_mem {m : Method} {a : CapturedArgument}
    (ha : a ∈ (ofMethod m).arguments) : ∃ i p, m.params[i]? = some p ∧
      a = ⟨m.slotOf i, if p.ty.isValueType then some p.ty else none⟩ := by
  obtain ⟨i, hi⟩ := List.mem_iff_getElem?.1 ha
  rw [getElem?_ofMethod] at hi
  obtain ⟨p, hp, rfl⟩ := Option.map_eq_some_iff.1 hi
  exact ⟨i, p, hp, rfl⟩

/-- Stores one argument at an index of the array. -/
def storeCode (array : SlotId) (index : Nat) (a : CapturedArgument) : List Instruction :=
  [.ldloc array, .ldcI4 (Int32.ofNat index), .ldarg a.slot] ++
    (a.boxed?.map Instruction.box).toList ++ [.plain .stelem]

/-- Stores arguments from an index on. -/
def storeAll (array : SlotId) : Nat → List CapturedArgument → List Instruction
  | _, [] => []
  | index, a :: rest => storeCode array index a ++ storeAll array (index + 1) rest

/-- The code that fills the array in this slot. -/
def code (c : Capture) (array : SlotId) : List Instruction :=
  [.ldcI4 (Int32.ofNat c.size), .newarr .object, .stloc array] ++ storeAll array 0 c.arguments

/-- Declares the slot of the array; gives it with the code that fills it
(`ParameterCapture::emit`). -/
def emit (c : Capture) (b : Body) : Except CodeError (SlotId × List Instruction × Body) := do
  let (array, b) ← b.addSynthetic .objectArray "<>params"
  return (array, c.code array, b)

end Capture

end Interpose
