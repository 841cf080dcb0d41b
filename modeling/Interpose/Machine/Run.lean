import Interpose.Machine.Frame
import Interpose.Machine.Host
import Interpose.Module
/-!
# Running methods

The machine runs a method of a module with the activations of its callers below it, at
most `maxCallDepth` of them at once. An exception goes up the activations until a
handler catches it; a fault ends the run. A run takes a number of steps that its caller
grants.

Results:
* `run_succ_of_running`, `run_succ_of_done`: one step of a run.
* `run_mono`: granting more steps never changes how a run ends.
-/
namespace Interpose

/-- Activations that may be live at once. -/
def maxCallDepth : Nat := 64

/-- A method that runs, and its state. -/
structure Activation where
  routine : Routine
  frame : Frame

/-- The activation in its handler for an exception, if it has one. -/
def Activation.catch? (a : Activation) (v : Value) : Option Activation :=
  (a.frame.catch? a.routine.regions v).map fun f => { a with frame := f }

/-- An activation that waits for a call to return. -/
structure Caller where
  activation : Activation
  /-- Does the value of the call go on its stack? -/
  keeps : Bool

/-- The state of the machine during a run. -/
structure State where
  current : Activation
  /-- The activations that wait, the latest first. -/
  callers : List Caller
  world : World

/-- How a run ends: a value or a failure, and what it leaves behind. -/
structure Outcome where
  result : Except Failure Value
  world : World

/-- A state to go on from, or the end of the run. -/
inductive Progress
  | running (s : State)
  | done (o : Outcome)

/-- A module and the set-up of the machine that runs it. -/
structure Machine where
  module : Module
  host : Host := {}

/-- The method that a reference to the module's own members means. -/
def Module.dispatch? (m : Module) (member : MemberRef) : Option Method :=
  (m.type? member.owner).bind fun t =>
    t.methods.find? fun d => d.name == member.name && d.paramTypes == member.params

/-- A method made ready to run, with `live` activations below it (`Vm::execute`). -/
def Method.activate (d : Method) (typeName : String) (args : List Value) (live : Nat) :
    Except MachineFault Activation :=
  let name := typeName ++ "::" ++ d.name
  if args.length ≠ d.argCount.toNat then
    .error (.argumentCount name d.argCount.toNat args.length)
  else match d.body? with
    | none => .error (.noBody name)
    | some b =>
      if maxCallDepth ≤ live then .error (.callDepth maxCallDepth)
      else match b.regions with
        | .error e => .error (.code e)
        | .ok regions =>
          .ok ⟨⟨typeName, d, b, b.code.toArray, regions⟩,
            { args := args, locals := b.locals.toList.map fun s => .initial s.ty }⟩

namespace Machine

/-- The end of a run with a fault. -/
def faulted (w : World) (e : MachineFault) : Progress := .done ⟨.error (.fault e), w⟩

/-- Goes on after a call that gave a value. -/
def resume (c : Caller) (v : Value) : Activation :=
  let f := c.activation.frame
  { c.activation with frame := (if c.keeps then f.push v else f).advance }

/-- Takes an exception up the activations to the first handler that catches it. -/
def unwind (w : World) (v : Value) (a : Activation) : List Caller → Progress
  | [] =>
    match a.catch? v with
    | some a => .running ⟨a, [], w⟩
    | none => .done ⟨.error (.thrown v), w⟩
  | c :: rest =>
    match a.catch? v with
    | some a => .running ⟨a, c :: rest, w⟩
    | none => unwind w v c.activation rest

/-- Goes on after an instruction that failed. -/
def trap (w : World) (t : Trap) (a : Activation) (callers : List Caller) : Progress :=
  let (failure, heap) := t.settle w.heap
  let w := { w with heap := heap }
  match failure with
  | .thrown v => unwind w v a callers
  | .fault e => faulted w e

/-- Returns a value to the caller, or ends the run with it. -/
def giveBack (w : World) (v : Value) : List Caller → Progress
  | [] => .done ⟨.ok v, w⟩
  | c :: rest => .running ⟨resume c v, rest, w⟩

/-- Carries out a call: a method of the module gets an activation of its own, a member of a
library is the machine's (`Vm::call`). -/
def call (vm : Machine) (w : World) (member : MemberRef) (args : List Value) (c : Caller)
    (callers : List Caller) : Progress :=
  match member.scope with
  | .module =>
    match vm.module.dispatch? member with
    | none => faulted w (.unknownMethod member.fullName)
    | some d =>
      match d.activate member.owner args (callers.length + 1) with
      | .error e => faulted w e
      | .ok a => .running ⟨a, c :: callers, w⟩
  | .library _ =>
    match vm.host.call w member args c.activation.routine.describe with
    | (.ok v, w) => .running ⟨resume c v, callers, w⟩
    | (.error t, w) => trap w t c.activation callers

/-- Executes the instruction at the current position. -/
def step (vm : Machine) (s : State) : Progress :=
  let r := s.current.routine
  let f := s.current.frame
  match r.code[f.pc]? with
  | none => faulted s.world (.fellOffEnd r.fullName)
  | some i =>
    match f.step r vm.module.imports s.world.heap i with
    | .error t => trap s.world t s.current s.callers
    | .ok (.next f heap) =>
      .running { s with
        current := { s.current with frame := f }
        world := { s.world with heap := heap } }
    | .ok (.ret v) => giveBack s.world v s.callers
    | .ok (.call member args keeps f) =>
      vm.call s.world member args ⟨{ s.current with frame := f }, keeps⟩ s.callers

/-- Runs for at most `fuel` steps (`Vm::run`). -/
def run (vm : Machine) : Nat → State → Option Outcome
  | 0, _ => none
  | fuel + 1, s =>
    match vm.step s with
    | .running s' => vm.run fuel s'
    | .done o => some o

theorem run_succ_of_running {vm : Machine} {s s' : State} (h : vm.step s = .running s')
    (fuel : Nat) : vm.run (fuel + 1) s = vm.run fuel s' := by
  simp [run, h]

theorem run_succ_of_done {vm : Machine} {s : State} {o : Outcome} (h : vm.step s = .done o)
    (fuel : Nat) : vm.run (fuel + 1) s = some o := by
  simp [run, h]

theorem run_mono {vm : Machine} {fuel more : Nat} {s : State} {o : Outcome}
    (h : vm.run fuel s = some o) (hle : fuel ≤ more) : vm.run more s = some o := by
  induction fuel generalizing more s with
  | zero => simp [run] at h
  | succ fuel ih =>
    obtain ⟨more, rfl⟩ : ∃ k, more = k + 1 := ⟨more - 1, by omega⟩
    cases hs : vm.step s with
    | running s' =>
      rw [run_succ_of_running hs] at h ⊢
      exact ih h (by omega)
    | done o' =>
      rw [run_succ_of_done hs] at h ⊢
      exact h

/-- The start of a run of a method, found by name. -/
def start (vm : Machine) (w : World) (typeName method : String) (args : List Value) : Progress :=
  match vm.module.type? typeName with
  | none => faulted w (.unknownType typeName)
  | some t =>
    match t.method? method with
    | none => faulted w (.unknownMethod (typeName ++ "::" ++ method))
    | some d =>
      match d.activate typeName args 0 with
      | .error e => faulted w e
      | .ok a => .running ⟨a, [], w⟩

/-- Calls a method of the module and runs it for at most `fuel` steps (`Vm::invoke`). An instance
method takes its receiver as the first argument. -/
def invoke (vm : Machine) (fuel : Nat) (w : World) (typeName method : String)
    (args : List Value) : Option Outcome :=
  match vm.start w typeName method args with
  | .done o => some o
  | .running s => vm.run fuel s

end Machine

end Interpose
