import Interpose.Machine.Run
/-!
# Calls one after another

The machine as it is used: it keeps what calls leave behind, and a counter of the live
activations, which goes up before the code of a method runs and down after it, however it
ended. A method runs inside the run of its caller, to a depth that `fuel` bounds.

Results:
* `execute_eq`: a method that cannot be made ready to run leaves the session as it was.
-/
namespace Interpose

/-- What the machine keeps between calls (`Vm`). -/
structure Session where
  world : World := {}
  /-- The number of live activations. -/
  depth : Nat := 0

namespace Session

/-- The session with one more activation. -/
def enter (s : Session) : Session := { s with depth := s.depth + 1 }

/-- The session with one activation less. -/
def leave (s : Session) : Session := { s with depth := s.depth - 1 }

/-- A failure, with the exception made that it asks for. -/
def settle (s : Session) (t : Trap) : Failure × Session :=
  let (failure, heap) := t.settle s.world.heap
  (failure, { s with world := { s.world with heap := heap } })

end Session

/-- How a call ended, and the session after it. -/
abbrev Ended := Except Failure Value × Session

/-- What becomes of an activation: it goes on, or it ends. -/
inductive Turn
  | on (a : Activation)
  | ended (result : Except Failure Value)

/-- Goes on with an activation, if it has not ended. -/
def Turn.follow (loop : Activation → Session → Option Ended) (s : Session) : Turn → Option Ended
  | .on a => loop a s
  | .ended result => some (result, s)

/-- What becomes of an activation in which something failed. -/
def Activation.fail (a : Activation) : Failure → Turn
  | .thrown v =>
    match a.catch? v with
    | some a => .on a
    | none => .ended (.error (.thrown v))
  | .fault e => .ended (.error (.fault e))

/-- What becomes of an activation whose call has ended. -/
def Caller.receive (c : Caller) : Except Failure Value → Turn
  | .ok v => .on (Machine.resume c v)
  | .error failure => c.activation.fail failure

namespace Machine

section

variable (vm : Machine) (loop : Activation → Session → Option Ended)

/-- Runs a method, whose code `loop` runs (`Vm::execute`). -/
def execute (typeName : String) (d : Method) (args : List Value) (s : Session) : Option Ended :=
  let name := typeName ++ "::" ++ d.name
  if args.length ≠ d.argCount.toNat then
    some (.error (.fault (.argumentCount name d.argCount.toNat args.length)), s)
  else match d.body? with
    | none => some (.error (.fault (.noBody name)), s)
    | some b =>
      if maxCallDepth ≤ s.depth then some (.error (.fault (.callDepth maxCallDepth)), s)
      else
        let ended : Option Ended := match b.regions with
          | .error e => some (.error (.fault (.code e)), s.enter)
          | .ok regions =>
            loop ⟨⟨typeName, d, b, b.code.toArray, regions⟩,
              { args := args, locals := b.locals.toList.map fun s => .initial s.ty }⟩ s.enter
        ended.map fun (result, s) => (result, s.leave)

/-- Carries out a call and waits for its end. -/
def callMember (member : MemberRef) (args : List Value) (current : Value) (s : Session) :
    Option Ended :=
  match member.scope with
  | .module =>
    match vm.module.dispatch? member with
    | none => some (.error (.fault (.unknownMethod member.fullName)), s)
    | some d => execute loop member.owner d args s
  | .library _ =>
    match vm.host.call s.world member args current with
    | (.ok v, w) => some (.ok v, { s with world := w })
    | (.error t, w) =>
      let (failure, s) := { s with world := w }.settle t
      some (.error failure, s)

/-- Executes the instruction at the current position, with the calls that it makes. -/
def turn (a : Activation) (s : Session) : Option (Turn × Session) :=
  let r := a.routine
  match r.code[a.frame.pc]? with
  | none => some (.ended (.error (.fault (.fellOffEnd r.fullName))), s)
  | some i =>
    match a.frame.step r vm.module.imports s.world.heap i with
    | .error t =>
      let (failure, s) := s.settle t
      some (a.fail failure, s)
    | .ok (.next f heap) =>
      some (.on { a with frame := f }, { s with world := { s.world with heap := heap } })
    | .ok (.ret v) => some (.ended (.ok v), s)
    | .ok (.call member args keeps f) =>
      let c : Caller := ⟨{ a with frame := f }, keeps⟩
      (vm.callMember loop member args r.describe s).map fun (result, s) => (c.receive result, s)

end

/-- Runs the code of an activation to its end, calls included (`Vm::run`). -/
def loop (vm : Machine) : Nat → Activation → Session → Option Ended
  | 0, _, _ => none
  | fuel + 1, a, s =>
    (vm.turn (vm.loop fuel) a s).bind fun (t, s) => t.follow (vm.loop fuel) s

/-- Calls a method of the module from outside (`Vm::invoke`). -/
def invokeIn (vm : Machine) (fuel : Nat) (s : Session) (typeName method : String)
    (args : List Value) : Option Ended :=
  match vm.module.type? typeName with
  | none => some (.error (.fault (.unknownType typeName)), s)
  | some t =>
    match t.method? method with
    | none => some (.error (.fault (.unknownMethod (typeName ++ "::" ++ method))), s)
    | some d => execute (vm.loop fuel) typeName d args s

theorem execute_eq (loop : Activation → Session → Option Ended) (typeName : String) (d : Method)
    (args : List Value) (s : Session) :
    execute loop typeName d args s =
      match d.activate typeName args s.depth with
      | .error e => some (.error (.fault e), s)
      | .ok a => (loop a s.enter).map fun (result, s) => (result, s.leave) := by
  unfold execute Method.activate
  dsimp only
  split
  · rfl
  · cases d.body? with
    | none => rfl
    | some b =>
      dsimp only
      split
      · rfl
      · cases b.regions with
        | error e => rfl
        | ok regions => rfl

end Machine

end Interpose
