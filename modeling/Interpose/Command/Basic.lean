import Interpose.Command.Disassembly
import Interpose.Decimal.Reading
import Interpose.Document.Encode
import Interpose.Machine.Run
import Interpose.Weave.Pass
/-!
# Commands

What each command does with a module once it is read: weave it, or run a method of it
and print the hooks it calls.
-/
namespace Interpose.Command

/-- What a command prints, and its exit code. -/
structure Printed where
  exit : UInt32 := 0
  stdout : String := ""
  stderr : String := ""

/-- The end of a command by an error, after what was printed so far. -/
def Printed.fail (p : Printed) (message : String) : Printed :=
  { p with exit := 1, stderr := p.stderr ++ "Error: " ++ message ++ "\n" }

/-! ## Weaving -/

/-- Adds the libraries that a module does not refer to by name. -/
def addLibraries (m : Module) : List Library → Module
  | [] => m
  | l :: rest =>
    if m.references.any (·.name == l.name) then addLibraries m rest
    else addLibraries { m with references := m.references ++ [l] } rest

/-- Adds the libraries that declare what the machine offers (`cmd_weave`). -/
def linkHost (c : WeaveConfig) (m : Module) : Module :=
  addLibraries m (hostLibraries c.dispatcherType c.hookLibrary)

/-- Weaves a module; gives what is printed and the document of the woven module (`cmd_weave`). -/
def weave (c : WeaveConfig) (link : Bool) (m : Module) : Printed × Option Json :=
  match (if link then linkHost c m else m).weave c false with
  | .error e => (Printed.fail {} e.message, none)
  | .ok (report, woven) =>
    let printed : Printed := { stderr := report.text }
    match Document.encodeModule woven with
    | .error e => (printed.fail e.message, none)
    | .ok document => (printed, some document)

/-! ## Running -/

/-- Steps granted to a run. -/
def stepBudget : Nat := 0x4000000000000000

/-- Reads an argument as a value of its parameter's type (`parse_arg`). -/
def readArgument (text : String) (ty : Ty) : Except String Value :=
  let describe (e : Decimal.ReadError) :=
    ticked text ++ " is not a valid " ++ ty.name ++ ": " ++ e.message
  match ty with
  | .int32 => (Value.int32 <$> Decimal.readInt32 text).mapError describe
  | .int64 => (Value.int64 <$> Decimal.readInt64 text).mapError describe
  | .float64 => (Value.float64 <$> Decimal.readFloat text).mapError describe
  | .bool => (Frame.ofBool <$> Decimal.readBool text).mapError describe
  | _ => .ok (if text = "null" then .null else .text text)

/-- Reads the arguments of a method. -/
def readArguments : List String → List Parameter → Except String (List Value)
  | text :: texts, p :: params => do
    let v ← readArgument text p.ty
    return v :: (← readArguments texts params)
  | _, _ => .ok []

/-- The line printed for an announcement. -/
def eventLine (e : Event) : String :=
  match e.announcement with
  | .init receiver method arguments =>
    "# init(" ++ e.heap.text receiver ++ ", " ++ e.heap.text method ++ ", [" ++
      ", ".intercalate (arguments.map e.heap.text) ++ "])\n"
  | .entry => "# entry\n"
  | .exit => "# exit\n"
  | .exception v => "# exception: " ++ e.heap.text v ++ "\n"
  | .console line => line ++ "\n"

/-- Runs a method with these arguments and prints what it announces and its value. -/
def call (m : Module) (d : Method) (dispatcherType typeName : String) (args : List Value) :
    Printed :=
  let vm : Machine := ⟨m, { dispatcherType := dispatcherType, console := true }⟩
  match vm.invoke stepBudget {} typeName d.name args with
  | none => Printed.fail {} "the run does not end"
  | some o =>
    let printed : Printed := { stdout := String.join (o.world.events.toList.map eventLine) }
    match o.result with
    | .error e => printed.fail (e.message o.world.heap)
    | .ok v =>
      if d.returnType.isVoid then printed
      else { printed with stdout := printed.stdout ++ "=> " ++ o.world.heap.text v ++ "\n" }

/-- Runs a method found by name, with arguments given as texts (`cmd_run`). An instance method has
no receiver. -/
def run (m : Module) (dispatcherType typeName method : String) (args : List String) : Printed :=
  let name := ticked (typeName ++ "::" ++ method)
  match m.method? typeName method with
  | none => Printed.fail {} ("method " ++ name ++ " not found")
  | some d =>
    if args.length ≠ d.params.length then
      Printed.fail {} (name ++ " takes " ++ toString d.params.length ++ " arguments, got " ++
        toString args.length)
    else match readArguments args d.params with
      | .error message => Printed.fail {} message
      | .ok values =>
        call m d dispatcherType typeName (if d.hasThis then .null :: values else values)

end Interpose.Command
