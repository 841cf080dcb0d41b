import Interpose.Command.Arguments
import Interpose.Command.Basic
import Interpose.Document.Text
/-!
# The command line

Reads the files that a request names, has the command carried out, and prints what it
gives. A file that cannot be read ends the command; a command line that asks for
nothing ends with exit code 2.
-/
namespace Interpose.Command

/-- The contents of a file as a document. -/
def load {α : Type} (path : String) (dec : Json → Decoded α) : ExceptT String IO α := do
  match ← (IO.FS.readFile path).toBaseIO with
  | .error e => throw (path ++ ": " ++ toString e)
  | .ok text =>
    match Document.read dec text with
    | .error message => throw (path ++ ": " ++ message)
    | .ok a => return a

def loadConfig : Option String → ExceptT String IO WeaveConfig
  | none => return {}
  | some path => load path Document.decodeConfig

/-- Writes a file. -/
def save (path text : String) : ExceptT String IO Unit := do
  match ← (IO.FS.writeFile path text).toBaseIO with
  | .error e => throw (path ++ ": " ++ toString e)
  | .ok _ => return

/-- Prints what a command printed. -/
def Printed.flush (p : Printed) : IO Unit := do
  (← IO.getStderr).putStr p.stderr
  let out ← IO.getStdout
  out.putStr p.stdout
  out.flush

/-- Carries a request out; gives the exit code. -/
def perform : Request → ExceptT String IO UInt32
  | .weave input output? config? link => do
    let m ← load input Document.decodeModule
    let config ← loadConfig config?
    let (printed, document?) := weave config link m
    printed.flush
    match document?, output? with
    | none, _ => return printed.exit
    | some document, some path => save path (Document.write document)
    | some document, none => Printed.flush { stdout := Document.write document }
    return printed.exit
  | .disassemble input => do
    let m ← load input Document.decodeModule
    Printed.flush { stdout := disassemble m }
    return 0
  | .run input typeName method args dispatcherType => do
    let m ← load input Document.decodeModule
    let printed := run m dispatcherType typeName method args
    printed.flush
    return printed.exit

end Interpose.Command

open Interpose.Command in
def main (args : List String) : IO UInt32 := do
  match parse args with
  | .error e =>
    Printed.flush { stderr := "Error: " ++ e.message ++ "\n" }
    return 2
  | .ok request =>
    match ← (perform request).run with
    | .ok code => return code
    | .error message =>
      let printed := Printed.fail {} message
      printed.flush
      return printed.exit
