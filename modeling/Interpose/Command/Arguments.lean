import Interpose.Weave.Config
/-!
# Command lines

The words of a command line as a request. Options may stand before and between the
operands of a command; where its operands go on without end, everything from the first
of those is an operand, so that a negative number needs no quoting.
-/
namespace Interpose.Command

/-- What a command line asks for. -/
inductive Request
  /-- Weave a module; the woven module goes to `output?`, or is printed. -/
  | weave (input : String) (output? config? : Option String) (link : Bool)
  | disassemble (input : String)
  | run (input typeName method : String) (args : List String) (dispatcherType : String)
deriving DecidableEq

/-- Why a command line asks for nothing. -/
inductive UsageError
  | noCommand
  | unknownCommand (name : String)
  | unknownOption (word : String)
  | repeatedOption (name : String)
  | missingValue (name : String)
  | unexpectedValue (name : String)
  | missingOperand (name : String)
  | unexpectedOperand (word : String)
deriving DecidableEq

def UsageError.message : UsageError → String
  | noCommand => "a command is needed: weave, disasm or run"
  | unknownCommand name => "unknown command " ++ name
  | unknownOption word => "unknown option " ++ word
  | repeatedOption name => "option --" ++ name ++ " is given twice"
  | missingValue name => "option --" ++ name ++ " needs a value"
  | unexpectedValue name => "option --" ++ name ++ " takes no value"
  | missingOperand name => "the " ++ name ++ " is missing"
  | unexpectedOperand word => "unexpected operand " ++ word

/-- An option that a command knows. -/
structure Switch where
  name : String
  letter? : Option Char := none
  takesValue : Bool := true

/-- The operands of a command in order, and its options with their values. -/
structure Words where
  operands : List String := []
  options : List (String × String) := []

/-- The parts of a text before and after its first `=`. -/
def splitEquals : List Char → List Char × Option (List Char)
  | [] => ([], none)
  | '=' :: rest => ([], some rest)
  | c :: rest =>
    let (name, value?) := splitEquals rest
    (c :: name, value?)

/-- The option that a word names, and the value that the word itself gives it. -/
def switch? (known : List Switch) (word : String) : Option (Switch × Option String) :=
  match word.toList with
  | '-' :: '-' :: rest =>
    let (name, value?) := splitEquals rest
    (known.find? (·.name.toList == name)).map (·, value?.map String.ofList)
  | '-' :: letter :: rest =>
    let value := match rest with
      | '=' :: value => value
      | value => value
    (known.find? (·.letter? == some letter)).map
      (·, if rest.isEmpty then none else some (String.ofList value))
  | _ => none

/-- Does a word look like an option? -/
def looksLikeOption (word : String) : Bool :=
  match word.toList with
  | '-' :: _ :: _ => true
  | _ => false

/-- Takes the words of a command apart. With `open? = some n` its operands go on without
end after the first `n`. -/
def takeApart (known : List Switch) (open? : Option Nat) (w : Words) :
    List String → Except UsageError Words
  | [] => .ok w
  | word :: rest =>
    if open?.any (· < w.operands.length) then
      .ok { w with operands := w.operands ++ word :: rest }
    else if word = "--" then .ok { w with operands := w.operands ++ rest }
    else match switch? known word with
      | none =>
        if looksLikeOption word && !open?.any (· ≤ w.operands.length) then
          .error (.unknownOption word)
        else takeApart known open? { w with operands := w.operands ++ [word] } rest
      | some (s, value?) =>
        if (w.options.lookup s.name).isSome then .error (.repeatedOption s.name)
        else
          let chosen (value : String) : Words :=
            { w with options := w.options ++ [(s.name, value)] }
          match s.takesValue, value?, rest with
          | false, none, rest => takeApart known open? (chosen "") rest
          | false, some _, _ => .error (.unexpectedValue s.name)
          | true, some value, rest => takeApart known open? (chosen value) rest
          | true, none, value :: rest => takeApart known open? (chosen value) rest
          | true, none, [] => .error (.missingValue s.name)

def Words.option? (w : Words) (name : String) : Option String := w.options.lookup name

def weaveOptions : List Switch :=
  [⟨"output", some 'o', true⟩, ⟨"config", some 'c', true⟩, ⟨"link-runtime", none, false⟩]

def runOptions : List Switch := [⟨"dispatcher", none, true⟩]

/-- A command that works on one module and nothing else. -/
def oneModule (w : Words) (f : String → Request) : Except UsageError Request :=
  match w.operands with
  | [] => .error (.missingOperand "module")
  | [input] => .ok (f input)
  | _ :: word :: _ => .error (.unexpectedOperand word)

/-- The request of a command line. -/
def parse : List String → Except UsageError Request
  | [] => .error .noCommand
  | "weave" :: rest => do
    let w ← takeApart weaveOptions none {} rest
    oneModule w fun input =>
      .weave input (w.option? "output") (w.option? "config") (w.option? "link-runtime").isSome
  | "disasm" :: rest => do
    oneModule (← takeApart [] none {} rest) .disassemble
  | "run" :: rest => do
    let w ← takeApart runOptions (some 3) {} rest
    match w.operands with
    | input :: typeName :: method :: args =>
      return .run input typeName method args
        ((w.option? "dispatcher").getD defaultDispatcherType)
    | [] => throw (.missingOperand "module")
    | [_] => throw (.missingOperand "type")
    | _ => throw (.missingOperand "method")
  | name :: _ => .error (.unknownCommand name)

end Interpose.Command
