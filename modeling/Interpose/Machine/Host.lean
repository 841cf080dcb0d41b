import Interpose.Machine.Failure
import Interpose.Member
import Interpose.Weave.Symbol
/-!
# The host: members the machine offers

The hooks of the dispatcher type and the few members of the system library that code
calls, and the libraries that declare them. Each hook can be listened to; what is
announced to a listener is recorded with the heap of that moment.

Results:
* `call_getInstance`: the accessor of the dispatcher type gives the dispatcher.
-/
namespace Interpose

/-- The hooks that are listened to. -/
structure Listeners where
  init : Bool := true
  entry : Bool := true
  exit : Bool := true
  exception : Bool := true
deriving DecidableEq

/-- What is announced. -/
inductive Announcement
  | init (receiver method : Value) (arguments : List Value)
  | entry
  | exit
  | exception (v : Value)
  | console (line : String)
deriving DecidableEq

/-- An announcement, and the heap when it was made. -/
structure Event where
  announcement : Announcement
  heap : Heap

/-- What calls leave behind: the heap, printed lines, and announcements. -/
structure World where
  heap : Heap := {}
  output : Array String := #[]
  events : Array Event := #[]
deriving Inhabited

namespace World

def announce (w : World) (a : Announcement) : World :=
  { w with events := w.events.push ⟨a, w.heap⟩ }

/-- Announces if someone listens. -/
def announceIf (w : World) (listening : Bool) (a : Announcement) : World :=
  if listening then w.announce a else w

end World

/-- How the members that the machine offers are set up. -/
structure Host where
  dispatcherType : String := defaultDispatcherType
  listeners : Listeners := {}
  /-- Are printed lines announced as well? -/
  console : Bool := false
deriving DecidableEq

/-- A text with every `{0}` replaced, from left to right. -/
def fillPlaceholders (filling : List Char) : List Char → List Char
  | '\x7b' :: '0' :: '\x7d' :: rest => filling ++ fillPlaceholders filling rest
  | c :: rest => c :: fillPlaceholders filling rest
  | [] => []

namespace Host

/-- Calls a hook of the dispatcher type (`Runtime::call_hook`). -/
def callHook (host : Host) (w : World) (member : MemberRef) (args : List Value) :
    Except Trap Value × World :=
  let unresolved : Except Trap Value := .error (.fault (.unresolvedCall member.fullName))
  if member.name = "get_Instance" then (.ok .dispatcher, w)
  else match args with
    | [] => (unresolved, w)
    | .dispatcher :: rest =>
      match member.name, rest with
      | "Init", [receiver, method, array] =>
        let arguments := (w.heap.elements? array).getD #[]
        (.ok .null, w.announceIf host.listeners.init (.init receiver method arguments.toList))
      | "OnEntry", [] => (.ok .null, w.announceIf host.listeners.entry .entry)
      | "OnExit", [] => (.ok .null, w.announceIf host.listeners.exit .exit)
      | "OnException", [v] => (.ok .null, w.announceIf host.listeners.exception (.exception v))
      | _, _ => (unresolved, w)
    | _ :: _ => (.error (.raise .nullReference), w)

/-- The text of an argument; of a missing one, the empty text. -/
def argumentText (w : World) (args : List Value) (index : Nat) : String :=
  (args[index]?.map w.heap.text).getD ""

/-- Joins the texts of an array's elements. -/
def callJoin (w : World) (args : List Value) : Except Trap Value :=
  match args[1]?.bind w.heap.elements? with
  | none => .error (.raise (.nullReferenceOf "values"))
  | some items =>
    .ok (.text ((argumentText w args 0).intercalate (items.toList.map w.heap.text)))

/-- Fills the placeholders of a text. -/
def callFormat (w : World) (args : List Value) : Except Trap Value :=
  match args with
  | .text format :: _ =>
    .ok (.text (String.ofList (fillPlaceholders (argumentText w args 1).toList format.toList)))
  | _ => .error (.raise (.nullReferenceOf "format"))

/-- Prints a line. -/
def callWriteLine (host : Host) (w : World) (args : List Value) : World :=
  let line := argumentText w args 0
  let w := w.announceIf host.console (.console line)
  { w with output := w.output.push line }

/-- Makes an exception of a class. -/
def callConstructor (w : World) (className : String) (args : List Value) : Value × World :=
  let message := match args with
    | .text s :: _ => s
    | _ => "Exception of type '" ++ className ++ "' was thrown."
  let (v, heap) := w.heap.newObject className message
  (v, { w with heap := heap })

/-- The message of an exception. -/
def callMessage : List Value → Except Trap Value
  | .object _ _ message :: _ => .ok (.text message)
  | _ => .error (.raise .nullReference)

/-- Calls a member of a library (`Runtime::call`). `args` starts with the receiver of an instance
member; `current` describes the method that calls. -/
def call (host : Host) (w : World) (member : MemberRef) (args : List Value) (current : Value) :
    Except Trap Value × World :=
  let isException := member.owner.endsWith "Exception"
  if member.owner = host.dispatcherType then host.callHook w member args
  else if member.name = ".ctor" ∧ isException then
    let (v, w) := callConstructor w member.owner args
    (.ok v, w)
  else if member.name = "get_Message" ∧ isException then (callMessage args, w)
  else if member.owner = methodBaseType ∧ member.name = "GetCurrentMethod" then (.ok current, w)
  else if member.owner = "System.String" ∧ member.name = "Join" then (callJoin w args, w)
  else if member.owner = "System.String" ∧ member.name = "Format" then (callFormat w args, w)
  else if member.owner = "System.Console" ∧ member.name = "WriteLine" then
    (.ok .null, host.callWriteLine w args)
  else (.error (.fault (.unresolvedCall member.fullName)), w)

theorem call_getInstance (host : Host) (w : World) (member : MemberRef) (args : List Value)
    (current : Value) (ho : member.owner = host.dispatcherType)
    (hn : member.name = "get_Instance") :
    host.call w member args current = (.ok .dispatcher, w) := by
  simp [call, callHook, ho, hn]

/-! ## Texts for diagnostics -/

def boolText (b : Bool) : String := if b then "true" else "false"

/-- The set-up of the listeners (`HookDispatcher::fmt`). -/
def inspectListeners (l : Listeners) : String :=
  "HookDispatcher \x7b init: " ++ boolText l.init ++ ", entry: " ++ boolText l.entry ++
    ", exit: " ++ boolText l.exit ++ ", exception: " ++ boolText l.exception ++ " \x7d"

/-- The set-up of the machine, and the lines printed so far (`Runtime::fmt`). -/
def inspect (host : Host) (w : World) : String :=
  "Runtime \x7b dispatcher_type: " ++ Text.quoted host.dispatcherType ++ ", hooks: " ++
    inspectListeners host.listeners ++ ", output: [" ++
    ", ".intercalate (w.output.toList.map Text.quoted) ++ "], console: " ++
    boolText host.console ++ " \x7d"

end Host

/-! ## Libraries -/

/-- The library that declares the system members. -/
def systemLibrary : String := "System.Runtime"

/-- The libraries that declare what the machine offers, for hooks of this type in a library of
this name (`runtime_libraries`). -/
def hostLibraries (dispatcherType hookLibrary : String) : List Library :=
  let constructor : Signature := ⟨".ctor", [.string], .void, false⟩
  let hooks : LibraryType := ⟨dispatcherType,
    [⟨"get_Instance", [], .named dispatcherType, true⟩,
      ⟨"Init", [.object, .named methodBaseType, .objectArray], .void, false⟩,
      ⟨"OnEntry", [], .void, false⟩,
      ⟨"OnExit", [], .void, false⟩,
      ⟨"OnException", [.named exceptionType], .void, false⟩]⟩
  [⟨hookLibrary, [hooks]⟩,
    ⟨systemLibrary,
      [⟨exceptionType, [constructor, ⟨"get_Message", [], .string, false⟩]⟩,
        ⟨"System.InvalidOperationException", [constructor]⟩,
        ⟨"System.ArgumentException", [constructor]⟩,
        ⟨methodBaseType, [⟨"GetCurrentMethod", [], .named methodBaseType, true⟩]⟩,
        ⟨"System.String",
          [⟨"Join", [.string, .objectArray], .string, true⟩,
            ⟨"Format", [.string, .object], .string, true⟩]⟩,
        ⟨"System.Console", [⟨"WriteLine", [.string], .void, true⟩]⟩]⟩]

end Interpose
