import Interpose.Member
import Interpose.Weave.Config
/-!
# Members that woven code calls

The hooks of the dispatcher type and the helpers around them, each with the descriptor
it is looked up by.

Results:
* `descriptor?_all`: the full table has a descriptor for each symbol.
-/
namespace Interpose

/-- A member that woven code may call. -/
inductive HookSymbol
  /-- The accessor of the dispatcher, on which instance hooks are called. -/
  | accessor
  | init
  | onEntry
  | onExit
  | onException
  /-- The description of the running method. -/
  | currentMethod
  | join
  | format
  | writeLine
deriving DecidableEq

/-- The type of method descriptions. -/
def methodBaseType : String := "System.Reflection.MethodBase"

/-- The base type of exceptions. -/
def exceptionType : String := "System.Exception"

/-- Symbols with their descriptors. -/
structure SymbolTable where
  entries : List (HookSymbol × Descriptor)

namespace SymbolTable

/-- Every symbol, for hooks of this dispatcher type (`HookSymbols::new`). -/
def all (dispatcherType : String) : SymbolTable where
  entries :=
    [(.accessor, ⟨dispatcherType, "get_Instance", 0, none⟩),
      (.init, .exact dispatcherType "Init" [.object, .named methodBaseType, .objectArray]),
      (.onEntry, ⟨dispatcherType, "OnEntry", 0, none⟩),
      (.onExit, ⟨dispatcherType, "OnExit", 0, none⟩),
      (.onException, .exact dispatcherType "OnException" [.named exceptionType]),
      (.currentMethod, ⟨methodBaseType, "GetCurrentMethod", 0, none⟩),
      (.join, .exact "System.String" "Join" [.string, .objectArray]),
      (.format, .exact "System.String" "Format" [.string, .object]),
      (.writeLine, .exact "System.Console" "WriteLine" [.string])]

/-- Can a pass with this configuration call the symbol? -/
def isUsed (c : WeaveConfig) : HookSymbol → Bool
  | .onException => c.notifyException
  | .join | .format | .writeLine => c.traceArguments
  | _ => true

/-- The symbols that a pass can call (`HookSymbols::for_config`). -/
def forConfig (c : WeaveConfig) : SymbolTable where
  entries := (all c.dispatcherType).entries.filter fun e => isUsed c e.1

def descriptor? (t : SymbolTable) (s : HookSymbol) : Option Descriptor :=
  (t.entries.find? (·.1 == s)).map (·.2)

theorem descriptor?_all (dispatcherType : String) (s : HookSymbol) :
    ((all dispatcherType).descriptor? s).isSome = true := by
  cases s <;> rfl

end SymbolTable

end Interpose
