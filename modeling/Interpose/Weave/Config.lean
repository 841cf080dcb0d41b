/-!
# Configuration of a weaving pass

Which type offers the hooks, which hooks are called, and which methods are woven.
-/
namespace Interpose

/-- The type whose members are the hooks, unless configured otherwise. -/
def defaultDispatcherType : String := "HookWeave.MethodDecorator"

/-- The library expected to declare it, unless configured otherwise. -/
def defaultHookLibrary : String := "HookWeave.Runtime"

/-- The attribute of every woven method. -/
def instrumentedAttribute : String := "HookWeave.InstrumentedAttribute"

/-- What is woven, and how (`WeaverConfig`). -/
structure WeaveConfig where
  /-- The type that offers `get_Instance` and the four hooks. -/
  dispatcherType : String := defaultDispatcherType
  /-- The library expected to declare that type. -/
  hookLibrary : String := defaultHookLibrary
  /-- Call `OnException` when a method ends by an exception. -/
  notifyException : Bool := true
  /-- Call `OnExit` also when a method returns. -/
  notifyExitOnReturn : Bool := false
  /-- Print a method's name and arguments on entry. -/
  traceArguments : Bool := false
  /-- The types to weave; none means all. -/
  includeTypes : List String := []
  /-- Methods to leave alone, as `Type::method` or as a bare name. -/
  excludeMethods : List String := []
deriving DecidableEq

/-- The parts of a text before and after its first `::`. -/
def splitPath? : List Char → Option (List Char × List Char)
  | ':' :: ':' :: rest => some ([], rest)
  | c :: rest => (splitPath? rest).map fun p => (c :: p.1, p.2)
  | [] => none

/-- Does an exclusion pattern name this method? -/
def excludes (pattern typeName method : String) : Bool :=
  match splitPath? pattern.toList with
  | some (ty, name) => ty == typeName.toList && name == method.toList
  | none => pattern == method

/-- Is a method to be woven (`WeaverConfig::selects`)? -/
def WeaveConfig.selects (c : WeaveConfig) (typeName method : String) : Bool :=
  (c.includeTypes.isEmpty || c.includeTypes.contains typeName) &&
    !c.excludeMethods.any (excludes · typeName method)

end Interpose
