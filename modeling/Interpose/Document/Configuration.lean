import Interpose.Document.Decode
import Interpose.Weave.Config
/-!
# Configuration documents

A configuration may leave out anything; what is left out has its default. Where a text
is wanted any single value is taken as it is written, so a number names a type as well.
-/
namespace Interpose.Document

/-- A single value as its text. -/
def decodeScalar : Json → Decoded String
  | .str s => .ok s
  | .int i => .ok (toString i)
  | .real text => .ok text
  | .bool b => .ok (if b then "true" else "false")
  | .null => .ok "null"
  | _ => .error .shape

def decodeConfig : Json → Decoded WeaveConfig
  | .null => .ok {}
  | j => do
    let members ← decodeObject j
    let scalar (key : String) := decodeMember? members key decodeScalar
    let flag (key : String) := decodeMember? members key decodeBool
    let names (key : String) := decodeMember? members key (decodeList decodeScalar)
    let default : WeaveConfig := {}
    return {
      dispatcherType := (← scalar "dispatcher_type").getD default.dispatcherType
      hookLibrary := (← scalar "hook_library").getD default.hookLibrary
      notifyException := (← flag "notify_exception").getD default.notifyException
      notifyExitOnReturn := (← flag "notify_exit_on_return").getD default.notifyExitOnReturn
      traceArguments := (← flag "trace_arguments").getD default.traceArguments
      includeTypes := (← names "include_types").getD default.includeTypes
      excludeMethods := (← names "exclude_methods").getD default.excludeMethods }

def encodeConfig (c : WeaveConfig) : Json :=
  .obj [("dispatcher_type", .str c.dispatcherType), ("hook_library", .str c.hookLibrary),
    ("notify_exception", .bool c.notifyException),
    ("notify_exit_on_return", .bool c.notifyExitOnReturn),
    ("trace_arguments", .bool c.traceArguments),
    ("include_types", .list .str c.includeTypes),
    ("exclude_methods", .list .str c.excludeMethods)]

end Interpose.Document
