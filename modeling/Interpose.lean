import Interpose.Main
import Interpose.Weave.Chain
import Interpose.Machine.Session
import Interpose.Proofs.Body.Chain
import Interpose.Proofs.Except
import Interpose.Proofs.Lists
import Interpose.Proofs.Imports
import Interpose.Proofs.Body.Anchor
import Interpose.Proofs.Body.Closed
import Interpose.Proofs.Body.Codec
import Interpose.Proofs.Body.Alike
import Interpose.Proofs.Verify.Walk
import Interpose.Proofs.Verify.Invariant
import Interpose.Proofs.Verify.Guided
import Interpose.Proofs.Verify.Balance
import Interpose.Proofs.Verify.Alike
import Interpose.Proofs.Verify.Expected
import Interpose.Proofs.Verify.Range
import Interpose.Proofs.Machine.Step
import Interpose.Proofs.Machine.Run
import Interpose.Proofs.Machine.Verified
import Interpose.Proofs.Machine.Dispatch
import Interpose.Proofs.Machine.Reload
import Interpose.Proofs.Machine.Straight
import Interpose.Proofs.Machine.Lifetime
import Interpose.Proofs.Machine.Session
import Interpose.Proofs.Machine.CallDepth
import Interpose.Proofs.Machine.Renaming
import Interpose.Proofs.Weave.Edits
import Interpose.Proofs.Weave.Layout
import Interpose.Proofs.Weave.Geometry
import Interpose.Proofs.Weave.Resolve
import Interpose.Proofs.Weave.Wanted
import Interpose.Proofs.Weave.InPlace
import Interpose.Proofs.Weave.Pass
import Interpose.Proofs.Weave.Account
import Interpose.Proofs.Weave.Repeat
import Interpose.Proofs.Weave.Called
import Interpose.Proofs.Weave.HookCalls
import Interpose.Proofs.Weave.Snapshot
import Interpose.Proofs.Weave.Segments
import Interpose.Proofs.Weave.Phases
import Interpose.Proofs.Weave.Protocol
import Interpose.Proofs.Weave.Mirror
import Interpose.Proofs.Weave.Answers
import Interpose.Proofs.Weave.Counterpart
import Interpose.Proofs.Weave.Simulation
import Interpose.Proofs.Weave.Preservation
import Interpose.Proofs.Weave.Heights
import Interpose.Proofs.Weave.Moved
import Interpose.Proofs.Weave.Depths
import Interpose.Proofs.Weave.Success
import Interpose.Proofs.Weave.Weavable
import Interpose.Proofs.Weave.Fresh
import Interpose.Proofs.Weave.Coverage
import Interpose.Proofs.Machine.Independence
import Interpose.Proofs.Machine.Handling
import Interpose.Proofs.Machine.StackUse
import Interpose.Proofs.Weave.Chain
import Interpose.Proofs.Weave.Order
import Interpose.Proofs.Weave.Guarded
import Interpose.Proofs.Document.Decoded
import Interpose.Proofs.Weave.Saved
import Interpose.Proofs.Document.Spelling
import Interpose.Proofs.Weave.Capture
import Interpose.Proofs.Machine.Entry
import Interpose.Proofs.Weave.Targets
import Interpose.Proofs.Weave.Usable
import Interpose.Proofs.Weave.Selection
import Interpose.Proofs.Weave.Memo
import Interpose.Proofs.Command.Linked
