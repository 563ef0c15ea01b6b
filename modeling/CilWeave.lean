import CilWeave.Document.Bits
import CilWeave.Main
import CilWeave.Proofs.InstructionList.View
import CilWeave.Proofs.InstructionList.Order
import CilWeave.Proofs.StackDepth.Arrival
import CilWeave.Proofs.StackDepth.Worklist
import CilWeave.Proofs.StackDepth.Exact
import CilWeave.Proofs.References
import CilWeave.Proofs.Encoding.Forms
import CilWeave.Proofs.Encoding.Recoding
import CilWeave.Proofs.Encoding.Layout
import CilWeave.Proofs.Rewrite.Safety
import CilWeave.Proofs.Pass.Patched
import CilWeave.Proofs.Run.Registry
import CilWeave.Proofs.Rewrite.Insertion
import CilWeave.Proofs.Rewrite.Weave
import CilWeave.Proofs.Rewrite.Refinement
import CilWeave.Proofs.Execution.Machine
import CilWeave.Proofs.Execution.Padding
import CilWeave.Proofs.Execution.Depth
import CilWeave.Proofs.Execution.Straight
import CilWeave.Proofs.Execution.Answers
import CilWeave.Proofs.Execution.Alike
import CilWeave.Proofs.Execution.Paths
import CilWeave.Proofs.Execution.Insertion
import CilWeave.Proofs.Execution.Rerouting
import CilWeave.Proofs.Rewrite.Context
import CilWeave.Proofs.Pass.FieldAccess.Building
import CilWeave.Proofs.Pass.FieldAccess.Routes
import CilWeave.Proofs.Pass.FieldAccess.Behaviour
import CilWeave.Proofs.InstructionList.LinkedEdits
import CilWeave.Proofs.InstructionList.Links
import CilWeave.Proofs.Encoding.Operation
import CilWeave.Proofs.Encoding.RoundTrip
import CilWeave.Proofs.Encoding.Encodable
import CilWeave.Proofs.Renumbering.Alike
import CilWeave.Proofs.Renumbering.Encoding
import CilWeave.Proofs.Renumbering.Rewriting
import CilWeave.Proofs.Pass.FieldAccess.Portable
import CilWeave.Proofs.Module.Built
import CilWeave.Proofs.Module.Enumeration
import CilWeave.Proofs.Pass.Sweep
import CilWeave.Proofs.Record.Pairs
import CilWeave.Proofs.Record.Reading
import CilWeave.Proofs.Record.Truncation
import CilWeave.Proofs.Module.Alike
import CilWeave.Proofs.Pass.FieldAccess.Recording
import CilWeave.Proofs.Pass.FieldAccess.Replay
import CilWeave.Proofs.Pass.FieldAccess.Balance
import CilWeave.Proofs.Pass.FieldAccess.Exclusion
import CilWeave.Proofs.Run.Transparency
import CilWeave.Proofs.Encoding.Effects
import CilWeave.Proofs.Encoding.Acceptance
import CilWeave.Proofs.Encoding.Canonical
import CilWeave.Proofs.Pass.CallRedirection.Redirecting
import CilWeave.Proofs.Pass.CallRedirection.Rewriting
import CilWeave.Proofs.Rewrite.Faults
import CilWeave.Proofs.Module.Completeness
import CilWeave.Proofs.Pass.CallRedirection.Sweep
import CilWeave.Proofs.Pass.CallRedirection.Exactness
import CilWeave.Proofs.Pass.CallRedirection.Idempotence
import CilWeave.Proofs.Pass.FieldAccess.Tracking
import CilWeave.Proofs.Rewrite.Counting
import CilWeave.Proofs.Pass.Turns
import CilWeave.Proofs.Pass.FieldAccess.Completeness
import CilWeave.Proofs.StackDepth.Reach
import CilWeave.Proofs.Rewrite.Straight
import CilWeave.Proofs.Rewrite.Allocation
import CilWeave.Proofs.Pass.DanglingCalls
import CilWeave.Proofs.Document.Reading
import CilWeave.Proofs.Document.Flags
import CilWeave.Proofs.Document.Members
import CilWeave.Proofs.Document.Code
import CilWeave.Proofs.References.Interning
import CilWeave.Proofs.Document.Modules
import CilWeave.Proofs.References.Loading
import CilWeave.Proofs.Pass.Course
import CilWeave.Proofs.Pass.Defects
import CilWeave.Proofs.InstructionList.WellLinked
import CilWeave.Proofs.Record.Language
import CilWeave.Proofs.Record.Acceptance
import CilWeave.Proofs.Record.RoundTrip
import CilWeave.Proofs.Encoding.Smallest
import CilWeave.Proofs.Encoding.Rounds
import CilWeave.Proofs.Pass.AccessorForwarding
import CilWeave.Proofs.Pass.TypeLookupGuard.Refusal
import CilWeave.Proofs.Pass.TypeLookupGuard.Seeding
import CilWeave.Proofs.Pass.TypeLookupGuard.Transparency
import CilWeave.Proofs.Pass.ReflectiveGetter.Window
import CilWeave.Proofs.Pass.ReflectiveGetter.Routing
import CilWeave.Proofs.Pass.ReflectiveGetter.Soundness
import CilWeave.Proofs.Module.Walk
import CilWeave.Proofs.Module.FullName
import CilWeave.Proofs.Module.Levels
import CilWeave.Proofs.Module.Additions
import CilWeave.Proofs.Module.Order
import CilWeave.Proofs.Module.Resolution
import CilWeave.Proofs.Document.Links
import CilWeave.Proofs.Pass.FieldAccess.SelfCalls
