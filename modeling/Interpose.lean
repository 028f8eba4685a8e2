import Interpose.Batch
import Interpose.Body
import Interpose.Bytes.Buffer
import Interpose.Bytes.Cursor
import Interpose.Bytes.Word
import Interpose.Code.Encoder
import Interpose.Code.Instruction
import Interpose.Code.Listing
import Interpose.Code.Opcode
import Interpose.Command
import Interpose.Double.Sample
import Interpose.Double.Script
import Interpose.Error
import Interpose.FileSystem
import Interpose.Intrinsic
import Interpose.Machine.Arithmetic
import Interpose.Machine.Basic
import Interpose.Machine.Dispatch
import Interpose.Machine.Intrinsics
import Interpose.Machine.Native
import Interpose.Machine.Run
import Interpose.Machine.Step
import Interpose.Main
import Interpose.Method
import Interpose.Module.Basic
import Interpose.Module.Container
import Interpose.Module.Edit
import Interpose.Module.Resolve
import Interpose.Number.Float
import Interpose.Number.Shortest
import Interpose.Proofs.Batch
import Interpose.Proofs.Body
import Interpose.Proofs.Bytes.Canonical
import Interpose.Proofs.Bytes.Compressed
import Interpose.Proofs.Bytes.Persistence
import Interpose.Proofs.Bytes.Positions
import Interpose.Proofs.Bytes.Reading
import Interpose.Proofs.Bytes.Storing
import Interpose.Proofs.Code.Assembly
import Interpose.Proofs.Code.Emission
import Interpose.Proofs.Code.Instruction
import Interpose.Proofs.Code.Listing
import Interpose.Proofs.Code.Offsets
import Interpose.Proofs.Code.Reassembly
import Interpose.Proofs.Code.Refusal
import Interpose.Proofs.Code.Spelling
import Interpose.Proofs.Code.Totality
import Interpose.Proofs.FileSystem
import Interpose.Proofs.Machine.Bounds
import Interpose.Proofs.Machine.Carrying
import Interpose.Proofs.Machine.Errors
import Interpose.Proofs.Machine.Fields
import Interpose.Proofs.Machine.Forms
import Interpose.Proofs.Machine.Frames
import Interpose.Proofs.Machine.Guarded
import Interpose.Proofs.Machine.Heights
import Interpose.Proofs.Machine.Instructions
import Interpose.Proofs.Machine.Limits
import Interpose.Proofs.Machine.Mirror
import Interpose.Proofs.Machine.Origins
import Interpose.Proofs.Machine.Overloads
import Interpose.Proofs.Machine.Passes
import Interpose.Proofs.Machine.Plain
import Interpose.Proofs.Machine.Preservation
import Interpose.Proofs.Machine.Rules
import Interpose.Proofs.Machine.Running
import Interpose.Proofs.Machine.Stack
import Interpose.Proofs.Machine.StackUse
import Interpose.Proofs.Machine.Traces
import Interpose.Proofs.Machine.Trails
import Interpose.Proofs.Machine.VirtualCalls
import Interpose.Proofs.Machine.Watch
import Interpose.Proofs.Module.Building
import Interpose.Proofs.Module.Conformance
import Interpose.Proofs.Module.Finished
import Interpose.Proofs.Module.Growth
import Interpose.Proofs.Module.Hierarchy
import Interpose.Proofs.Module.Insertion
import Interpose.Proofs.Module.Loading
import Interpose.Proofs.Module.Prefixes
import Interpose.Proofs.Module.References
import Interpose.Proofs.Module.Resolution
import Interpose.Proofs.Module.Rows
import Interpose.Proofs.Module.Storing
import Interpose.Proofs.Module.Tables
import Interpose.Proofs.Module.WellFormed
import Interpose.Proofs.Module.Writing
import Interpose.Proofs.Outcome
import Interpose.Proofs.SequencePoints
import Interpose.Proofs.StoppedBatch
import Interpose.Proofs.Substitution.CallMap
import Interpose.Proofs.Substitution.Compatibility
import Interpose.Proofs.Substitution.Constructors
import Interpose.Proofs.Substitution.Coverage
import Interpose.Proofs.Substitution.Delegates
import Interpose.Proofs.Substitution.Factories
import Interpose.Proofs.Substitution.Filling
import Interpose.Proofs.Substitution.Histories
import Interpose.Proofs.Substitution.Instances
import Interpose.Proofs.Substitution.Matching
import Interpose.Proofs.Substitution.Mocking
import Interpose.Proofs.Substitution.Population
import Interpose.Proofs.Substitution.Publication
import Interpose.Proofs.Substitution.Registration
import Interpose.Proofs.Substitution.Tables
import Interpose.Proofs.Substitution.Targets
import Interpose.Proofs.Substitution.Winners
import Interpose.Proofs.Text.Hex
import Interpose.Proofs.Ty.Ancestors
import Interpose.Proofs.Ty.Assignability
import Interpose.Proofs.Ty.Codec
import Interpose.Proofs.Ty.Composition
import Interpose.Proofs.Ty.Instantiation
import Interpose.Proofs.Ty.Monotonicity
import Interpose.Proofs.Ty.Nesting
import Interpose.Proofs.Ty.Reach
import Interpose.Proofs.Ty.Transitivity
import Interpose.Proofs.Weaving.CallSites
import Interpose.Proofs.Weaving.Decodability
import Interpose.Proofs.Weaving.Depth
import Interpose.Proofs.Weaving.Effect
import Interpose.Proofs.Weaving.Heights
import Interpose.Proofs.Weaving.Hosts
import Interpose.Proofs.Weaving.Interception
import Interpose.Proofs.Weaving.Keeping
import Interpose.Proofs.Weaving.Labels
import Interpose.Proofs.Weaving.Layout
import Interpose.Proofs.Weaving.Opening
import Interpose.Proofs.Weaving.Pass
import Interpose.Proofs.Weaving.Placement
import Interpose.Proofs.Weaving.PointOrder
import Interpose.Proofs.Weaving.Points
import Interpose.Proofs.Weaving.Reloading
import Interpose.Proofs.Weaving.Relocation
import Interpose.Proofs.Weaving.Repetition
import Interpose.Proofs.Weaving.Results
import Interpose.Proofs.Weaving.Room
import Interpose.Proofs.Weaving.Scaffold
import Interpose.Proofs.Weaving.Stream
import Interpose.Proofs.Weaving.Structure
import Interpose.Proofs.Weaving.Success
import Interpose.Proofs.Weaving.Transparency
import Interpose.Proofs.Weaving.Writability
import Interpose.SequencePoints
import Interpose.Substitution.CallMap
import Interpose.Substitution.Delegate
import Interpose.Substitution.Matching
import Interpose.Substitution.Predicate
import Interpose.Substitution.Provider
import Interpose.Substitution.Publication
import Interpose.Substitution.Rules
import Interpose.Substitution.Selector
import Interpose.Substitution.Typed
import Interpose.Text.Hex
import Interpose.Text.Quoted
import Interpose.Text.Unprintable
import Interpose.Text.Utf16
import Interpose.Token
import Interpose.Ty.Assignability
import Interpose.Ty.Basic
import Interpose.Ty.Codec
import Interpose.Ty.Instantiation
import Interpose.Value.Basic
import Interpose.Value.Store
import Interpose.Weaving.Method
import Interpose.Weaving.Pass
import Interpose.Weaving.Scaffold
import Interpose.Weaving.Site
