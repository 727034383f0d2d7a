import RecordWasm.Main
import RecordWasm.Text.Template
import RecordWasm.Proofs.Heap.Records
import RecordWasm.Proofs.Lowering.Bodies
import RecordWasm.Proofs.Validation.Checker
import RecordWasm.Proofs.Validation.Program
import RecordWasm.Proofs.Binary.Instructions
import RecordWasm.Proofs.Binary.Canonical
import RecordWasm.Proofs.Layout.Packing
import RecordWasm.Proofs.Assembly.Validity
import RecordWasm.Proofs.Assembly.Sessions
import RecordWasm.Proofs.Compile.Workers
import RecordWasm.Proofs.Lowering.Structure
import RecordWasm.Proofs.Compile.Validity
import RecordWasm.Proofs.Lowering.Nesting
import RecordWasm.Proofs.Lowering.Branches
import RecordWasm.Proofs.Lowering.Calls
import RecordWasm.Proofs.Compile.Indices
import RecordWasm.Proofs.Evaluation.Arithmetic
import RecordWasm.Proofs.Evaluation.Contract
import RecordWasm.Proofs.Evaluation.Simulation
import RecordWasm.Proofs.Evaluation.Expressions
import RecordWasm.Proofs.Evaluation.Statements
import RecordWasm.Proofs.Evaluation.Judgements
import RecordWasm.Proofs.Evaluation.Derivations
import RecordWasm.Proofs.Evaluation.Bodies
import RecordWasm.Proofs.Evaluation.Programs
import RecordWasm.Proofs.Heap.Requests
import RecordWasm.Proofs.Lowering.Completeness
import RecordWasm.Proofs.Lowering.Names
import RecordWasm.Proofs.Lowering.Uses
import RecordWasm.Proofs.Lowering.Scopes
import RecordWasm.Proofs.Machine.Writes
import RecordWasm.Proofs.Evaluation.Ranges
import RecordWasm.Proofs.Lowering.Results
import RecordWasm.Proofs.Evaluation.Literals
import RecordWasm.Proofs.Lowering.Patterns
import RecordWasm.Proofs.Lowering.Spelling
import RecordWasm.Proofs.Lowering.Construction
import RecordWasm.Proofs.Heap.Literals
import RecordWasm.Proofs.Heap.Installing
import RecordWasm.Proofs.Layout.Reordering
import RecordWasm.Proofs.Binary.Widths
import RecordWasm.Proofs.Layout.FieldTypes
import RecordWasm.Proofs.Compile.Dispatch
import RecordWasm.Proofs.Validation.Nesting
import RecordWasm.Proofs.Validation.Safety
import RecordWasm.Proofs.Cli.Sessions
import RecordWasm.Proofs.Syntax.Programs
import RecordWasm.Proofs.Lowering.Holes
import RecordWasm.Proofs.Binary.Framing
import RecordWasm.Proofs.Graph.Registration
import RecordWasm.Proofs.Layout.Redeclaring
import RecordWasm.Proofs.Cli.Integers
import RecordWasm.Proofs.Cli.Pending
import RecordWasm.Proofs.Heap.Alignment
import RecordWasm.Proofs.Validation.Locals
