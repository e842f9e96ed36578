import Runic.Command.Run
import Runic.Compile
import Runic.Diagnostic
import Runic.Command.Machine
import Runic.Proofs.Ir.Growth
import Runic.Proofs.Lowering.Derivation
import Runic.Proofs.Lowering.Frame
import Runic.Proofs.Ir.Coherence
import Runic.Proofs.Lowering.Typing
import Runic.Proofs.Ir.Machine
import Runic.Proofs.Lowering.Evaluation
import Runic.Proofs.Lowering.Simulation
import Runic.Proofs.Lowering.Preservation
import Runic.Proofs.Node.Grammar
import Runic.Proofs.Node.View
import Runic.Proofs.Node.Soundness
import Runic.Proofs.Node.Completeness
import Runic.Proofs.Node.Adjacency
import Runic.Proofs.Token.Lexing
import Runic.Proofs.Node.Parsing
import Runic.Proofs.Node.Spelling
import Runic.Proofs.Node.RoundTrip
import Runic.Proofs.Node.Layout
import Runic.Proofs.Node.Parts
import Runic.Proofs.Node.Parsed
import Runic.Proofs.Canonical.Rules
import Runic.Proofs.Canonical.NormalForm
import Runic.Proofs.Attempt
import Runic.Proofs.Lowering.Closing
import Runic.Proofs.Lowering.Failure
import Runic.Proofs.Canonical.Arity
import Runic.Proofs.Lowering.Blame
import Runic.Proofs.Stages
import Runic.Proofs.Canonical.Slots
import Runic.Proofs.Lowering.Slots
import Runic.Proofs.Text.Slice
import Runic.Proofs.Token.Cutting
import Runic.Proofs.Node.Forms
import Runic.Proofs.Node.Places
import Runic.Proofs.Node.Replay
import Runic.Proofs.Token.Tiling
import Runic.Proofs.Node.Excerpt
import Runic.Proofs.Node.Complaint
import Runic.Proofs.Canonical.Spans
import Runic.Proofs.Canonical.Words
import Runic.Proofs.Lowering.Bare
import Runic.Proofs.Recompile
import Runic.Proofs.Lookup
import Runic.Proofs.Files.Disk
import Runic.Proofs.Command.Batch
import Runic.Proofs.Locations
import Runic.Proofs.Node.Nesting
import Runic.Proofs.Node.Abreast
import Runic.Proofs.Node.Respacing
import Runic.Proofs.Ir.Branching
import Runic.Proofs.Lowering.Branching
import Runic.Proofs.Lowering.Confinement
import Runic.Proofs.Command.Isolation
import Runic.Proofs.Lowering.Rebinding
import Runic.Proofs.Lowering.Overrides
import Runic.Proofs.Canonical.Contexts
import Runic.Proofs.Ir.Resizing
import Runic.Proofs.Lowering.Widening
import Runic.Proofs.Ir.Runs
import Runic.Proofs.Canonical.Termination
import Runic.Proofs.Canonical.Cells
import Runic.Proofs.Node.Commas
import Runic.Proofs.Token.Classes
import Runic.Proofs.Lowering.Constants
import Runic.Proofs.Ir.Numbering
import Runic.Proofs.Ir.Symbols
import Runic.Proofs.Text.Positions
import Runic.Proofs.Token.Interleaving
import Runic.Proofs.Node.Calls
import Runic.Proofs.Node.Progress
import Runic.Proofs.Token.LayoutRuns
import Runic.Proofs.Node.Pulling
import Runic.Proofs.Text.Utf8
import Runic.Proofs.Text.ByteOrder
import Runic.Proofs.Lowering.Snapshots
import Runic.Proofs.Token.Bytes
