import CallTrace.Main
import CallTrace.Proofs.Check.Truncation
import CallTrace.Proofs.Check.Completion
import CallTrace.Proofs.Check.Passing
import CallTrace.Proofs.Message.Envelopes
import CallTrace.Proofs.Message.Nesting
import CallTrace.Proofs.Message.Display
import CallTrace.Proofs.Check.Failures
import CallTrace.Proofs.Check.LogRuns
import CallTrace.Proofs.Check.OutputModes
import CallTrace.Proofs.Record.Framing
import CallTrace.Proofs.Check.Coherence
import CallTrace.Proofs.Check.Insertion
import CallTrace.Proofs.Disk.Places
import CallTrace.Proofs.Disk.Directories
import CallTrace.Proofs.Disk.Rewriting
import CallTrace.Proofs.CommandLine.Endings
import CallTrace.Proofs.CommandLine.Repetition
import CallTrace.Proofs.CommandLine.Effects
import CallTrace.Proofs.Hash.Digests
import CallTrace.Proofs.Record.Requests
import CallTrace.Proofs.Check.LogHash
import CallTrace.Proofs.Text.Numerals
import CallTrace.Proofs.CommandLine.Operands
import CallTrace.Proofs.CommandLine.Agreement
import CallTrace.Proofs.Check.Names
import CallTrace.Proofs.Check.Blocks
import CallTrace.Proofs.Check.Windows
import CallTrace.Proofs.Operation.Classification
import CallTrace.Proofs.Check.Relevance
import CallTrace.Proofs.Check.Concatenation
import CallTrace.Proofs.Check.Hushing
import CallTrace.Proofs.Record.Lengths
import CallTrace.Proofs.Record.Progress
import CallTrace.Proofs.Json.Written
import CallTrace.Proofs.Disk.WholeWrites
import CallTrace.Proofs.Record.Transparency
