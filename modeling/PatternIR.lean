import PatternIR.Float.Read
import PatternIR.Main
import PatternIR.Eval.Script
import PatternIR.Proofs.Leaves
import PatternIR.Proofs.Eval.Invariant
import PatternIR.Proofs.Eval.Later
import PatternIR.Proofs.Flow.Matches
import PatternIR.Proofs.Flow.Endings
import PatternIR.Proofs.Flow.Escapes
import PatternIR.Proofs.Gather
import PatternIR.Proofs.Lowering.Steps
import PatternIR.Proofs.Lowering.Scopes
import PatternIR.Proofs.Lowering.Blocks
import PatternIR.Proofs.Flow.Groups
import PatternIR.Proofs.Eval.Simulation
import PatternIR.Proofs.Lowering.Facts
import PatternIR.Proofs.Lowering.Meaning
import PatternIR.Proofs.Lowering.Expressions
import PatternIR.Proofs.Lowering.TypeTests
import PatternIR.Proofs.Lowering.Statements
import PatternIR.Proofs.Lowering.Nodes
import PatternIR.Proofs.Lowering.Unchanged
import PatternIR.Proofs.Lowering.Known
import PatternIR.Proofs.Lowering.References
import PatternIR.Proofs.Lowering.Accepted
import PatternIR.Proofs.Lowering.Arena
import PatternIR.Proofs.Lowering.Ids
import PatternIR.Proofs.Flow.Guards
import PatternIR.Proofs.Refinement.Expressions
import PatternIR.Proofs.Eval.Fuel
import PatternIR.Proofs.Eval.Balance
import PatternIR.Proofs.Eval.Answers
import PatternIR.Proofs.Refinement.Programs
import PatternIR.Proofs.Refinement.Visible
import PatternIR.Proofs.Flow.Completions
import PatternIR.Proofs.Hierarchy
import PatternIR.Proofs.Lowering.ReferenceTests
import PatternIR.Proofs.Flow.Distinct
import PatternIR.Proofs.Lowering.SharedStorage
import PatternIR.Proofs.Json.Numerals
import PatternIR.Proofs.Json.Drafts
import PatternIR.Proofs.Wire.Readers
import PatternIR.Proofs.Wire.RoundTrip
import PatternIR.Proofs.Cli.Lowered
import PatternIR.Proofs.Lowering.Discipline
import PatternIR.Proofs.Float.Rounding
import PatternIR.Proofs.Eval.Conversions
import PatternIR.Proofs.Lowering.PrimitiveTests
import PatternIR.Proofs.Symbols.Flags
import PatternIR.Proofs.Flow.Repeated
import PatternIR.Proofs.Ancestry
import PatternIR.Proofs.Lowering.CertainTests
import PatternIR.Proofs.Lowering.LatestWrites
import PatternIR.Proofs.Printer.Unambiguous
import PatternIR.Proofs.Lowering.Consulted
import PatternIR.Proofs.Lowering.Growth
import PatternIR.Proofs.Lowering.Positions
import PatternIR.Proofs.Flow.Targets
import PatternIR.Proofs.Eval.Contained
import PatternIR.Proofs.Lowering.Targets
import PatternIR.Proofs.Eval.Residues
import PatternIR.Proofs.Eval.Promotion
import PatternIR.Proofs.Flow.Breaks
import PatternIR.Proofs.Wire.Written
import PatternIR.Proofs.Eval.Wrapping
import PatternIR.Proofs.Printer.Quoted
