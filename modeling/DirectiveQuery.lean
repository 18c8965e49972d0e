import DirectiveQuery.Main
import DirectiveQuery.Session
import DirectiveQuery.Proofs.Filter.Meaning
import DirectiveQuery.Proofs.Filter.Duality
import DirectiveQuery.Proofs.Grammar.Scanning
import DirectiveQuery.Proofs.Grammar.Number
import DirectiveQuery.Proofs.Grammar.Derivation
import DirectiveQuery.Proofs.Grammar.Picking
import DirectiveQuery.Proofs.Grammar.Reading
import DirectiveQuery.Proofs.Grammar.Phrases
import DirectiveQuery.Proofs.Grammar.Operands
import DirectiveQuery.Proofs.Grammar.Unambiguous
import DirectiveQuery.Proofs.Binary64.Integers
import DirectiveQuery.Proofs.Text.Digits
import DirectiveQuery.Proofs.Compile.Collecting
import DirectiveQuery.Proofs.Compile.Steps
import DirectiveQuery.Proofs.Compile.Compiler
import DirectiveQuery.Proofs.Compile.Positions
import DirectiveQuery.Proofs.Printing.Word
import DirectiveQuery.Proofs.Printing.Clause
import DirectiveQuery.Proofs.Filter.NormalForm
import DirectiveQuery.Proofs.Printing.Printer
import DirectiveQuery.Proofs.Compile.Count
import DirectiveQuery.Proofs.Compile.Shape
import DirectiveQuery.Proofs.Printing.RoundTrip
import DirectiveQuery.Proofs.Session.Memory
import DirectiveQuery.Proofs.Text.Position
import DirectiveQuery.Proofs.Grammar.Places
import DirectiveQuery.Proofs.Grammar.Cutting
import DirectiveQuery.Proofs.Grammar.Spans
import DirectiveQuery.Proofs.Grammar.Placing
import DirectiveQuery.Proofs.Grammar.Covering
import DirectiveQuery.Proofs.Grammar.Reporting
import DirectiveQuery.Proofs.Grammar.Completing
import DirectiveQuery.Proofs.Grammar.Blaming
import DirectiveQuery.Proofs.Grammar.Viable
import DirectiveQuery.Proofs.Grammar.Naming
import DirectiveQuery.Proofs.Grammar.Expectation
import DirectiveQuery.Proofs.Compile.Overriding
import DirectiveQuery.Proofs.Compile.Strictness
import DirectiveQuery.Proofs.Compile.Reordering
import DirectiveQuery.Proofs.Binary64.Interval
import DirectiveQuery.Proofs.Binary64.Rounding
import DirectiveQuery.Proofs.Binary64.Overflow
import DirectiveQuery.Proofs.Binary64.Text
import DirectiveQuery.Proofs.Binary64.Whole
import DirectiveQuery.Proofs.Binary64.Fraction
import DirectiveQuery.Proofs.Json.Number
import DirectiveQuery.Proofs.Json.String
import DirectiveQuery.Proofs.Json.Layout
import DirectiveQuery.Proofs.Filter.Wire
import DirectiveQuery.Proofs.Descriptor.Wire
import DirectiveQuery.Proofs.Descriptor.Text
import DirectiveQuery.Proofs.Compile.Range
import DirectiveQuery.Proofs.Compile.Pointing
import DirectiveQuery.Proofs.Compile.Naturals
import DirectiveQuery.Proofs.Compile.Kinds
import DirectiveQuery.Proofs.Filter.Splicing
import DirectiveQuery.Proofs.Filter.Truth
import DirectiveQuery.Proofs.Compile.Regrouping
import DirectiveQuery.Proofs.Files.Writing
import DirectiveQuery.Proofs.Command.Agreement
import DirectiveQuery.Proofs.Grammar.Escapes
import DirectiveQuery.Proofs.Compile.Leaves
import DirectiveQuery.Proofs.Compile.Offence
import DirectiveQuery.Proofs.Compile.Numbers
import DirectiveQuery.Proofs.Text.Line
import DirectiveQuery.Proofs.Environment.Line
import DirectiveQuery.Proofs.Environment.Loading
import DirectiveQuery.Proofs.Environment.Writing
import DirectiveQuery.Proofs.Environment.Switch
import DirectiveQuery.Proofs.Options.Layers
import DirectiveQuery.Proofs.Grammar.Caret
import DirectiveQuery.Proofs.Expression.Wire
import DirectiveQuery.Proofs.Text.Boundary
import DirectiveQuery.Proofs.Expression.Rebasing
