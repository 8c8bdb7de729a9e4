import Calculator.Log.Template
import Calculator.Main
import Calculator.Session
import Calculator.Proofs.Sequence
import Calculator.Proofs.Precedence
import Calculator.Proofs.Reduction
import Calculator.Proofs.Numeral
import Calculator.Proofs.Scanning
import Calculator.Proofs.Grammar
import Calculator.Proofs.Acceptance
import Calculator.Proofs.Derivation
import Calculator.Proofs.Parsing
import Calculator.Proofs.Parsed
import Calculator.Proofs.Progress
import Calculator.Proofs.Double
import Calculator.Proofs.Rounding
import Calculator.Proofs.Shortest
import Calculator.Proofs.NumberText
import Calculator.Proofs.Rereading
import Calculator.Proofs.Rendering
import Calculator.Proofs.Longest
import Calculator.Proofs.Tiling
import Calculator.Proofs.Location
import Calculator.Proofs.Seams
import Calculator.Proofs.Composition
import Calculator.Proofs.Sharing
import Calculator.Proofs.Store
import Calculator.Proofs.LateBinding
import Calculator.Proofs.Stopping
import Calculator.Proofs.Validity
import Calculator.Proofs.Calls
import Calculator.Proofs.Spacing
import Calculator.Proofs.Sentences
import Calculator.Proofs.Tables
import Calculator.Proofs.Loading
import Calculator.Proofs.Operands
import Calculator.Proofs.Trace
import Calculator.Proofs.Replacement
import Calculator.Proofs.Recent
import Calculator.Proofs.Changes
import Calculator.Proofs.Pasts
import Calculator.Proofs.Insertion
import Calculator.Proofs.Mappings
import Calculator.Proofs.Assignments
import Calculator.Proofs.Totality
import Calculator.Proofs.Reporting
import Calculator.Proofs.Merging
import Calculator.Proofs.Unclosed
import Calculator.Proofs.Stack
