import Stencil.Main
import Stencil.Proofs.Activity
import Stencil.Proofs.Block.Basic
import Stencil.Proofs.Block.Run
import Stencil.Proofs.Partition.Basic
import Stencil.Proofs.Partition.Directive
import Stencil.Proofs.Partition.Scan
import Stencil.Proofs.Partition.Seam
import Stencil.Proofs.Partition.Unterminated
import Stencil.Proofs.Numeral
import Stencil.Proofs.Quotation
import Stencil.Proofs.Spacing
import Stencil.Proofs.Grammar.Basic
import Stencil.Proofs.Grammar.Outcome
import Stencil.Proofs.Grammar.Sound
import Stencil.Proofs.Grammar.Complete
import Stencil.Proofs.Grammar.Parse
import Stencil.Proofs.Grammar.Spacing
import Stencil.Proofs.Grammar.Print
import Stencil.Proofs.Grammar.Insertion
import Stencil.Proofs.Grammar.StringLiteral
import Stencil.Proofs.Grammar.Descent
import Stencil.Proofs.Lexeme
import Stencil.Proofs.Lexicon
import Stencil.Proofs.Segmentation
import Stencil.Proofs.Assignment
import Stencil.Proofs.Reference
import Stencil.Proofs.Alike
import Stencil.Proofs.Noninterference
import Stencil.Proofs.Confinement
import Stencil.Proofs.Protection
import Stencil.Proofs.Boundary
import Stencil.Proofs.Atomicity
import Stencil.Proofs.Matching
import Stencil.Proofs.Exclusivity
import Stencil.Proofs.Overlong
import Stencil.Proofs.Interpolation
import Stencil.Proofs.PlainText
import Stencil.Proofs.Skipping
import Stencil.Proofs.Storing
import Stencil.Proofs.Truncation
import Stencil.Proofs.Message
import Stencil.Proofs.Labelling
import Stencil.Proofs.Decomposition
import Stencil.Proofs.Codec
import Stencil.Proofs.Comparison
import Stencil.Proofs.Rounding
import Stencil.Proofs.Division
import Stencil.Proofs.Extremum
import Stencil.Proofs.HalfUp
import Stencil.Proofs.Remainder
import Stencil.Proofs.LeadingDigits
import Stencil.Proofs.Position
