import Tidy.Editor
import Tidy.Guard.Request
import Tidy.Main
import Tidy.Workspace.Request
import Tidy.Proofs.Content
import Tidy.Proofs.Convergence
import Tidy.Proofs.Delivery
import Tidy.Proofs.Exclusion
import Tidy.Proofs.Fallback
import Tidy.Proofs.Invariant
import Tidy.Proofs.ModelStability
import Tidy.Proofs.PositionMapping
import Tidy.Proofs.RunOrder
import Tidy.Proofs.Stability
import Tidy.Proofs.Synchronization
import Tidy.Proofs.WholeImports
import Tidy.Proofs.Reading
import Tidy.Proofs.Quotation
import Tidy.Proofs.Comments
import Tidy.Proofs.Grammar
import Tidy.Proofs.RoundTrip
import Tidy.Proofs.Columns
import Tidy.Proofs.ImportedSpecifiers
import Tidy.Proofs.Locality
import Tidy.Proofs.PositionOrder
import Tidy.Proofs.Validation
import Tidy.Proofs.SpecifierOrder
import Tidy.Proofs.RunWalk
import Tidy.Proofs.FromClause
