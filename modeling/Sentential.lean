import Sentential.Formula.Layout
import Sentential.Formula.Operator
import Sentential.Mapping
import Sentential.Proofs.Expression.Conversion
import Sentential.Proofs.Expression.RoundTrip
import Sentential.Proofs.Formula.Calls
import Sentential.Proofs.Formula.Visits
import Sentential.Proofs.Implicant.Arrangement
import Sentential.Proofs.Implicant.Column
import Sentential.Proofs.Implicant.Halves
import Sentential.Proofs.Implicant.Scan
import Sentential.Proofs.Implicant.Turns
import Sentential.Proofs.Infix.Reader
import Sentential.Proofs.Minimizer.Dependence
import Sentential.Proofs.Minimizer.Ends
import Sentential.Proofs.Minimizer.Equivalence
import Sentential.Proofs.Minimizer.History
import Sentential.Proofs.Minimizer.Idempotence
import Sentential.Proofs.Minimizer.Level
import Sentential.Proofs.Minimizer.Minimal
import Sentential.Proofs.Minimizer.Precedence
import Sentential.Proofs.Minimizer.Sizes
import Sentential.Proofs.NormalForm.Clauses
import Sentential.Proofs.NormalForm.Complement
import Sentential.Proofs.NormalForm.FixedPoint
import Sentential.Proofs.NormalForm.Grammar
import Sentential.Proofs.NormalForm.Meaning
import Sentential.Proofs.NormalForm.Polarity
import Sentential.Proofs.NormalForm.Shape
import Sentential.Proofs.Report.Stamp
import Sentential.Proofs.Semantics.Replacement
import Sentential.Proofs.Semantics.RoundTrip
import Sentential.Proofs.Semantics.Substitution
import Sentential.Proofs.Semantics.Tabulation
import Sentential.Proofs.Semantics.Truth
import Sentential.Report.Diagnostic
import Sentential.Report.Record
import Sentential.Report.Stopwatch
import Sentential.Proofs.Implicant.Positions
import Sentential.Proofs.NormalForm.Duality
import Sentential.Proofs.Semantics.Products
import Sentential.Proofs.Written.Quotes
import Sentential.Proofs.Written.Reader
import Sentential.Proofs.Infix.Typeset
import Sentential.Proofs.Mapping.Canonical
import Sentential.Proofs.Mapping.Given
import Sentential.Proofs.Written.Layout
