import SymCalc.Comparison
import SymCalc.Expr.Build
import SymCalc.Main
import SymCalc.Session
import SymCalc.Proofs.Double.Packing
import SymCalc.Proofs.Double.Rounding
import SymCalc.Proofs.Decimal.Numeral
import SymCalc.Proofs.Expr.Nodes
import SymCalc.Proofs.Expr.Grammar
import SymCalc.Proofs.Expr.Completeness
import SymCalc.Proofs.Expr.Soundness
import SymCalc.Proofs.Expr.RoundTrip
import SymCalc.Proofs.Double.Agreement
import SymCalc.Proofs.Double.Faults
import SymCalc.Proofs.Expr.SimplifiedValue
import SymCalc.Proofs.Expr.Differentiation
import SymCalc.Proofs.Expr.Failures
import SymCalc.Proofs.Expr.LogarithmBases
import SymCalc.Proofs.Expr.ErrorPosition
import SymCalc.Proofs.Expr.Reparsing
import SymCalc.Proofs.Console.Answer
import SymCalc.Proofs.Console.Caret
import SymCalc.Proofs.Console.Dialogue
import SymCalc.Proofs.Console.Independence
import SymCalc.Proofs.Expr.Equality
import SymCalc.Proofs.Expr.Remembering
import SymCalc.Proofs.Expr.Preservation
import SymCalc.Proofs.Expr.CanonicalForm
import SymCalc.Proofs.Expr.Transformation
import SymCalc.Proofs.EqualTexts
import SymCalc.Proofs.Polynomial.Grammar
import SymCalc.Proofs.Polynomial.Coefficients
import SymCalc.Proofs.Polynomial.RoundTrip
import SymCalc.Proofs.Session.Identity
import SymCalc.Proofs.Expr.RationalValue
import SymCalc.Proofs.Expr.Adjacency
import SymCalc.Proofs.Polynomial.Value
import SymCalc.Proofs.Polynomial.Slope
import SymCalc.Proofs.Polynomial.CommonTexts
import SymCalc.Proofs.Expr.NormalForm
import SymCalc.Proofs.Expr.Differentiability
import SymCalc.Proofs.Expr.DerivativeDomain
import SymCalc.Proofs.Console.StableLine
import SymCalc.Proofs.Expr.SimplifiedDomain
import SymCalc.Proofs.Expr.SimplifiedNodes
import SymCalc.Proofs.Expr.ConstantSlope
import SymCalc.Proofs.Polynomial.Reading
import SymCalc.Proofs.Polynomial.Horner
import SymCalc.Proofs.Polynomial.Canonical
import SymCalc.Proofs.Samples
import SymCalc.Proofs.Expr.Indistinguishable
import SymCalc.Proofs.Double.WholeNumbers
import SymCalc.Proofs.Expr.LargePowers
import SymCalc.Proofs.Expr.Fold
import SymCalc.Proofs.Expr.SharedWalk
