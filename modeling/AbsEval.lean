import AbsEval.ArrayLiteral
import AbsEval.Double.Interchange
import AbsEval.Double.Order
import AbsEval.Eval.Binary
import AbsEval.Eval.Unary
import AbsEval.Proofs.Arithmetic.Agreement
import AbsEval.Proofs.Arithmetic.Bitwise
import AbsEval.Proofs.Arithmetic.Promotion
import AbsEval.Proofs.Arithmetic.ZeroDivision
import AbsEval.Proofs.Comparison.Consistency
import AbsEval.Proofs.Comparison.Integers
import AbsEval.Proofs.Conversion.Unary
import AbsEval.Proofs.Double.Text
import AbsEval.Proofs.Entry.Algebra
import AbsEval.Proofs.Evaluation.Concatenation
import AbsEval.Proofs.Evaluation.Copying
import AbsEval.Proofs.Evaluation.Faults
import AbsEval.Proofs.Evaluation.Monotone
import AbsEval.Proofs.Evaluation.Normal
import AbsEval.Proofs.Evaluation.Pairwise
import AbsEval.Proofs.Evaluation.Truth
import AbsEval.Proofs.Index.Resolution
import AbsEval.Proofs.Literal.Collecting
import AbsEval.Proofs.Literal.Coverage
import AbsEval.Proofs.Literal.Reordering
import AbsEval.Proofs.Numeral.Spelling
import AbsEval.Proofs.Store.Abstraction
import AbsEval.Proofs.Store.Aliasing
import AbsEval.Proofs.Store.Emptiness
import AbsEval.Proofs.Store.Mirroring
import AbsEval.Proofs.Store.Narrowing
import AbsEval.Proofs.Store.Simulation
import AbsEval.Value.Meaning
