import ScalarEval.Evaluate.Run
import ScalarEval.Main
import ScalarEval.Proofs.Canonical
import ScalarEval.Proofs.Classification
import ScalarEval.Proofs.Comparison
import ScalarEval.Proofs.Division
import ScalarEval.Proofs.ExactWidth
import ScalarEval.Proofs.Exchange
import ScalarEval.Proofs.FloatRounding
import ScalarEval.Proofs.LowBits
import ScalarEval.Proofs.Modular
import ScalarEval.Proofs.OperandText
import ScalarEval.Proofs.Options
import ScalarEval.Proofs.PointerBits
import ScalarEval.Proofs.Provenance
import ScalarEval.Proofs.Report
import ScalarEval.Proofs.Shifting
import ScalarEval.Proofs.WiderKind
import ScalarEval.Proofs.WordOrder
import ScalarEval.Proofs.Ieee.Denotation
import ScalarEval.Proofs.FloatOrder
import ScalarEval.Proofs.BooleanAlgebra
import ScalarEval.Proofs.IntegerNegation
import ScalarEval.Proofs.FloatRemainder
import ScalarEval.Proofs.SignSymmetry
import ScalarEval.Proofs.SpecialValues
import ScalarEval.Proofs.FloatPacking
import ScalarEval.Proofs.NumeralSign
import ScalarEval.Proofs.WrittenInteger
import ScalarEval.Proofs.IntegerCodec
import ScalarEval.Proofs.NumeralLimit
import ScalarEval.Proofs.Setting
import ScalarEval.Proofs.Refusal
import ScalarEval.Proofs.Records
import ScalarEval.Proofs.TruthValue
