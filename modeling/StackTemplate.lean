import StackTemplate.Main
import StackTemplate.Template.Agreement
import StackTemplate.Proofs.Evaluation.Evaluator
import StackTemplate.Proofs.Dependency.Order
import StackTemplate.Proofs.Elaboration.Precedence
import StackTemplate.Proofs.Elaboration.Bookkeeping
import StackTemplate.Proofs.Elaboration.RoundTrip
import StackTemplate.Proofs.Elaboration.WellFormed
import StackTemplate.Proofs.Pruning.Deciding
import StackTemplate.Proofs.Pruning.Values
import StackTemplate.Proofs.Pruning.Rebuilding
import StackTemplate.Proofs.Pruning.Exactness
import StackTemplate.Proofs.Pruning.PseudoParameters
import StackTemplate.Proofs.Resolution.Spelling
import StackTemplate.Proofs.Elaboration.Outline
import StackTemplate.Proofs.Elaboration.Spelling
import StackTemplate.Proofs.Evaluation.Termination
import StackTemplate.Proofs.Network.Address
import StackTemplate.Proofs.Network.Carving
import StackTemplate.Proofs.Substitution
import StackTemplate.Proofs.Elaboration.Faults
import StackTemplate.Proofs.Dependency.Waves
import StackTemplate.Proofs.Dot
import StackTemplate.Proofs.Evaluation.Splitting
import StackTemplate.Proofs.Elaboration.PlainData
import StackTemplate.Proofs.Elaboration.DistinctKeys
import StackTemplate.Proofs.Diagnostic.Location
import StackTemplate.Proofs.Diagnostic.Position
import StackTemplate.Proofs.Dependency.Indexed
import StackTemplate.Proofs.Elaboration.Walk
