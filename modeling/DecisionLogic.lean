import DecisionLogic.Computation.Lemmas
import DecisionLogic.Main
import DecisionLogic.Operator.Describe
import DecisionLogic.Program.Calls
import DecisionLogic.Proofs.Attribution.Surfacing
import DecisionLogic.Proofs.Calls.Isolation
import DecisionLogic.Proofs.Cancellation.Calls
import DecisionLogic.Proofs.Classification.Names
import DecisionLogic.Proofs.Classification.Soundness
import DecisionLogic.Proofs.Comparison.Coherence
import DecisionLogic.Proofs.Confinement.Engine
import DecisionLogic.Proofs.Continuation.Engine
import DecisionLogic.Proofs.Course.Engine
import DecisionLogic.Proofs.Inlining.Programs
import DecisionLogic.Proofs.Nesting.Chain
import DecisionLogic.Proofs.Options.Precedence
import DecisionLogic.Proofs.Parsing.Exactness
import DecisionLogic.Proofs.Pool.Bound
import DecisionLogic.Proofs.Pool.Endings
import DecisionLogic.Proofs.Pool.Order
import DecisionLogic.Proofs.Program.AtOnce
import DecisionLogic.Proofs.Provenance.Chain
import DecisionLogic.Proofs.Resumption.Chain
import DecisionLogic.Proofs.Scope.Lookup
import DecisionLogic.Proofs.Standard.Integers
import DecisionLogic.Proofs.Standard.Words
import DecisionLogic.Proofs.Suspension.Outcomes
import DecisionLogic.Proofs.Suspension.Replacements
import DecisionLogic.Proofs.Suspension.Storage
import DecisionLogic.Proofs.Timing.Runs
