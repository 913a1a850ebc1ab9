import Formulary.Code.Flattening
import Formulary.Evaluation.Direct
import Formulary.Evaluation.Machine
import Formulary.Proofs.Registration
import Formulary.Proofs.StackMachine
import Formulary.Workspace.Basic
import Formulary.Proofs.Requests
import Formulary.Proofs.Guards
import Formulary.Proofs.TypeFailures
import Formulary.Proofs.Sessions
import Formulary.Proofs.OrderedMap
import Formulary.Proofs.Reachability
import Formulary.Proofs.Dispatch
import Formulary.Proofs.CatalogValues
import Formulary.Proofs.Locality
import Formulary.Proofs.Widening
import Formulary.Proofs.Entries
import Formulary.Evaluation.Nesting
import Formulary.Proofs.Limits
import Formulary.Proofs.RecursiveDefinitions
import Formulary.Proofs.Termination
import Formulary.Proofs.Conditions
import Formulary.Proofs.Provenance
import Formulary.Proofs.Permanence
import Formulary.Proofs.ProperCalls
import Formulary.Proofs.DirectEvaluation
import Formulary.Proofs.Phases
import Formulary.Proofs.Inlining
import Formulary.Proofs.ListOperations
import Formulary.Proofs.Faults
import Formulary.Proofs.SelfCalls
import Formulary.Proofs.DeclaredTypes
import Formulary.Proofs.Hoisting
import Formulary.Proofs.MapComposition
import Formulary.Proofs.Rebuilding
import Formulary.Proofs.Bookkeeping
import Formulary.Proofs.HostData
import Formulary.Proofs.Inference
import Formulary.Proofs.Identification
import Formulary.Proofs.RealTexts
import Formulary.Proofs.ValueTexts
import Formulary.Proofs.Unambiguity
import Formulary.Proofs.Exhaustion
