import Michelson.Json.Form
import Michelson.Json.Writer
import Michelson.Proofs.Divergence
import Michelson.Proofs.TypeEquality
import Michelson.Proofs.Weakening
import Michelson.Proofs.Contract
import Michelson.Proofs.Refusal
import Michelson.Proofs.StackEffect
import Michelson.Proofs.Congruence
import Michelson.Proofs.Iteration
import Michelson.Proofs.Causes
import Michelson.Proofs.Scopes
import Michelson.Proofs.NestingLimit
import Michelson.Proofs.Evidence
import Michelson.Proofs.ReadBack
import Michelson.Proofs.Faults
import Michelson.Proofs.Lambda
import Michelson.Proofs.Branches
import Michelson.Proofs.Dip
import Michelson.Proofs.EqualityLaws
import Michelson.Proofs.Components
import Michelson.Proofs.WellFormed
import Michelson.Proofs.Promotion
import Michelson.Proofs.Combs
import Michelson.Proofs.Rotation
import Michelson.Proofs.UniqueReading
