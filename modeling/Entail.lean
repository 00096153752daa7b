import Entail.Main
import Entail.Ring.Copy
import Entail.Ring.Horn
import Entail.Session
import Entail.Proofs.Engine.Agreement
import Entail.Proofs.Engine.Counting
import Entail.Proofs.Engine.Justification
import Entail.Proofs.Engine.Tautology
import Entail.Proofs.Ring.Acceptance
import Entail.Proofs.Ring.Conjunctive
import Entail.Proofs.Ring.Falsifying
import Entail.Proofs.Ring.Separation
import Entail.Proofs.Ring.Rewriting
import Entail.Proofs.Ring.Dual
import Entail.Proofs.Ring.Occurrence
import Entail.Proofs.Ring.NegationNormal
import Entail.Proofs.Ring.Associativity
import Entail.Proofs.Formula.Parts
import Entail.Proofs.Ring.Associate
import Entail.Proofs.Ring.Combining
import Entail.Proofs.RoundTrip
import Entail.Proofs.Ring.Operation
import Entail.Proofs.Ring.Rereading
import Entail.Proofs.Ring.Base
import Entail.Proofs.Ring.Index
import Entail.Proofs.Horn.Expansion
import Entail.Proofs.Ring.Indexed
import Entail.Proofs.Ring.Refusal
import Entail.Proofs.Session
import Entail.Proofs.Ring.Assuming
import Entail.Proofs.Truth.Enumeration
import Entail.Proofs.Ring.Nesting
