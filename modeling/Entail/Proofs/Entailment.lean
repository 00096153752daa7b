import Entail.Engine.Refutation
import Entail.Proofs.Formula.Evaluation

/-!
# Entailment

A knowledge base entails a formula if the formula is true under every
assignment that makes all clauses true.  The knowledge base that a refutation
searches is true exactly under the counterexamples to entailment.
-/

namespace Entail.KnowledgeBase

/-- All clauses are true. -/
def IsTrue (kb : KnowledgeBase) (v : Valuation) : Prop :=
  ∀ f ∈ kb.clauses, f.eval v = true

/-- The formula is true wherever the knowledge base is. -/
def Entails (kb : KnowledgeBase) (query : Formula) : Prop :=
  ∀ v : Valuation, kb.IsTrue v → query.eval v = true

theorem isTrue_counterBase_iff {kb : KnowledgeBase} {query : Formula} {v : Valuation} :
    (Refutation.counterBase kb query).IsTrue v ↔ kb.IsTrue v ∧ query.eval v = false := by
  simp [Refutation.counterBase, IsTrue, and_comm]

theorem entails_iff_not_isTrue_counterBase {kb : KnowledgeBase} {query : Formula} :
    kb.Entails query ↔ ¬ ∃ v, (Refutation.counterBase kb query).IsTrue v := by
  simp only [isTrue_counterBase_iff]
  constructor
  · rintro entails ⟨v, isTrue, isFalse⟩
    rw [entails v isTrue] at isFalse
    contradiction
  · intro noCounterexample v isTrue
    cases value : query.eval v with
    | true => rfl
    | false => exact absurd ⟨v, isTrue, value⟩ noCounterexample

end Entail.KnowledgeBase
