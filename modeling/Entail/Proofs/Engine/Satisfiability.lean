import Entail.Proofs.Clause.Falsifying
import Entail.Proofs.Clause.Search
import Entail.Proofs.Entailment

/-!
# Deciding satisfiability

The clauses of a knowledge base whose formulas are small enough for their truth
tables are searched for literals that make it true.
-/

namespace Entail.Satisfiability

/-- The outcome of a search over a knowledge base: there is a path exactly if the knowledge base
can be true, and the path holds literals over distinct symbols which make it true. -/
structure Decides (kb : KnowledgeBase) (found : Satisfiability) : Prop where
  isSome_iff : found.path.isSome = true ↔ ∃ v, kb.IsTrue v
  distinct : ∀ path, found.path = some path → (path.map Literal.name).Nodup
  isTrue : ∀ path, found.path = some path → ∀ v : Valuation, v.Agrees path → kb.IsTrue v

/-- A satisfiability search comes to an end with the right answer. -/
theorem decideSat_decides {kb : KnowledgeBase}
    (small : ∀ f ∈ kb.clauses, f.propositions.length ≤ maxTableSymbols) (found : Satisfiability) :
    (decideSat kb found).2 = .ok (decideSat kb found).1.path.isSome ∧
      Decides kb (decideSat kb found).1 := by
  rcases Clause.exists_ofFormulas_eq_ok small with ⟨clauses, result, meaning⟩
  simp only [decideSat, result, true_and]
  have solution : ∀ path, search clauses [] = some path → Solves clauses path := by
    intro path searched
    rcases solves_of_search searched with ⟨new, rfl, solves⟩
    exact solves
  refine ⟨?_, fun path searched => (solution path searched).distinct, ?_⟩
  · constructor
    · intro isSome
      rcases Option.isSome_iff_exists.1 isSome with ⟨path, searched⟩
      rcases exists_agrees_of_nodup (solution path searched).distinct with ⟨v, agrees⟩
      exact ⟨v, (meaning v).1 ((solution path searched).satisfies v agrees)⟩
    · rintro ⟨v, isTrue⟩
      by_contra failed
      rw [Bool.not_eq_true, Option.isSome_eq_false_iff, Option.isNone_iff_eq_none] at failed
      exact not_satisfies_of_search failed v ((meaning v).2 isTrue)
  · intro path searched v agrees
    exact (meaning v).1 ((solution path searched).satisfies v agrees)

end Entail.Satisfiability
