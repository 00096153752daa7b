import Entail.Engine.Basic
import Entail.Proofs.Engine.Satisfiability

/-!
# Refutation decides entailment

An engine that works by refutation answers a query positively exactly if the
knowledge base entails it, and otherwise finds literals that describe
counterexamples.
-/

namespace Entail

theorem Formula.propositions_le_of_mem_counterBase {kb : KnowledgeBase} {query : Formula}
    {bound : Nat} (small : ∀ f ∈ query :: kb.clauses, f.propositions.length ≤ bound) :
    ∀ f ∈ (Refutation.counterBase kb query).clauses, f.propositions.length ≤ bound := by
  rcases List.forall_mem_cons.1 small with ⟨smallQuery, smallClauses⟩
  refine List.forall_mem_cons.2 ⟨?_, smallClauses⟩
  rwa [Formula.propositions_negate]

/-- The answer to whether the clauses are unsatisfiable. -/
theorem SearchMode.unsatisfiable_answer (isSatisfiable : Bool) :
    unsatisfiable.answer isSatisfiable = if isSatisfiable then "NO" else "YES" := by
  cases isSatisfiable <;> rfl

/-- Once its query is read, a refutation answers by the outcome of its search. -/
theorem Refutation.exists_prove_eq {kb : KnowledgeBase} {ask : String} {query : Formula}
    (parsed : Formula.ofText ask = .ok query)
    (small : ∀ f ∈ query :: kb.clauses, f.propositions.length ≤ maxTableSymbols)
    (found : Refutation) :
    ∃ solver : Satisfiability, solver.Decides (counterBase kb query) ∧
      prove kb ask found = (⟨some solver⟩, .ok (if solver.path.isSome then "NO" else "YES")) := by
  rcases Satisfiability.decideSat_decides (Formula.propositions_le_of_mem_counterBase small)
    .initial with ⟨outcome, decides⟩
  refine ⟨_, decides, ?_⟩
  simp only [prove, parsed, outcome, Except.map, SearchMode.unsatisfiable_answer]

/-- Whether an engine that refutes answers YES tells whether the knowledge base entails the query. -/
theorem Engine.exists_answer_of_refutation {engine : Engine} {found : Refutation}
    (method : engine.work = .refutation found) {kb : KnowledgeBase} {ask : String}
    {query : Formula} (parsed : Formula.ofText ask = .ok query)
    (small : ∀ f ∈ query :: kb.clauses, f.propositions.length ≤ maxTableSymbols) (now : Float) :
    ∃ answer, (engine.prove kb ask now).2 = .ok answer ∧ (answer = "YES" ∨ answer = "NO") ∧
      (answer = "YES" ↔ kb.Entails query) := by
  rcases Refutation.exists_prove_eq parsed small found with ⟨solver, decides, result⟩
  refine ⟨if solver.path.isSome then "NO" else "YES", ?_, ?_⟩
  · simp [prove, method, Work.prove, result]
  · rw [KnowledgeBase.entails_iff_not_isTrue_counterBase, ← decides.isSome_iff]
    cases solver.path <;> simp

/-- An engine that refutes answers YES or NO, and YES exactly if the knowledge base entails the
query.  If it answers NO, its search ended with literals over distinct symbols such that every
assignment under which they are true makes the knowledge base true and the query false. -/
theorem Engine.refutation_decides_entailment {engine : Engine} {found : Refutation}
    (method : engine.work = .refutation found) {kb : KnowledgeBase} {ask : String}
    {query : Formula} (parsed : Formula.ofText ask = .ok query)
    (small : ∀ f ∈ query :: kb.clauses, f.propositions.length ≤ maxTableSymbols) (now : Float) :
    ∃ solver answer, (engine.prove kb ask now).1.work = .refutation ⟨some solver⟩ ∧
      (engine.prove kb ask now).2 = .ok answer ∧ (answer = "YES" ∨ answer = "NO") ∧
      (answer = "YES" ↔ kb.Entails query) ∧
      (answer = "NO" → ∃ path, solver.path = some path ∧ (path.map Literal.name).Nodup ∧
        ∀ v : Valuation, v.Agrees path → kb.IsTrue v ∧ query.eval v = false) := by
  rcases Refutation.exists_prove_eq parsed small found with ⟨solver, decides, result⟩
  refine ⟨solver, if solver.path.isSome then "NO" else "YES", ?_, ?_, ?_⟩
  · simp [prove, method, Work.prove, result]
  · simp [prove, method, Work.prove, result]
  · rw [KnowledgeBase.entails_iff_not_isTrue_counterBase, ← decides.isSome_iff]
    cases ended : solver.path with
    | none => simp
    | some path =>
        refine ⟨.inr rfl, by simp, fun _ => ⟨path, rfl, decides.distinct path ended, ?_⟩⟩
        intro v agrees
        exact KnowledgeBase.isTrue_counterBase_iff.1 (decides.isTrue path ended v agrees)

/-- An implication and its premise entail the conjunction of both sides, which has a negated group
as its negation. -/
theorem Engine.refutation_decides_entailment_of_implication :
    let kb : KnowledgeBase := ⟨[.pair (.symbol false "a") .impl (.symbol false "b"),
      .single (.symbol false "a")]⟩
    let query : Formula := .pair (.symbol false "b") .conj (.symbol false "a")
    let engine : Engine := .ofWork .standard (.refutation .initial)
    engine.work = .refutation .initial ∧ Formula.ofText "b & a" = .ok query ∧
      (∀ f ∈ query :: kb.clauses, f.propositions.length ≤ maxTableSymbols) ∧
      ∃ solver answer, (engine.prove kb "b & a" 0).1.work = .refutation ⟨some solver⟩ ∧
        (engine.prove kb "b & a" 0).2 = .ok answer ∧ (answer = "YES" ∨ answer = "NO") ∧
        (answer = "YES" ↔ kb.Entails query) ∧
        (answer = "NO" → ∃ path, solver.path = some path ∧ (path.map Literal.name).Nodup ∧
          ∀ v : Valuation, v.Agrees path → kb.IsTrue v ∧ query.eval v = false) := by
  intro kb query engine
  have parsed : Formula.ofText "b & a" = .ok query := by decide +kernel
  have small : ∀ f ∈ query :: kb.clauses, f.propositions.length ≤ maxTableSymbols := by
    decide +kernel
  exact ⟨rfl, parsed, small, refutation_decides_entailment rfl parsed small 0⟩

end Entail
