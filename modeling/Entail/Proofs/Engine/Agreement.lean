import Entail.Proofs.Engine.Chaining
import Entail.Proofs.Engine.Refutation
import Entail.Proofs.Engine.TruthTable
import Entail.Proofs.Horn.Meaning
import Entail.Proofs.KnowledgeBase

/-!
# Engines that agree

Truth tables, refutation, chaining and the search for a satisfying assignment
answer by different procedures; each answer is tied to what the formulas mean,
so that the answers can be compared.
-/

namespace Entail

variable {kb : KnowledgeBase}

/-- A search tells whether the formulas can be true together. -/
theorem Satisfiability.exists_decideSat_eq
    (small : ∀ f ∈ kb.clauses, f.propositions.length ≤ maxTableSymbols) (found : Satisfiability) :
    ∃ isSatisfiable, (decideSat kb found).2 = .ok isSatisfiable ∧
      (isSatisfiable = true ↔ ∃ v, kb.IsTrue v) := by
  rcases decideSat_decides small found with ⟨outcome, decides⟩
  exact ⟨_, outcome, decides.isSome_iff⟩

theorem KnowledgeBase.propositions_le_maxTableSymbols
    (few : (propositions kb.symbols).length ≤ maxTableSymbols) {query : Formula}
    (known : ∀ name ∈ query.propositions, name ∈ propositions kb.symbols) :
    ∀ f ∈ query :: kb.clauses, f.propositions.length ≤ maxTableSymbols := by
  have listed : Table.Lists (propositions kb.symbols) (query :: kb.clauses) :=
    List.forall_mem_cons.2 ⟨known, kb.lists_propositions⟩
  intro f isFormula
  exact Nat.le_trans (propositions_le_of_listed (listed f isFormula)) few

/-- The truth table counts models exactly if the search succeeds.  A strict truth table affirms a
query over the symbols of the knowledge base exactly if the search succeeds and the refutation
answers YES, and one that is not strict exactly if the search succeeds with the query told too. -/
theorem Engine.truthTable_agrees_with_search
    (few : (propositions kb.symbols).length ≤ maxTableSymbols)
    {strict lenient resolution : Engine} {table table' : TruthTable} {refutation : Refutation}
    (strictMethod : strict.work = .truthTable table) (isStrict : strict.options.strict = true)
    (strictLimit : strict.options.maxSymbols = .ok maxTableSymbols)
    (lenientMethod : lenient.work = .truthTable table')
    (isLenient : lenient.options.strict = false)
    (lenientLimit : lenient.options.maxSymbols = .ok maxTableSymbols)
    (resolutionMethod : resolution.work = .refutation refutation)
    {ask : String} {query : Formula} (parsed : Formula.ofText ask = .ok query)
    (known : ∀ name ∈ query.propositions, name ∈ kb.symbols)
    (search search' : Satisfiability) (now now' now'' : Float) :
    (∃ count, TruthTable.countModels lenient.options kb = .ok count ∧
      (search.decideSat kb).2 = .ok (decide (0 < count))) ∧
    (∃ answer, (resolution.prove kb ask now).2 = .ok answer ∧
      strict.Decides kb ask now' ((search.decideSat kb).2 = .ok true ∧ answer = "YES")) ∧
    (∃ isSatisfiable, (search'.decideSat (kb.tell query)).2 = .ok isSatisfiable ∧
      lenient.Decides kb ask now'' (isSatisfiable = true)) := by
  have known' : ∀ name ∈ query.propositions, name ∈ propositions kb.symbols := by
    intro name isProposition
    have isVariable := (Formula.mem_propositions.1 isProposition).2
    simp [propositions, known name isProposition, isVariable]
  have small := KnowledgeBase.propositions_le_maxTableSymbols few known'
  have smallTold : ∀ f ∈ (kb.tell query).clauses, f.propositions.length ≤ maxTableSymbols := by
    intro f isTold
    exact small f (by simpa [KnowledgeBase.tell, or_comm] using isTold)
  rcases Satisfiability.exists_decideSat_eq (List.forall_mem_cons.1 small).2 search with
    ⟨satisfiable, searched, meaning⟩
  rcases Satisfiability.exists_decideSat_eq smallTold search' with
    ⟨satisfiable', searched', meaning'⟩
  rcases exists_answer_of_refutation resolutionMethod parsed small now with
    ⟨answer, answered, -, answerMeaning⟩
  have counted := TruthTable.countModels_eq_ok lenientLimit few
  have positive := Table.countTrue_pos_iff kb.nodup_propositions kb.lists_propositions
  have sameOutcome :
      satisfiable = decide (0 < Table.countTrue (propositions kb.symbols) kb.clauses) := by
    rw [Bool.eq_iff_iff, meaning, decide_eq_true_iff, positive]
    rfl
  refine ⟨⟨_, counted, sameOutcome ▸ searched⟩, ⟨answer, answered, ?_⟩,
    ⟨satisfiable', searched', ?_⟩⟩
  · rw [searched, Except.ok.injEq, meaning, answerMeaning]
    exact decides_of_strict_truthTable strictMethod isStrict strictLimit few parsed known' now'
  · rw [meaning']
    exact decides_of_truthTable lenientMethod isLenient lenientLimit few parsed known' now''

/-- The engines agree on a knowledge base that is false in most rows, asked with a constant. -/
theorem Engine.truthTable_agrees_with_search_on_disjunction :
    let kb : KnowledgeBase := ⟨[.pair (.symbol false "a") .disj (.symbol false "b"),
      .single (.symbol true "a")]⟩
    let query : Formula := .pair (.symbol false "b") .conj (.symbol false "true")
    let strict : Engine := .ofWork { Options.standard with strict := true } (.truthTable .initial)
    let lenient : Engine := .ofWork .standard (.truthTable .initial)
    let resolution : Engine := .ofWork .standard (.refutation .initial)
    (propositions kb.symbols).length ≤ maxTableSymbols ∧
      strict.work = .truthTable .initial ∧ strict.options.strict = true ∧
      strict.options.maxSymbols = .ok maxTableSymbols ∧
      lenient.work = .truthTable .initial ∧ lenient.options.strict = false ∧
      lenient.options.maxSymbols = .ok maxTableSymbols ∧
      resolution.work = .refutation .initial ∧ Formula.ofText "b & true" = .ok query ∧
      (∀ name ∈ query.propositions, name ∈ kb.symbols) ∧
      (∃ count, TruthTable.countModels lenient.options kb = .ok count ∧
        (Satisfiability.initial.decideSat kb).2 = .ok (decide (0 < count))) ∧
      (∃ answer, (resolution.prove kb "b & true" 0).2 = .ok answer ∧
        strict.Decides kb "b & true" 0
          ((Satisfiability.initial.decideSat kb).2 = .ok true ∧ answer = "YES")) ∧
      (∃ isSatisfiable,
        (Satisfiability.initial.decideSat (kb.tell query)).2 = .ok isSatisfiable ∧
          lenient.Decides kb "b & true" 0 (isSatisfiable = true)) := by
  intro kb query strict lenient resolution
  have few : (propositions kb.symbols).length ≤ maxTableSymbols := by decide +kernel
  have parsed : Formula.ofText "b & true" = .ok query := by decide +kernel
  have known : ∀ name ∈ query.propositions, name ∈ kb.symbols := by decide +kernel
  have strictMethod : strict.work = .truthTable .initial := rfl
  have lenientMethod : lenient.work = .truthTable .initial := rfl
  have resolutionMethod : resolution.work = .refutation .initial := rfl
  exact ⟨few, rfl, rfl, rfl, rfl, rfl, rfl, rfl, parsed, known,
    truthTable_agrees_with_search few strictMethod rfl rfl lenientMethod rfl rfl resolutionMethod
      parsed known .initial .initial 0 0 0⟩

/-! ### Refutation and chaining -/

theorem Chaining.ofText_eq_of_goal {ask symbol : String}
    (asked : (Formula.ofText ask).bind goal = .ok symbol) :
    Formula.ofText ask = .ok (.single (.symbol false symbol)) := by
  cases parsed : Formula.ofText ask with
  | error => simp [parsed, Except.bind] at asked
  | ok query =>
      simp only [parsed, Except.bind] at asked
      unfold goal at asked
      split at asked
      · cases asked
        rfl
      · contradiction

/-- The clauses, which mention no constants, as the index of the knowledge base takes them. -/
theorem KnowledgeBase.IsMade.isUniformOver (made : kb.IsMade)
    (noConstants : ∀ f ∈ kb.clauses, ∀ name ∈ f.names, constantValue? name = none) :
    ∀ f ∈ kb.clauses, f.IsUniformOver fun name => constantValue? name = none :=
  fun f isClause => ⟨(made f isClause).isUniform_and_isWritable.1, noConstants f isClause⟩

/-- Forward chaining answers by what the index derives. -/
theorem Engine.decides_of_forward {index : HornIndex} {ask symbol : String} {forward : Engine}
    {found : Chaining} (chains : forward.work = .chaining (some .forward) found)
    (indexed : HornIndex.ofKnowledgeBase kb = .ok index)
    (asked : (Formula.ofText ask).bind Chaining.goal = .ok symbol) (now : Float) :
    forward.Decides kb ask now (index.Derivable symbol) := by
  have wellFormed := HornIndex.WellFormed.ofKnowledgeBase indexed
  exact decides_of_prove (prove_of_chaining chains indexed asked now).2
    (HornIndex.success_chainForward_iff wellFormed symbol)

/-- On a knowledge base that has a Horn index and mentions no constants, refutation answers YES to a
symbol exactly if forward chaining affirms the symbol or the constant `false`. -/
theorem Engine.refutation_agrees_with_chaining (made : kb.IsMade)
    (noConstants : ∀ f ∈ kb.clauses, ∀ name ∈ f.names, constantValue? name = none)
    (small : ∀ f ∈ kb.clauses, f.propositions.length ≤ maxTableSymbols)
    {index : HornIndex} (indexed : HornIndex.ofKnowledgeBase kb = .ok index)
    {ask symbol : String} (asked : (Formula.ofText ask).bind Chaining.goal = .ok symbol)
    (notTrue : symbol ≠ trueName) {resolution forward forward' : Engine} {refutation : Refutation}
    {found found' : Chaining} (resolves : resolution.work = .refutation refutation)
    (chains : forward.work = .chaining (some .forward) found)
    (chains' : forward'.work = .chaining (some .forward) found') (now now' now'' : Float) :
    ∃ answer, (resolution.prove kb ask now).2 = .ok answer ∧ (answer = "YES" ∨ answer = "NO") ∧
      (answer = "YES" ↔ forward.Affirms kb ask now' ∨ forward'.Affirms kb falseName now'') ∧
      (¬forward.Affirms kb ask now' → (forward.prove kb ask now').2 = .ok "NO") ∧
      (¬forward'.Affirms kb falseName now'' →
        (forward'.prove kb falseName now'').2 = .ok "NO") := by
  have parsed := Chaining.ofText_eq_of_goal asked
  have smallAll : ∀ f ∈ Formula.single (.symbol false symbol) :: kb.clauses,
      f.propositions.length ≤ maxTableSymbols := by
    refine List.forall_mem_cons.2 ⟨?_, small⟩
    have atMostOne : (Formula.single (.symbol false symbol)).propositions.length ≤ 1 :=
      List.length_filter_le _ _
    exact Nat.le_trans atMostOne (by decide)
  have askedFalse : (Formula.ofText falseName).bind Chaining.goal = .ok falseName := by
    decide +kernel
  have decides := decides_of_forward chains indexed asked now'
  have decides' := decides_of_forward chains' indexed askedFalse now''
  rcases exists_answer_of_refutation resolves parsed smallAll now with
    ⟨answer, answered, yesOrNo, means⟩
  refine ⟨answer, answered, yesOrNo, ?_,
    fun notAffirmed => decides.denies (mt decides.affirms_iff.2 notAffirmed),
    fun notAffirmed => decides'.denies (mt decides'.affirms_iff.2 notAffirmed)⟩
  rw [means, HornIndex.entails_symbol_iff indexed (made.isUniformOver noConstants) notTrue,
    decides.affirms_iff, decides'.affirms_iff]

/-- A constraint makes the knowledge base inconsistent, so that every symbol follows. -/
theorem Engine.refutation_agrees_with_chaining_on_constraint :
    let kb : KnowledgeBase := ⟨[.pair (.symbol false "a") .impl (.symbol false "b"),
      .single (.group true (.pair (.symbol false "a") .conj (.symbol false "b"))),
      .single (.symbol false "a")]⟩
    let index : HornIndex := ⟨["a"], [⟨"b", [["a"]]⟩, ⟨"false", [["a", "b"]]⟩]⟩
    let resolution : Engine := .ofWork .standard (.refutation .initial)
    let forward : Engine := .ofWork .standard (.chaining (some .forward) .initial)
    kb.IsMade ∧ (∀ f ∈ kb.clauses, ∀ name ∈ f.names, constantValue? name = none) ∧
      (∀ f ∈ kb.clauses, f.propositions.length ≤ maxTableSymbols) ∧
      HornIndex.ofKnowledgeBase kb = .ok index ∧
      (Formula.ofText "c").bind Chaining.goal = .ok "c" ∧ "c" ≠ trueName ∧
      resolution.work = .refutation .initial ∧
      forward.work = .chaining (some .forward) .initial ∧
      ∃ answer, (resolution.prove kb "c" 0).2 = .ok answer ∧ (answer = "YES" ∨ answer = "NO") ∧
        (answer = "YES" ↔ forward.Affirms kb "c" 0 ∨ forward.Affirms kb falseName 0) ∧
        (¬forward.Affirms kb "c" 0 → (forward.prove kb "c" 0).2 = .ok "NO") ∧
        (¬forward.Affirms kb falseName 0 → (forward.prove kb falseName 0).2 = .ok "NO") := by
  intro kb index resolution forward
  have told : KnowledgeBase.ofText "a=>b; ~(a&b); a" = .ok kb := by decide +kernel
  have made := KnowledgeBase.isMade_ofText told
  have noConstants : ∀ f ∈ kb.clauses, ∀ name ∈ f.names, constantValue? name = none := by
    decide +kernel
  have small : ∀ f ∈ kb.clauses, f.propositions.length ≤ maxTableSymbols := by decide +kernel
  have indexed : HornIndex.ofKnowledgeBase kb = .ok index := by decide +kernel
  have asked : (Formula.ofText "c").bind Chaining.goal = .ok "c" := by decide +kernel
  have notTrue : "c" ≠ trueName := by decide
  have resolves : resolution.work = .refutation .initial := rfl
  have chains : forward.work = .chaining (some .forward) .initial := rfl
  exact ⟨made, noConstants, small, indexed, asked, notTrue, rfl, rfl,
    refutation_agrees_with_chaining made noConstants small indexed asked notTrue resolves chains
      chains 0 0 0⟩

end Entail
