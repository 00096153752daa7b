import Entail.Proofs.Entailment
import Entail.Proofs.Horn.LeastModel
import Entail.Proofs.NormalForm.Horn

/-!
# What a Horn index means

An index is true if its facts are and every rule that applies concludes a
truth.  The index of a knowledge base is true under the same assignments as the
knowledge base, and its derivable symbols are those that are true under all of
them, unless the constant `false` is derivable.
-/

namespace Entail

/-! ### Taking conjunctions apart -/

mutual

theorem Operand.isTrue_conjuncts (x : Operand) (v : Valuation) :
    (∀ f ∈ x.conjuncts, f.eval v = true) ↔ x.eval v = true := by
  match x with
  | .symbol negated name => simp [Operand.conjuncts]
  | .group true content => simp [Operand.conjuncts]
  | .group false content =>
      rw [Operand.conjuncts, if_neg Bool.false_ne_true, Operand.eval_group, Bool.bne_false]
      split
      · next row =>
          rw [Formula.isTrue_rowConjuncts content v,
            Formula.eval_conj_iff (Formula.all_links_iff.1 row)]
      · simp

theorem Formula.isTrue_rowConjuncts (f : Formula) (v : Valuation) :
    (∀ g ∈ f.rowConjuncts, g.eval v = true) ↔ ∀ x ∈ f.operands, x.eval v = true := by
  match f with
  | .single x =>
      rw [Formula.rowConjuncts, Operand.isTrue_conjuncts x v]
      simp [Formula.operands]
  | .chain x c rest =>
      rw [Formula.rowConjuncts, List.forall_mem_append, Operand.isTrue_conjuncts x v,
        Formula.isTrue_rowConjuncts rest v, Formula.operands, List.forall_mem_cons]

end

/-- A formula is the conjunction of its conjuncts. -/
theorem Formula.isTrue_conjuncts (f : Formula) (v : Valuation) :
    (∀ g ∈ f.conjuncts, g.eval v = true) ↔ f.eval v = true := by
  rw [Formula.conjuncts]
  split
  · next row => rw [isTrue_rowConjuncts, eval_conj_iff (all_links_iff.1 row)]
  · simp

section Conjuncts

/-- A uniform formula in which only names with the property occur. -/
structure Formula.IsUniformOver (isVariable : String → Prop) (f : Formula) : Prop where
  uniform : f.IsUniform fun _ => True
  named : ∀ name ∈ f.names, isVariable name

variable {isVariable : String → Prop}

theorem Formula.IsUniformOver.operand {f : Formula} (isOver : f.IsUniformOver isVariable)
    {x : Operand} (isOperand : x ∈ f.operands) : (Formula.single x).IsUniformOver isVariable where
  uniform := (Formula.isUniform_iff.1 isOver.uniform).2 x isOperand
  named name isName := isOver.named name (Formula.names_subset_of_mem_operands isOperand isName)

mutual

theorem Operand.isUniformOver_conjuncts {x : Operand}
    (isOver : (Formula.single x).IsUniformOver isVariable) :
    ∀ f ∈ x.conjuncts, f.IsUniformOver isVariable := by
  match x with
  | .symbol negated name => exact List.forall_mem_singleton.2 isOver
  | .group true content => exact List.forall_mem_singleton.2 isOver
  | .group false content =>
      have inner : content.IsUniformOver isVariable := ⟨isOver.uniform, isOver.named⟩
      rw [Operand.conjuncts, if_neg Bool.false_ne_true]
      split
      · exact Formula.isUniformOver_rowConjuncts fun x => inner.operand
      · exact List.forall_mem_singleton.2 inner

theorem Formula.isUniformOver_rowConjuncts {f : Formula}
    (isOver : ∀ x ∈ f.operands, (Formula.single x).IsUniformOver isVariable) :
    ∀ g ∈ f.rowConjuncts, g.IsUniformOver isVariable := by
  match f with
  | .single x => exact Operand.isUniformOver_conjuncts (isOver x List.mem_cons_self)
  | .chain x c rest =>
      rcases List.forall_mem_cons.1 isOver with ⟨first, rest⟩
      exact List.forall_mem_append.2
        ⟨Operand.isUniformOver_conjuncts first, Formula.isUniformOver_rowConjuncts rest⟩

end

theorem Formula.IsUniformOver.conjuncts {f : Formula} (isOver : f.IsUniformOver isVariable) :
    ∀ g ∈ f.conjuncts, g.IsUniformOver isVariable := by
  rw [Formula.conjuncts]
  split
  · exact isUniformOver_rowConjuncts fun x => isOver.operand
  · exact List.forall_mem_singleton.2 isOver

end Conjuncts

/-! ### Positive formulas -/

/-- One of the lists has only true names. -/
def Valuation.Meets (v : Valuation) (lists : List (List String)) : Prop :=
  ∃ names ∈ lists, ∀ name ∈ names, v.value name = true

theorem Valuation.meets_jointly (v : Valuation) (lefts rights : List (List String)) :
    v.Meets (jointly lefts rights) ↔ v.Meets lefts ∧ v.Meets rights := by
  have joined (left right : List String) :
      (∀ name ∈ left ++ right.filter (!left.contains ·), v.value name = true) ↔
        (∀ name ∈ left, v.value name = true) ∧ ∀ name ∈ right, v.value name = true := by
    simp only [List.mem_append, List.mem_filter, Bool.not_eq_true']
    grind
  simp only [Meets, jointly, List.mem_flatMap, List.mem_map]
  constructor
  · rintro ⟨_, ⟨left, isLeft, right, isRight, rfl⟩, allTrue⟩
    rcases (joined left right).1 allTrue with ⟨leftTrue, rightTrue⟩
    exact ⟨⟨left, isLeft, leftTrue⟩, right, isRight, rightTrue⟩
  · rintro ⟨⟨left, isLeft, leftTrue⟩, right, isRight, rightTrue⟩
    exact ⟨_, ⟨left, isLeft, right, isRight, rfl⟩, (joined left right).2 ⟨leftTrue, rightTrue⟩⟩

theorem Valuation.meets_append (v : Valuation) (lefts rights : List (List String)) :
    v.Meets (lefts ++ rights) ↔ v.Meets lefts ∨ v.Meets rights := by
  simp only [Meets, List.mem_append, or_and_right, exists_or]

mutual

/-- A positive operand is true exactly if the names of one of its alternatives are. -/
theorem Operand.meets_alternatives {x : Operand} (positive : x.isPositive = true)
    (v : Valuation) : v.Meets x.alternatives ↔ x.eval v = true := by
  match x with
  | .symbol negated name =>
      have notNegated : negated = false := by simpa [Operand.isPositive] using positive
      simp [Operand.alternatives, Valuation.Meets, Operand.eval, notNegated]
  | .group negated content =>
      simp only [Operand.isPositive, Bool.and_eq_true, Bool.not_eq_true'] at positive
      rcases positive with ⟨rfl, positive⟩
      rw [Operand.alternatives, Formula.meets_alternativesWith positive v id id fun _ _ => id]
      simp [Formula.eval]

theorem Formula.meets_alternativesWith {f : Formula} (positive : f.isPositive = true)
    (v : Valuation) (combineLists : List (List String) → List (List String))
    (combine : Bool → Bool)
    (same : ∀ lists value, (v.Meets lists ↔ value = true) →
      (v.Meets (combineLists lists) ↔ combine value = true)) :
    v.Meets (f.alternativesWith combineLists) ↔ f.evalWith v combine = true := by
  match f with
  | .single x => exact same _ _ (Operand.meets_alternatives positive v)
  | .chain x c rest =>
      simp only [Formula.isPositive, Bool.and_eq_true] at positive
      rcases positive with ⟨⟨first, junction⟩, rest'⟩
      have firstSame := same _ _ (Operand.meets_alternatives first v)
      rw [Formula.alternativesWith, Formula.evalWith]
      refine Formula.meets_alternativesWith rest' v _ _ fun rights value restSame => ?_
      cases c with
      | conj => simp [Valuation.meets_jointly, Connective.apply, firstSame, restSame]
      | disj => simp [Valuation.meets_append, Connective.apply, firstSame, restSame]
      | impl | iff => contradiction

end

section Names

variable {isVariable : String → Prop}

/-- Only names with the property are listed. -/
def ListsOver (isVariable : String → Prop) (lists : List (List String)) : Prop :=
  ∀ names ∈ lists, ∀ name ∈ names, isVariable name

theorem listsOver_alternatives {x : Operand} (named : ∀ name ∈ x.names, isVariable name) :
    ListsOver isVariable x.alternatives := by
  refine HornIndex.forall_operand_alternatives (fun left right isLeft isRight => ?_)
    fun name isName => List.forall_mem_singleton.2 (named name isName)
  refine List.forall_mem_append.2 ⟨isLeft, fun name isNew => ?_⟩
  exact isRight name (List.mem_of_mem_filter isNew)

end Names

/-! ### The index -/

namespace HornIndex

variable {index : HornIndex} {v : Valuation} {isVariable : String → Prop}

/-- The facts are true, and so is what the rules conclude from truths. -/
structure IsTrue (index : HornIndex) (v : Valuation) : Prop where
  facts : ∀ name ∈ index.facts, v.value name = true
  rules : ∀ name requirements, index.HasAlternative name requirements →
    (∀ requirement ∈ requirements, v.value requirement = true) → v.value name = true

/-- Only names with the property occur in the index, except that `false` may be concluded. -/
structure IsOver (isVariable : String → Prop) (index : HornIndex) : Prop where
  facts : ∀ name ∈ index.facts, isVariable name
  rules : ∀ name requirements, index.HasAlternative name requirements →
    (isVariable name ∨ name = falseName) ∧ ∀ requirement ∈ requirements, isVariable requirement

theorem isTrue_empty : empty.IsTrue v :=
  ⟨List.forall_mem_nil _, fun _ _ ⟨_, isRule, _⟩ => absurd isRule List.not_mem_nil⟩

theorem isOver_empty : empty.IsOver isVariable :=
  ⟨List.forall_mem_nil _, fun _ _ ⟨_, isRule, _⟩ => absurd isRule List.not_mem_nil⟩

theorem isTrue_addFact {name : String} :
    (index.addFact name).IsTrue v ↔ index.IsTrue v ∧ v.value name = true := by
  constructor
  · intro isTrue
    have facts (other : String) (isFact : other ∈ index.facts ∨ other = name) :=
      isTrue.facts other (mem_facts_addFact.2 isFact)
    exact ⟨⟨fun other isFact => facts other (.inl isFact), isTrue.rules⟩, facts name (.inr rfl)⟩
  · rintro ⟨isTrue, nameTrue⟩
    refine ⟨fun other isFact => ?_, isTrue.rules⟩
    rcases mem_facts_addFact.1 isFact with isFact | rfl
    · exact isTrue.facts other isFact
    · exact nameTrue

theorem IsOver.addFact (isOver : index.IsOver isVariable) {name : String}
    (named : isVariable name) : (index.addFact name).IsOver isVariable := by
  refine ⟨fun other isFact => ?_, isOver.rules⟩
  rcases mem_facts_addFact.1 isFact with isFact | rfl
  · exact isOver.facts other isFact
  · exact named

theorem hasAlternative_addImplication {conclusion name : String}
    {requirements others : List String} :
    (index.addImplication conclusion requirements).HasAlternative name others ↔
      index.HasAlternative name others ∨ name = conclusion ∧ others = requirements := by
  simp only [HasAlternative, addImplication]
  induction index.rules with
  | nil => simp [addAlternative, eq_comm]
  | cons rule rest ih =>
      by_cases same : rule.conclusion = conclusion
      · simp only [addAlternative, same, if_true, List.mem_cons, exists_eq_or_imp,
          List.mem_append, List.not_mem_nil, or_false]
        grind
      · simp only [addAlternative, same, if_false, List.mem_cons, exists_eq_or_imp, ih]
        exact or_assoc.symm

theorem isTrue_addImplication {conclusion : String} {requirements : List String} :
    (index.addImplication conclusion requirements).IsTrue v ↔ index.IsTrue v ∧
      ((∀ requirement ∈ requirements, v.value requirement = true) →
        v.value conclusion = true) := by
  constructor
  · intro isTrue
    have rules (name : String) (others : List String)
        (known : index.HasAlternative name others ∨ name = conclusion ∧ others = requirements) :=
      isTrue.rules name others (hasAlternative_addImplication.2 known)
    exact ⟨⟨isTrue.facts, fun name others known => rules name others (.inl known)⟩,
      rules conclusion requirements (.inr ⟨rfl, rfl⟩)⟩
  · rintro ⟨isTrue, concluded⟩
    refine ⟨isTrue.facts, fun name others known => ?_⟩
    rcases hasAlternative_addImplication.1 known with known | ⟨rfl, rfl⟩
    · exact isTrue.rules name others known
    · exact concluded

theorem IsOver.addImplication (isOver : index.IsOver isVariable) {conclusion : String}
    {requirements : List String} (concluded : isVariable conclusion ∨ conclusion = falseName)
    (required : ∀ requirement ∈ requirements, isVariable requirement) :
    (index.addImplication conclusion requirements).IsOver isVariable := by
  refine ⟨isOver.facts, fun name others known => ?_⟩
  rcases hasAlternative_addImplication.1 known with known | ⟨rfl, rfl⟩
  · exact isOver.rules name others known
  · exact ⟨concluded, required⟩

/-- Adds an implication of a symbol by each list of requirements. -/
theorem isTrue_addImplications {conclusion : String} {lists : List (List String)} :
    (lists.foldl (fun index requirements => index.addImplication conclusion requirements)
      index).IsTrue v ↔ index.IsTrue v ∧ (v.Meets lists → v.value conclusion = true) := by
  induction lists generalizing index with
  | nil => simp [Valuation.Meets]
  | cons requirements rest ih =>
      rw [List.foldl_cons, ih, isTrue_addImplication, and_assoc]
      simp only [Valuation.Meets, List.mem_cons, exists_eq_or_imp, or_imp]

theorem IsOver.addImplications (isOver : index.IsOver isVariable) {conclusion : String}
    {lists : List (List String)} (concluded : isVariable conclusion ∨ conclusion = falseName)
    (required : ListsOver isVariable lists) :
    (lists.foldl (fun index requirements => index.addImplication conclusion requirements)
      index).IsOver isVariable := by
  induction lists generalizing index with
  | nil => exact isOver
  | cons requirements rest ih =>
      rcases List.forall_mem_cons.1 required with ⟨first, rest'⟩
      exact ih (isOver.addImplication concluded first) rest'

/-- A Horn clause adds to an index what it means. -/
theorem isTrue_insert {clause : Formula} (isClause : clause.IsClauseOver isVariable) :
    (index.insert clause).IsTrue v ↔ index.IsTrue v ∧ clause.eval v = true := by
  cases isClause with
  | @literal negated name named =>
      cases negated with
      | false => simp [insert, isTrue_addFact, Operand.eval]
      | true =>
          simp [insert, isTrue_addImplication, Operand.eval, Valuation.value, constantValue?,
            falseName, trueName]
  | @implication antecedent name positive named concluded =>
      rw [Formula.pair, insert, isTrue_addImplications, Operand.meets_alternatives positive,
        ← Formula.pair, Formula.eval_pair, Connective.apply]
      cases antecedent.eval v <;> simp [Operand.eval]

theorem IsOver.insert (isOver : index.IsOver isVariable) {clause : Formula}
    (isClause : clause.IsClauseOver isVariable) : (index.insert clause).IsOver isVariable := by
  cases isClause with
  | @literal negated name named =>
      cases negated with
      | false => exact isOver.addFact named
      | true => exact isOver.addImplication (.inr rfl) (List.forall_mem_singleton.2 named)
  | implication positive named concluded =>
      exact isOver.addImplications concluded (listsOver_alternatives named)

/-- An index that was built from uniform formulas means what they mean. -/
theorem isTrue_insertAll {formulas : List Formula} {built : HornIndex}
    (inserted : index.insertAll formulas = (built, none))
    (uniform : ∀ f ∈ formulas, f.IsUniformOver isVariable) (isOver : index.IsOver isVariable) :
    built.IsOver isVariable ∧
      ∀ v, built.IsTrue v ↔ index.IsTrue v ∧ ∀ f ∈ formulas, f.eval v = true := by
  induction formulas generalizing index with
  | nil =>
      cases inserted
      exact ⟨isOver, by simp⟩
  | cons f rest ih =>
      rcases List.forall_mem_cons.1 uniform with ⟨firstUniform, restUniform⟩
      rw [insertAll] at inserted
      split at inserted
      · next clause made =>
          rcases Formula.horn_means firstUniform.uniform made firstUniform.named with
            ⟨isClause, means⟩
          rcases ih inserted restUniform (isOver.insert isClause) with ⟨builtOver, builtMeans⟩
          refine ⟨builtOver, fun v => ?_⟩
          rw [builtMeans, isTrue_insert isClause, means, List.forall_mem_cons, and_assoc]
      · simp at inserted

/-- The index of a knowledge base means what the knowledge base means. -/
theorem isTrue_ofKnowledgeBase {kb : KnowledgeBase}
    (indexed : ofKnowledgeBase kb = .ok index)
    (uniform : ∀ f ∈ kb.clauses, f.IsUniformOver isVariable) :
    index.IsOver isVariable ∧ ∀ v, index.IsTrue v ↔ kb.IsTrue v := by
  rw [ofKnowledgeBase] at indexed
  split at indexed
  · next built isBuilt =>
      cases indexed
      have conjuncts : ∀ g ∈ kb.clauses.flatMap Formula.conjuncts, g.IsUniformOver isVariable := by
        intro g isConjunct
        rcases List.mem_flatMap.1 isConjunct with ⟨f, isClause, isConjunct⟩
        exact (uniform f isClause).conjuncts g isConjunct
      rcases isTrue_insertAll isBuilt conjuncts isOver_empty with ⟨isOver, means⟩
      refine ⟨isOver, fun v => ?_⟩
      rw [means, and_iff_right isTrue_empty, List.forall_mem_flatMap]
      simp only [Formula.isTrue_conjuncts]
      rfl
  · contradiction

/-! ### Consequences -/

theorem Derivable.value_eq_true {name : String} (derivable : index.Derivable name)
    (isTrue : index.IsTrue v) : v.value name = true :=
  derivable.mem_of_closed isTrue.facts isTrue.rules

open Classical in
/-- The assignment that makes just the derivable symbols true. -/
noncomputable def leastModel (index : HornIndex) : Valuation :=
  fun name => decide (index.Derivable name)

/-- Unless `false` is derivable, the index is true when just the derivable symbols are. -/
theorem isTrue_leastModel (isOver : index.IsOver fun name => constantValue? name = none)
    (consistent : ¬index.Derivable falseName) : index.IsTrue index.leastModel := by
  have value {name : String} (isVariable : constantValue? name = none) :
      index.leastModel.value name = true ↔ index.Derivable name := by
    simp [Valuation.value, isVariable, leastModel]
  constructor
  · exact fun name isFact => (value (isOver.facts name isFact)).2 (.fact isFact)
  · intro name requirements known allTrue
    rcases isOver.rules name requirements known with ⟨concluded, required⟩
    have derivable : index.Derivable name := .rule known fun requirement isRequired =>
      (value (required requirement isRequired)).1 (allTrue requirement isRequired)
    rcases concluded with isVariable | rfl
    · exact (value isVariable).2 derivable
    · exact absurd derivable consistent

/-- A symbol follows from a knowledge base exactly if its index derives the symbol or `false`. -/
theorem entails_symbol_iff {kb : KnowledgeBase} (indexed : ofKnowledgeBase kb = .ok index)
    (uniform : ∀ f ∈ kb.clauses, f.IsUniformOver fun name => constantValue? name = none)
    {symbol : String} (notTrue : symbol ≠ trueName) :
    kb.Entails (.single (.symbol false symbol)) ↔
      index.Derivable symbol ∨ index.Derivable falseName := by
  rcases isTrue_ofKnowledgeBase indexed uniform with ⟨isOver, means⟩
  constructor
  · intro entails
    by_contra neither
    rw [not_or] at neither
    have isTrue := entails index.leastModel ((means _).1 (isTrue_leastModel isOver neither.2))
    have value : index.leastModel.value symbol = true := by simpa [Operand.eval] using isTrue
    rw [Valuation.value, constantValue?, if_neg notTrue] at value
    split at value
    · contradiction
    · exact neither.1 (by simpa [leastModel] using value)
  · intro derivable v isTrue
    have isTrue := (means v).2 isTrue
    rcases derivable with derivable | derivable
    · simpa [Operand.eval] using derivable.value_eq_true isTrue
    · have impossible := derivable.value_eq_true isTrue
      contradiction

end HornIndex

end Entail
