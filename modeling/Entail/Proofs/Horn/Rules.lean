import Mathlib.Data.List.Nodup
import Entail.Horn.Index

/-!
# The rules of a Horn index

The index of a knowledge base has one rule for a symbol at most, and every
alternative of a rule requires something.
-/

namespace Entail.HornIndex

/-- The index concludes `name` from the given requirements. -/
def HasAlternative (index : HornIndex) (name : String) (requirements : List String) : Prop :=
  ∃ rule ∈ index.rules, rule.conclusion = name ∧ requirements ∈ rule.alternatives

/-- The rules conclude different symbols. -/
def IsKeyed (index : HornIndex) : Prop :=
  (index.rules.map HornRule.conclusion).Nodup

instance (index : HornIndex) : Decidable index.IsKeyed :=
  inferInstanceAs (Decidable (List.Nodup _))

/-- An index in which the rules conclude different symbols and every alternative requires
something. -/
structure WellFormed (index : HornIndex) : Prop where
  distinct : (index.rules.map HornRule.conclusion).Nodup
  nonempty : ∀ rule ∈ index.rules, [] ∉ rule.alternatives

/-! ### Looking up facts and rules -/

@[simp]
theorem isFact_iff {index : HornIndex} {name : String} :
    index.isFact name = true ↔ name ∈ index.facts := by
  simp [isFact]

@[simp]
theorem mem_facts_addFact {index : HornIndex} {name other : String} :
    other ∈ (index.addFact name).facts ↔ other ∈ index.facts ∨ other = name := by
  by_cases known : name ∈ index.facts
  · have listed : insertNew index.facts name = index.facts := by simp [insertNew, known]
    simp only [addFact, listed]
    exact ⟨.inl, fun isFact => isFact.elim id fun same => same ▸ known⟩
  · simp [addFact, insertNew, known]

@[simp]
theorem alternatives?_addFact (index : HornIndex) (name other : String) :
    (index.addFact name).alternatives? other = index.alternatives? other :=
  rfl

@[simp]
theorem facts_eraseRule (index : HornIndex) (name : String) :
    (index.eraseRule name).facts = index.facts :=
  rfl

theorem alternatives?_eraseRule (index : HornIndex) (name other : String) :
    (index.eraseRule name).alternatives? other =
      if other = name then none else index.alternatives? other := by
  simp only [alternatives?, eraseRule]
  induction index.rules with
  | nil => simp
  | cons rule rest ih =>
      simp only [List.filter_cons, List.find?_cons]
      grind

theorem hasAlternative_of_alternatives? {index : HornIndex} {name : String}
    {alternatives : List (List String)} (found : index.alternatives? name = some alternatives)
    {requirements : List String} (isAlternative : requirements ∈ alternatives) :
    index.HasAlternative name requirements := by
  rcases Option.map_eq_some_iff.1 found with ⟨rule, isFirst, rfl⟩
  have conclusion : rule.conclusion = name := by simpa using List.find?_some isFirst
  exact ⟨rule, List.mem_of_find?_eq_some isFirst, conclusion, isAlternative⟩

/-- If no symbol has two rules, the one that is looked up holds all alternatives of its symbol. -/
theorem IsKeyed.exists_alternatives? {index : HornIndex} (keyed : index.IsKeyed)
    {name : String} {requirements : List String}
    (concluded : index.HasAlternative name requirements) :
    ∃ alternatives, index.alternatives? name = some alternatives ∧
      requirements ∈ alternatives := by
  rcases concluded with ⟨rule, isRule, rfl, isAlternative⟩
  refine ⟨rule.alternatives, ?_, isAlternative⟩
  cases found : index.rules.find? (fun other => other.conclusion == rule.conclusion) with
  | none =>
      have absent := List.find?_eq_none.1 found rule isRule
      simp at absent
  | some other =>
      have isOther := List.mem_of_find?_eq_some found
      have sameConclusion : other.conclusion = rule.conclusion := by
        simpa using List.find?_some found
      have same : other = rule :=
        List.inj_on_of_nodup_map keyed isOther isRule sameConclusion
      simp [alternatives?, found, same]

/-! ### Alternatives of a row -/

section Alternatives

variable {good : List String → Prop}

/-- What lists keep when one is extended by what is new in the other holds of all lists that are
joined. -/
theorem forall_jointly (joined : ∀ left right, good left → good right →
      good (left ++ right.filter (!left.contains ·))) {lefts rights : List (List String)}
    (left : ∀ names ∈ lefts, good names) (right : ∀ names ∈ rights, good names) :
    ∀ names ∈ jointly lefts rights, good names := by
  simp only [jointly, List.mem_flatMap, List.mem_map]
  rintro _ ⟨l, isLeft, r, isRight, rfl⟩
  exact joined l r (left l isLeft) (right r isRight)

mutual

/-- What holds of the single names of an operand and is kept when lists are joined holds of its
alternatives. -/
theorem forall_operand_alternatives (joined : ∀ left right, good left → good right →
      good (left ++ right.filter (!left.contains ·))) {x : Operand}
    (single : ∀ name ∈ x.names, good [name]) : ∀ names ∈ x.alternatives, good names := by
  match x with
  | .symbol _ name => exact List.forall_mem_singleton.2 (single name List.mem_cons_self)
  | .group _ content => exact forall_alternativesWith joined single id fun _ => id

theorem forall_alternativesWith (joined : ∀ left right, good left → good right →
      good (left ++ right.filter (!left.contains ·))) {f : Formula}
    (single : ∀ name ∈ f.names, good [name]) (combine : List (List String) → List (List String))
    (keeps : ∀ lists, (∀ names ∈ lists, good names) → ∀ names ∈ combine lists, good names) :
    ∀ names ∈ f.alternativesWith combine, good names := by
  match f with
  | .single x => exact keeps _ (forall_operand_alternatives joined single)
  | .chain x c rest =>
      rcases List.forall_mem_append.1 single with ⟨first, others⟩
      have lefts := keeps _ (forall_operand_alternatives joined first)
      refine forall_alternativesWith joined others _ fun rights isGood => ?_
      cases c with
      | conj => exact forall_jointly joined lefts isGood
      | disj | impl | iff => exact List.forall_mem_append.2 ⟨lefts, isGood⟩

end

end Alternatives

/-- Every alternative requires something, and nothing twice. -/
theorem ne_nil_and_nodup_of_mem_alternatives {x : Operand} :
    ∀ names ∈ x.alternatives, names ≠ [] ∧ names.Nodup := by
  refine forall_operand_alternatives ?_ fun name _ => ⟨List.cons_ne_nil _ _, List.nodup_singleton _⟩
  rintro left right ⟨leftRequires, leftDistinct⟩ ⟨_, rightDistinct⟩
  constructor
  · exact List.append_ne_nil_of_left_ne_nil leftRequires _
  · refine leftDistinct.append (rightDistinct.filter _) fun name isLeft isNew => ?_
    simp [isLeft] at isNew

/-! ### Building an index -/

/-- Adds a formula that has a Horn form. -/
def insertHorn (index : HornIndex) (f : Formula) : Except Error HornIndex :=
  f.horn.map index.insert

/-- The index that was made, unless something was wrong with a formula. -/
def outcome : HornIndex × Option Error → Except Error HornIndex
  | (index, none) => .ok index
  | (_, some error) => .error error

/-- An index is made by adding one conjunct after the other. -/
theorem ofKnowledgeBase_eq_foldlM (kb : KnowledgeBase) :
    ofKnowledgeBase kb = kb.clauses.foldlM (fun index f => f.conjuncts.foldlM insertHorn index)
      empty := by
  have inserted (fs : List Formula) (index : HornIndex) :
      outcome (index.insertAll fs) = fs.foldlM insertHorn index := by
    induction fs generalizing index with
    | nil => rfl
    | cons f fs ih =>
        rw [insertAll, List.foldlM_cons, insertHorn]
        cases f.horn with
        | ok clause => exact ih (index.insert clause)
        | error error => rfl
  have flattened (fs : List Formula) (index : HornIndex) :
      (fs.flatMap Formula.conjuncts).foldlM insertHorn index =
        fs.foldlM (fun index f => f.conjuncts.foldlM insertHorn index) index := by
    induction fs generalizing index with
    | nil => rfl
    | cons f fs ih =>
        rw [List.flatMap_cons, List.foldlM_append, List.foldlM_cons]
        exact congrArg _ (funext ih)
  exact (inserted _ empty).trans (flattened kb.clauses empty)

/-- What is kept when facts are added, and implications by requirements of which there is at least
one and none twice, is kept when a clause is added. -/
theorem insert_induction {motive : HornIndex → Prop}
    (addFact : ∀ index name, motive index → motive (index.addFact name))
    (addImplication : ∀ index conclusion requirements, requirements ≠ [] → requirements.Nodup →
      motive index → motive (index.addImplication conclusion requirements))
    {index : HornIndex} (clause : Formula) (holds : motive index) :
    motive (index.insert clause) := by
  have addImplications (name : String) (lists : List (List String))
      (listed : ∀ names ∈ lists, names ≠ [] ∧ names.Nodup) {index : HornIndex}
      (holds : motive index) : motive (lists.foldl
        (fun index requirements => index.addImplication name requirements) index) := by
    induction lists generalizing index with
    | nil => exact holds
    | cons requirements rest ih =>
        rcases List.forall_mem_cons.1 listed with ⟨⟨required, distinct⟩, listed⟩
        exact ih listed (addImplication index name requirements required distinct holds)
  unfold HornIndex.insert
  split
  · exact addFact _ _ holds
  · exact addImplication _ _ _ (List.cons_ne_nil _ _) (List.nodup_singleton _) holds
  · exact addImplications _ _ ne_nil_and_nodup_of_mem_alternatives holds
  · exact holds

/-- What holds of the empty index, and is kept when a clause is added, holds of the index of a
knowledge base. -/
theorem ofKnowledgeBase_induction {motive : HornIndex → Prop} (start : motive empty)
    (insert : ∀ index clause, motive index → motive (index.insert clause)) {kb : KnowledgeBase}
    {index : HornIndex} (indexed : ofKnowledgeBase kb = .ok index) : motive index := by
  have all (formulas : List Formula) (index : HornIndex) (holds : motive index) :
      motive (index.insertAll formulas).1 := by
    induction formulas generalizing index with
    | nil => exact holds
    | cons f rest ih =>
        rw [insertAll]
        split
        · exact ih _ (insert _ _ holds)
        · exact holds
  have built : motive (empty.build kb).1 := all _ _ start
  unfold ofKnowledgeBase at indexed
  split at indexed
  · next equation =>
      rw [equation] at built
      cases indexed
      exact built
  · contradiction

theorem nodup_insertNew {known : List String} (distinct : known.Nodup) (name : String) :
    (insertNew known name).Nodup := by
  unfold insertNew
  split
  · exact distinct
  · next isNew =>
      rw [List.contains_iff_mem] at isNew
      rw [← List.concat_eq_append]
      exact distinct.concat isNew

theorem mem_conclusions_addAlternative {conclusion name : String} {requirements : List String}
    {rules : List HornRule} :
    name ∈ (addAlternative conclusion requirements rules).map HornRule.conclusion ↔
      name = conclusion ∨ name ∈ rules.map HornRule.conclusion := by
  induction rules with
  | nil => simp [addAlternative]
  | cons rule rest ih =>
      by_cases same : rule.conclusion = conclusion
      · simp [addAlternative, same]
      · simp only [addAlternative, same, if_false, List.map_cons, List.mem_cons, ih]
        exact or_left_comm

theorem nodup_conclusions_addAlternative {conclusion : String} {requirements : List String}
    {rules : List HornRule} (distinct : (rules.map HornRule.conclusion).Nodup) :
    ((addAlternative conclusion requirements rules).map HornRule.conclusion).Nodup := by
  induction rules with
  | nil => simp [addAlternative]
  | cons rule rest ih =>
      rw [List.map_cons, List.nodup_cons] at distinct
      rcases distinct with ⟨fresh, restDistinct⟩
      by_cases same : rule.conclusion = conclusion
      · subst same
        simpa [addAlternative] using ⟨by simpa using fresh, restDistinct⟩
      · simp only [addAlternative, same, if_false, List.map_cons, List.nodup_cons]
        refine ⟨?_, ih restDistinct⟩
        rw [mem_conclusions_addAlternative]
        rintro (isConclusion | listed)
        · exact same isConclusion
        · exact fresh listed

theorem forall_addAlternative {good : List String → Prop} {conclusion : String}
    {requirements : List String} {rules : List HornRule} (isGood : good requirements)
    (all : ∀ rule ∈ rules, ∀ names ∈ rule.alternatives, good names) :
    ∀ rule ∈ addAlternative conclusion requirements rules,
      ∀ names ∈ rule.alternatives, good names := by
  induction rules with
  | nil => simpa [addAlternative] using isGood
  | cons rule rest ih =>
      rw [List.forall_mem_cons] at all
      rcases all with ⟨first, others⟩
      by_cases same : rule.conclusion = conclusion
      · simp only [addAlternative, same, if_true, List.forall_mem_cons]
        exact ⟨List.forall_mem_append.2 ⟨first, List.forall_mem_singleton.2 isGood⟩, others⟩
      · simp only [addAlternative, same, if_false, List.forall_mem_cons]
        exact ⟨first, ih others⟩

namespace WellFormed

theorem empty : HornIndex.empty.WellFormed :=
  ⟨List.nodup_nil, fun _ isRule => absurd isRule List.not_mem_nil⟩

theorem addFact {index : HornIndex} (wellFormed : index.WellFormed) (name : String) :
    (index.addFact name).WellFormed :=
  ⟨wellFormed.distinct, wellFormed.nonempty⟩

theorem addImplication {index : HornIndex} (wellFormed : index.WellFormed) (conclusion : String)
    {requirements : List String} (requires : requirements ≠ []) :
    (index.addImplication conclusion requirements).WellFormed where
  distinct := nodup_conclusions_addAlternative wellFormed.distinct
  nonempty := by
    have listed : ∀ rule ∈ index.rules, ∀ names ∈ rule.alternatives, names ≠ [] := by
      rintro rule isRule _ isAlternative rfl
      exact wellFormed.nonempty rule isRule isAlternative
    have extended : ∀ rule ∈ addAlternative conclusion requirements index.rules,
        ∀ names ∈ rule.alternatives, names ≠ [] := forall_addAlternative requires listed
    exact fun rule isRule isAlternative => extended rule isRule [] isAlternative rfl

theorem insert {index : HornIndex} (wellFormed : index.WellFormed) (clause : Formula) :
    (index.insert clause).WellFormed :=
  insert_induction (fun _ name made => made.addFact name)
    (fun _ conclusion _ requires _ made => made.addImplication conclusion requires) clause wellFormed

/-- Every knowledge base that has an index has a well-formed one. -/
theorem ofKnowledgeBase {kb : KnowledgeBase} {index : HornIndex}
    (indexed : HornIndex.ofKnowledgeBase kb = .ok index) : index.WellFormed :=
  ofKnowledgeBase_induction empty (fun _ clause wellFormed => wellFormed.insert clause) indexed

end WellFormed

/-- An index that lists no fact twice, and in which every alternative requires something, and nothing
twice. -/
structure IsTidy (index : HornIndex) : Prop where
  facts : index.facts.Nodup
  requirements : ∀ rule ∈ index.rules, ∀ names ∈ rule.alternatives, names ≠ [] ∧ names.Nodup

namespace IsTidy

theorem empty : HornIndex.empty.IsTidy :=
  ⟨List.nodup_nil, fun _ isRule => absurd isRule List.not_mem_nil⟩

theorem insert {index : HornIndex} (tidy : index.IsTidy) (clause : Formula) :
    (index.insert clause).IsTidy := by
  apply insert_induction _ _ clause tidy
  · exact fun _ name tidy => ⟨nodup_insertNew tidy.facts name, tidy.requirements⟩
  · exact fun _ _ _ requires distinct tidy =>
      ⟨tidy.facts, forall_addAlternative ⟨requires, distinct⟩ tidy.requirements⟩

/-- Every knowledge base that has an index has a tidy one. -/
theorem ofKnowledgeBase {kb : KnowledgeBase} {index : HornIndex}
    (indexed : HornIndex.ofKnowledgeBase kb = .ok index) : index.IsTidy :=
  ofKnowledgeBase_induction empty (fun _ clause tidy => tidy.insert clause) indexed

end IsTidy

end Entail.HornIndex
