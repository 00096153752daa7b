import Entail.Horn.Backward
import Entail.Proofs.Horn.LeastModel

/-!
# Backward searches as derivations

A search tries a symbol, any of several lists of requirements, or all
requirements of a list.  The derivations of its outcome follow the calls, so
that facts about all searches can be proved by induction on them; the symbols
on the path have no influence on the outcome.
-/

namespace Entail

/-- What a backward search tries. -/
inductive Task
  | symbol (name : String)
  | anyOf (alternatives : List (List String))
  | allOf (requirements : List String)

namespace Task

/-- The symbols that a task names. -/
def symbols : Task → List String
  | symbol name => [name]
  | anyOf alternatives => alternatives.flatten
  | allOf requirements => requirements

/-- What it takes to accomplish a task, given the symbols that count as reached. -/
def Holds (reached : String → Prop) : Task → Prop
  | symbol name => reached name
  | anyOf alternatives => ∃ requirements ∈ alternatives, ∀ name ∈ requirements, reached name
  | allOf requirements => ∀ name ∈ requirements, reached name

end Task

/-- `Attempt task index outcome rest`: trying `task` has the given outcome, and `rest` is left of
the index. -/
inductive Attempt : Task → HornIndex → Bool → HornIndex → Prop
  | known {name : String} {index : HornIndex} : name ∈ index.facts →
      Attempt (.symbol name) index true index
  | spent {name : String} {index : HornIndex} : name ∉ index.facts →
      index.alternatives? name = none → Attempt (.symbol name) index false index
  | reached {name : String} {index rest : HornIndex} {alternatives : List (List String)} :
      name ∉ index.facts → index.alternatives? name = some alternatives →
      Attempt (.anyOf alternatives) (index.eraseRule name) true rest →
      Attempt (.symbol name) index true (rest.addFact name)
  | failed {name : String} {index rest : HornIndex} {alternatives : List (List String)} :
      name ∉ index.facts → index.alternatives? name = some alternatives →
      Attempt (.anyOf alternatives) (index.eraseRule name) false rest →
      Attempt (.symbol name) index false rest
  | anyNil {index : HornIndex} : Attempt (.anyOf []) index false index
  | hit {requirements : List String} {alternatives : List (List String)}
      {index rest : HornIndex} : Attempt (.allOf requirements) index true rest →
      Attempt (.anyOf (requirements :: alternatives)) index true rest
  | miss {requirements : List String} {alternatives : List (List String)}
      {index middle rest : HornIndex} {outcome : Bool} :
      Attempt (.allOf requirements) index false middle →
      Attempt (.anyOf alternatives) middle outcome rest →
      Attempt (.anyOf (requirements :: alternatives)) index outcome rest
  | allNil {index : HornIndex} : Attempt (.allOf []) index true index
  | lost {name : String} {requirements : List String} {index rest : HornIndex} :
      Attempt (.symbol name) index false rest →
      Attempt (.allOf (name :: requirements)) index false rest
  | met {name : String} {requirements : List String} {index middle rest : HornIndex}
      {outcome : Bool} : Attempt (.symbol name) index true middle →
      Attempt (.allOf requirements) middle outcome rest →
      Attempt (.allOf (name :: requirements)) index outcome rest

namespace HornIndex

/-- What an index has become: facts were added and rules were used up. -/
structure Evolves (index rest : HornIndex) : Prop where
  facts : index.facts ⊆ rest.facts
  rules : rest.rules.length ≤ index.rules.length
  alternatives : ∀ name, rest.alternatives? name = none ∨
    rest.alternatives? name = index.alternatives? name

namespace Evolves

variable {index middle rest : HornIndex}

theorem refl (index : HornIndex) : index.Evolves index :=
  ⟨List.Subset.refl _, Nat.le_refl _, fun _ => .inr rfl⟩

theorem trans (first : index.Evolves middle) (second : middle.Evolves rest) :
    index.Evolves rest where
  facts := List.Subset.trans first.facts second.facts
  rules := Nat.le_trans second.rules first.rules
  alternatives := by
    intro name
    rcases second.alternatives name with isNone | same
    · exact .inl isNone
    · rw [same]
      exact first.alternatives name

theorem eraseRule (index : HornIndex) (name : String) : index.Evolves (index.eraseRule name) where
  facts := List.Subset.refl _
  rules := List.length_filter_le _ _
  alternatives := by
    intro other
    rw [alternatives?_eraseRule]
    split
    · exact .inl rfl
    · exact .inr rfl

theorem addFact (index : HornIndex) (name : String) : index.Evolves (index.addFact name) where
  facts := fun _ isFact => mem_facts_addFact.2 (.inl isFact)
  rules := Nat.le_refl _
  alternatives := fun _ => .inr rfl

theorem none_of_none (evolves : index.Evolves rest) {name : String}
    (spent : index.alternatives? name = none) : rest.alternatives? name = none := by
  rcases evolves.alternatives name with isNone | same
  · exact isNone
  · rw [same, spent]

theorem some_of_some (evolves : index.Evolves rest) {name : String}
    {alternatives : List (List String)} (left : rest.alternatives? name = some alternatives) :
    index.alternatives? name = some alternatives := by
  rcases evolves.alternatives name with isNone | same
  · rw [isNone] at left
    contradiction
  · rw [← same, left]

end Evolves

/-- Erasing the rule of a symbol that has one leaves fewer rules. -/
theorem length_rules_eraseRule_lt {index : HornIndex} {name : String}
    {alternatives : List (List String)} (found : index.alternatives? name = some alternatives) :
    (index.eraseRule name).rules.length < index.rules.length := by
  rcases Option.map_eq_some_iff.1 found with ⟨rule, isFirst, _⟩
  have conclusion : rule.conclusion = name := by simpa using List.find?_some isFirst
  apply List.length_filter_lt_length_iff_exists.2
  exact ⟨rule, List.mem_of_find?_eq_some isFirst, by simp [conclusion]⟩

end HornIndex

theorem Attempt.evolves {task : Task} {index rest : HornIndex} {outcome : Bool}
    (attempt : Attempt task index outcome rest) : index.Evolves rest := by
  induction attempt with
  | known _ => exact .refl _
  | spent _ _ => exact .refl _
  | reached _ _ _ ih => exact ((HornIndex.Evolves.eraseRule _ _).trans ih).trans (.addFact _ _)
  | failed _ _ _ ih => exact (HornIndex.Evolves.eraseRule _ _).trans ih
  | anyNil => exact .refl _
  | hit _ ih => exact ih
  | miss _ _ ih ih' => exact ih.trans ih'
  | allNil => exact .refl _
  | lost _ ih => exact ih
  | met _ _ ih ih' => exact ih.trans ih'

/-- An attempt has one outcome only, and leaves one index. -/
theorem Attempt.unique {task : Task} {index rest rest' : HornIndex} {outcome outcome' : Bool}
    (attempt : Attempt task index outcome rest) (again : Attempt task index outcome' rest') :
    outcome' = outcome ∧ rest' = rest := by
  induction attempt generalizing outcome' rest' with
  | known isFact =>
      cases again with
      | known _ => exact ⟨rfl, rfl⟩
      | spent isNew _ | reached isNew _ _ | failed isNew _ _ => exact absurd isFact isNew
  | spent isNew isNone =>
      cases again with
      | known isFact => exact absurd isFact isNew
      | spent _ _ => exact ⟨rfl, rfl⟩
      | reached _ found _ | failed _ found _ => cases isNone.symm.trans found
  | @reached name _ _ _ isNew found _ ih =>
      cases again with
      | known isFact => exact absurd isFact isNew
      | spent _ isNone => cases isNone.symm.trans found
      | reached _ found' search =>
          cases found.symm.trans found'
          exact ⟨rfl, congrArg (HornIndex.addFact · name) (ih search).2⟩
      | failed _ found' search =>
          cases found.symm.trans found'
          exact absurd (ih search).1 Bool.false_ne_true
  | failed isNew found _ ih =>
      cases again with
      | known isFact => exact absurd isFact isNew
      | spent _ isNone => cases isNone.symm.trans found
      | reached _ found' search =>
          cases found.symm.trans found'
          exact absurd (ih search).1.symm Bool.false_ne_true
      | failed _ found' search =>
          cases found.symm.trans found'
          exact ⟨rfl, (ih search).2⟩
  | anyNil | allNil =>
      cases again
      exact ⟨rfl, rfl⟩
  | hit _ ih =>
      cases again with
      | hit first => exact ih first
      | miss first _ => exact absurd (ih first).1 Bool.false_ne_true
  | lost _ ih =>
      cases again with
      | lost first => exact ih first
      | met first _ => exact absurd (ih first).1.symm Bool.false_ne_true
  | miss _ _ ih ih' =>
      cases again with
      | hit first => exact absurd (ih first).1.symm Bool.false_ne_true
      | miss first second =>
          obtain ⟨_, rfl⟩ := ih first
          exact ih' second
  | met _ _ ih ih' =>
      cases again with
      | lost first => exact absurd (ih first).1 Bool.false_ne_true
      | met first second =>
          obtain ⟨_, rfl⟩ := ih first
          exact ih' second

/-! ### The search follows the derivations -/

/-- A search with as many rules in use at a time as there are left follows the derivations. -/
def Follows (attempt : String → BackwardState → Bool × BackwardState) (depth : Nat) : Prop :=
  ∀ name s, s.index.rules.length ≤ depth →
    Attempt (.symbol name) s.index (attempt name s).1 (attempt name s).2.index

section Lists

variable {attempt : String → BackwardState → Bool × BackwardState} {depth : Nat}

theorem Follows.allFrom (follows : Follows attempt depth) (requirements : List String)
    (s : BackwardState) (bound : s.index.rules.length ≤ depth) :
    Attempt (.allOf requirements) s.index (Entail.allFrom attempt requirements s).1
      (Entail.allFrom attempt requirements s).2.index := by
  induction requirements generalizing s with
  | nil => exact .allNil
  | cons name rest ih =>
      have first := follows name s bound
      rw [Entail.allFrom]
      generalize attempt name s = result at first
      rcases result with ⟨_ | _, middle⟩
      · exact .lost first
      · exact .met first (ih middle (Nat.le_trans first.evolves.rules bound))

theorem Follows.anyFrom (follows : Follows attempt depth) (alternatives : List (List String))
    (s : BackwardState) (bound : s.index.rules.length ≤ depth) :
    Attempt (.anyOf alternatives) s.index
      (Entail.anyFrom (Entail.allFrom attempt) alternatives s).1
      (Entail.anyFrom (Entail.allFrom attempt) alternatives s).2.index := by
  induction alternatives generalizing s with
  | nil => exact .anyNil
  | cons requirements rest ih =>
      have first := follows.allFrom requirements s bound
      rw [Entail.anyFrom]
      generalize Entail.allFrom attempt requirements s = result at first
      rcases result with ⟨_ | _, middle⟩
      · exact .miss first (ih middle (Nat.le_trans first.evolves.rules bound))
      · exact .hit first

end Lists

theorem index_visit (s : BackwardState) (name : String) : (s.visit name).index = s.index := by
  unfold BackwardState.visit
  split <;> rfl

theorem follows_backwardTo (depth : Nat) : Follows (backwardTo depth) depth := by
  induction depth with
  | zero =>
      intro name s bound
      have noRules : s.index.rules = [] := List.eq_nil_of_length_eq_zero (Nat.le_zero.1 bound)
      rw [backwardTo]
      simp only [index_visit]
      cases isFact : s.index.isFact name with
      | true => exact .known (by simpa using isFact)
      | false =>
          have isNew : name ∉ s.index.facts := by
            simpa using Bool.eq_false_iff.1 isFact
          exact .spent isNew (by simp [HornIndex.alternatives?, noRules])
  | succ depth ih =>
      intro name s bound
      rw [backwardTo]
      simp only [index_visit]
      by_cases isFact : name ∈ s.index.facts
      · simp only [HornIndex.isFact_iff, isFact, if_true, index_visit]
        exact .known isFact
      · simp only [HornIndex.isFact_iff, isFact, if_false]
        split
        · next spent =>
            simp only [index_visit]
            exact .spent isFact spent
        · next alternatives found =>
            have fewer := HornIndex.length_rules_eraseRule_lt found
            have inner := ih.anyFrom alternatives
              { s.visit name with index := s.index.eraseRule name } (by simp only; omega)
            generalize anyFrom (allFrom (backwardTo depth)) alternatives
              { s.visit name with index := s.index.eraseRule name } = result at inner
            rcases result with ⟨_ | _, rest⟩
            · exact .failed isFact found inner
            · exact .reached isFact found inner

/-- Backward chaining has the outcome of an attempt on the goal. -/
theorem HornIndex.attempt_chainBackward (index : HornIndex) (goal : String) :
    ∃ rest, Attempt (.symbol goal) index (index.chainBackward goal).success rest :=
  ⟨_, follows_backwardTo index.rules.length goal ⟨index, []⟩ (Nat.le_refl _)⟩

end Entail
