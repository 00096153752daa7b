import Entail.Proofs.Horn.Attempt

/-!
# What a backward search reaches and uses up

What is reached is derivable.  The rules that are used up belong to symbols on
which the task depends.  If a symbol was used up without success in a search
that succeeded, and it depends on what was searched for, then there was a
choice between several alternatives of a symbol on its cycles.
-/

namespace Entail

open HornIndex

theorem HornIndex.Evolves.hasAlternative {index rest : HornIndex} (evolves : index.Evolves rest)
    {name : String} {alternatives : List (List String)}
    (found : rest.alternatives? name = some alternatives) {requirements : List String}
    (isAlternative : requirements ∈ alternatives) : index.HasAlternative name requirements :=
  hasAlternative_of_alternatives? (evolves.some_of_some found) isAlternative

theorem HornIndex.Evolves.requires {index rest : HornIndex} (evolves : index.Evolves rest)
    {name : String} {alternatives : List (List String)} (isNew : name ∉ rest.facts)
    (found : rest.alternatives? name = some alternatives) {requirement : String}
    (required : requirement ∈ alternatives.flatten) : index.Requires name requirement := by
  rcases List.mem_flatten.1 required with ⟨requirements, isAlternative, listed⟩
  exact ⟨fun isFact => isNew (evolves.facts isFact), requirements,
    evolves.hasAlternative found isAlternative, listed⟩

/-- Facts that are derivable in the original index stay derivable, and so is what is reached. -/
theorem Attempt.sound {original : HornIndex} {task : Task} {index rest : HornIndex}
    {outcome : Bool} (attempt : Attempt task index outcome rest)
    (evolves : original.Evolves index) (facts : ∀ name ∈ index.facts, original.Derivable name) :
    (∀ name ∈ rest.facts, original.Derivable name) ∧
      (outcome = true → task.Holds original.Derivable) := by
  induction attempt with
  | known isFact => exact ⟨facts, fun _ => facts _ isFact⟩
  | spent _ _ => exact ⟨facts, fun isTrue => nomatch isTrue⟩
  | @reached name index rest alternatives isNew found _ ih =>
      rcases ih (evolves.trans (.eraseRule _ _)) facts with ⟨restFacts, holds⟩
      rcases holds rfl with ⟨requirements, isAlternative, met⟩
      have derivable : original.Derivable name :=
        .rule (evolves.hasAlternative found isAlternative) met
      constructor
      · intro other isFact
        rcases mem_facts_addFact.1 isFact with isFact | rfl
        · exact restFacts other isFact
        · exact derivable
      · exact fun _ => derivable
  | failed _ _ _ ih =>
      exact ⟨(ih (evolves.trans (.eraseRule _ _)) facts).1, fun isTrue => nomatch isTrue⟩
  | anyNil => exact ⟨facts, fun isTrue => nomatch isTrue⟩
  | hit _ ih =>
      rcases ih evolves facts with ⟨restFacts, holds⟩
      exact ⟨restFacts, fun _ => ⟨_, List.mem_cons_self, holds rfl⟩⟩
  | miss first _ ih ih' =>
      rcases ih' (evolves.trans first.evolves) (ih evolves facts).1 with ⟨restFacts, holds⟩
      constructor
      · exact restFacts
      · intro isTrue
        rcases holds isTrue with ⟨requirements, isAlternative, met⟩
        exact ⟨requirements, List.mem_cons_of_mem _ isAlternative, met⟩
  | allNil => exact ⟨facts, fun _ name isNone => nomatch isNone⟩
  | lost _ ih => exact ⟨(ih evolves facts).1, fun isTrue => nomatch isTrue⟩
  | met first _ ih ih' =>
      rcases ih evolves facts with ⟨middleFacts, holds⟩
      rcases ih' (evolves.trans first.evolves) middleFacts with ⟨restFacts, restHolds⟩
      exact ⟨restFacts, fun isTrue => List.forall_mem_cons.2 ⟨holds rfl, restHolds isTrue⟩⟩

/-! ### Symbols that are used up -/

/-- The rule of a symbol is used up between two indexes. -/
def HornIndex.Spends (index rest : HornIndex) (name : String) : Prop :=
  index.alternatives? name ≠ none ∧ rest.alternatives? name = none

namespace HornIndex.Spends

variable {index middle rest : HornIndex} {name other : String}

theorem not_refl : ¬index.Spends index name :=
  fun spends => spends.1 spends.2

theorem addFact_iff : index.Spends (rest.addFact other) name ↔ index.Spends rest name :=
  Iff.rfl

theorem of_left (spends : index.Spends middle name) (evolves : middle.Evolves rest) :
    index.Spends rest name :=
  ⟨spends.1, evolves.none_of_none spends.2⟩

theorem of_right (evolves : index.Evolves middle) (spends : middle.Spends rest name) :
    index.Spends rest name :=
  ⟨fun isNone => spends.1 (evolves.none_of_none isNone), spends.2⟩

theorem left_or_right (spends : index.Spends rest name) (middle : HornIndex) :
    index.Spends middle name ∨ middle.Spends rest name := by
  by_cases isNone : middle.alternatives? name = none
  · exact .inl ⟨spends.1, isNone⟩
  · exact .inr ⟨isNone, spends.2⟩

theorem of_eraseRule (spends : index.Spends rest name) (different : name ≠ other) :
    (index.eraseRule other).Spends rest name := by
  constructor
  · rw [alternatives?_eraseRule, if_neg different]
    exact spends.1
  · exact spends.2

end HornIndex.Spends

/-- Why `name` is used up between two indexes: one of the tried symbols depends on it, and it is one
of them or some used-up symbol requires it. -/
structure HornIndex.Cause (original index rest : HornIndex) (tried : List String)
    (name : String) : Prop where
  depends : ∃ source ∈ tried, original.DependsOn source name
  required : name ∈ tried ∨ ∃ source, index.Spends rest source ∧ original.Requires source name

namespace HornIndex.Cause

variable {original index rest index' rest' : HornIndex} {tried tried' : List String}
  {name : String}

theorem widen (cause : original.Cause index rest tried name) (subset : tried ⊆ tried')
    (spends : ∀ source, index.Spends rest source → index'.Spends rest' source) :
    original.Cause index' rest' tried' name where
  depends := by
    rcases cause.depends with ⟨source, isTried, depends⟩
    exact ⟨source, subset isTried, depends⟩
  required := by
    rcases cause.required with isTried | ⟨source, spent, requires⟩
    · exact .inl (subset isTried)
    · exact .inr ⟨source, spends source spent, requires⟩

/-- What is used up for the alternatives of a symbol is used up for the symbol. -/
theorem of_alternatives {symbol : String} {alternatives : List (List String)}
    (evolves : original.Evolves index) (isNew : symbol ∉ index.facts)
    (found : index.alternatives? symbol = some alternatives)
    (search : (index.eraseRule symbol).Evolves rest) (spends : index.Spends rest name)
    (cause : (index.eraseRule symbol).Spends rest name →
      original.Cause (index.eraseRule symbol) rest alternatives.flatten name) :
    original.Cause index rest [symbol] name := by
  have erased : (index.eraseRule symbol).alternatives? symbol = none := by
    rw [alternatives?_eraseRule, if_pos rfl]
  have symbolSpent : index.Spends rest symbol :=
    ⟨by simp [found], search.none_of_none erased⟩
  by_cases same : name = symbol
  · subst same
    exact ⟨⟨name, List.mem_singleton_self _, .refl⟩, .inl (List.mem_singleton_self _)⟩
  · have inner := cause (spends.of_eraseRule same)
    rcases inner.depends with ⟨source, listed, depends⟩
    constructor
    · exact ⟨symbol, List.mem_singleton_self _,
        .head (evolves.requires isNew found listed) depends⟩
    · right
      rcases inner.required with listed | ⟨source, spent, requires⟩
      · exact ⟨symbol, symbolSpent, evolves.requires isNew found listed⟩
      · exact ⟨source, .of_right (.eraseRule _ _) spent, requires⟩

end HornIndex.Cause

/-- Whatever a search uses up, it has cause to. -/
theorem Attempt.cause_of_spends {original : HornIndex} {task : Task} {index rest : HornIndex}
    {outcome : Bool} (attempt : Attempt task index outcome rest)
    (evolves : original.Evolves index) {name : String} (spends : index.Spends rest name) :
    original.Cause index rest task.symbols name := by
  induction attempt with
  | known _ | spent _ _ | anyNil | allNil => exact absurd spends HornIndex.Spends.not_refl
  | reached isNew found search ih =>
      have cause := HornIndex.Cause.of_alternatives evolves isNew found search.evolves
        (HornIndex.Spends.addFact_iff.1 spends) (ih (evolves.trans (.eraseRule _ _)))
      exact cause.widen (List.Subset.refl _) fun _ => id
  | failed isNew found search ih =>
      exact .of_alternatives evolves isNew found search.evolves spends
        (ih (evolves.trans (.eraseRule _ _)))
  | hit _ ih => exact (ih evolves spends).widen (List.subset_append_left _ _) fun _ => id
  | @miss _ _ _ middle _ _ first second ih ih' =>
      rcases spends.left_or_right middle with spends | spends
      · exact (ih evolves spends).widen (List.subset_append_left _ _)
          fun _ spent => spent.of_left second.evolves
      · exact (ih' (evolves.trans first.evolves) spends).widen (List.subset_append_right _ _)
          fun _ spent => .of_right first.evolves spent
  | lost _ ih =>
      exact (ih evolves spends).widen (by simp [Task.symbols]) fun _ => id
  | @met _ _ _ middle _ _ first second ih ih' =>
      rcases spends.left_or_right middle with spends | spends
      · exact (ih evolves spends).widen (by simp [Task.symbols])
          fun _ spent => spent.of_left second.evolves
      · exact (ih' (evolves.trans first.evolves) spends).widen (List.subset_cons_self _ _)
          fun _ spent => .of_right first.evolves spent

/-! ### Symbols that are used up in vain -/

/-- A derivable symbol with several alternatives on a cycle with `name`. -/
structure HornIndex.Choice (index : HornIndex) (choice name : String) : Prop where
  different : choice ≠ name
  derivable : index.Derivable choice
  depends : index.DependsOn choice name
  dependent : index.DependsOn name choice
  several : ∃ alternatives, index.alternatives? choice = some alternatives ∧
    2 ≤ alternatives.length

/-- A task that leaves no choice between alternatives. -/
def Task.Forced : Task → Prop
  | .anyOf alternatives => alternatives.length ≤ 1
  | _ => True

/-- If a search succeeds and a symbol was used up in vain although it depends on everything that
was tried, then some symbol left a choice. -/
theorem Attempt.exists_choice {original : HornIndex} {task : Task} {index rest : HornIndex}
    (attempt : Attempt task index true rest) (forced : task.Forced)
    (evolves : original.Evolves index) (facts : ∀ name ∈ index.facts, original.Derivable name)
    {name : String} (spends : index.Spends rest name) (isNew : name ∉ rest.facts)
    (depends : ∀ tried ∈ task.symbols, original.DependsOn name tried) :
    ∃ choice, original.Choice choice name := by
  generalize isTrue : true = outcome at attempt
  induction attempt with
  | known _ | allNil => exact absurd spends HornIndex.Spends.not_refl
  | spent _ _ | failed _ _ _ _ | lost _ _ | anyNil => contradiction
  | @reached symbol index rest alternatives isUnknown found search ih =>
      have different : symbol ≠ name := by
        rintro rfl
        exact isNew (mem_facts_addFact.2 (.inr rfl))
      have whole : Attempt (.symbol symbol) index true (rest.addFact symbol) :=
        .reached isUnknown found search
      by_cases several : 2 ≤ alternatives.length
      · rcases (whole.cause_of_spends evolves spends).depends with ⟨source, isSymbol, reaches⟩
        rcases List.mem_singleton.1 isSymbol with rfl
        exact ⟨source, different, (whole.sound evolves facts).2 rfl, reaches,
          depends source (List.mem_singleton_self _), alternatives,
          evolves.some_of_some found, several⟩
      · have erased := evolves.trans (.eraseRule index symbol)
        apply ih (Nat.le_of_lt_succ (Nat.not_le.1 several)) erased facts
          (spends.of_eraseRule different.symm) ?_ ?_ rfl
        · exact fun isFact => isNew (mem_facts_addFact.2 (.inl isFact))
        · intro requirement required
          exact (depends symbol (List.mem_singleton_self _)).tail
            (evolves.requires isUnknown found required)
  | hit _ ih =>
      apply ih trivial evolves facts spends isNew ?_ isTrue
      exact fun tried listed => depends tried (List.mem_append_left _ listed)
  | @miss requirements alternatives _ _ _ _ _ second _ _ =>
      have noOther : alternatives = [] :=
        List.eq_nil_of_length_eq_zero (Nat.le_zero.1 (Nat.le_of_succ_le_succ forced))
      subst noOther isTrue
      nomatch second
  | @met _ _ _ middle _ _ first second ih ih' =>
      rcases spends.left_or_right middle with spends | spends
      · apply ih trivial evolves facts spends ?_ ?_ rfl
        · exact fun isFact => isNew (second.evolves.facts isFact)
        · intro tried isTried
          exact depends tried (List.mem_cons.2 (.inl (List.mem_singleton.1 isTried)))
      · apply ih' trivial (evolves.trans first.evolves) (first.sound evolves facts).1 spends
          isNew ?_ isTrue
        exact fun tried listed => depends tried (List.mem_cons_of_mem _ listed)

end Entail
