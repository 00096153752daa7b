import Entail.Proofs.Horn.Backward

/-!
# When backward chaining is complete

A search avoids the symbols in use.  A symbol that was tried in vain is not
derivable without the symbols in use at that time; when one of these is reached
later, the symbol may have become derivable, but its rule is gone.  This does
harm only if the symbol is tried again, that is, if several symbols require it,
and only if the symbol in use was not bound to a single alternative.
-/

namespace Entail

namespace HornIndex

/-- The symbols that are derivable without those of a list. -/
inductive Avoiding (index : HornIndex) (inUse : List String) : String → Prop
  | fact {name : String} : name ∉ inUse → name ∈ index.facts → Avoiding index inUse name
  | rule {name : String} {requirements : List String} : name ∉ inUse →
      index.HasAlternative name requirements →
      (∀ requirement ∈ requirements, Avoiding index inUse requirement) →
      Avoiding index inUse name

namespace Avoiding

variable {index : HornIndex} {inUse : List String} {name symbol : String}

theorem not_mem (avoiding : index.Avoiding inUse name) : name ∉ inUse := by
  cases avoiding <;> assumption

theorem derivable (avoiding : index.Avoiding inUse name) : index.Derivable name := by
  induction avoiding with
  | fact _ isFact => exact .fact isFact
  | rule _ concluded _ ih => exact .rule concluded ih

theorem of_derivable (derivable : index.Derivable name) : index.Avoiding [] name := by
  induction derivable with
  | fact isFact => exact .fact List.not_mem_nil isFact
  | rule concluded _ ih => exact .rule List.not_mem_nil concluded ih

theorem of_cons (avoiding : index.Avoiding (symbol :: inUse) name) :
    index.Avoiding inUse name := by
  induction avoiding with
  | fact isFree isFact => exact .fact (fun used => isFree (List.mem_cons_of_mem _ used)) isFact
  | rule isFree concluded _ ih =>
      exact .rule (fun used => isFree (List.mem_cons_of_mem _ used)) concluded ih

/-- A symbol of whose alternatives none holds without it is of no use to others. -/
theorem cons (isNew : symbol ∉ index.facts)
    (blocked : ∀ requirements, index.HasAlternative symbol requirements →
      ¬∀ requirement ∈ requirements, index.Avoiding (symbol :: inUse) requirement)
    (avoiding : index.Avoiding inUse name) : index.Avoiding (symbol :: inUse) name := by
  induction avoiding with
  | @fact name isFree isFact =>
      apply Avoiding.fact _ isFact
      intro used
      rcases List.mem_cons.1 used with rfl | used
      · exact isNew isFact
      · exact isFree used
  | @rule name requirements isFree concluded _ ih =>
      apply Avoiding.rule _ concluded ih
      intro used
      rcases List.mem_cons.1 used with rfl | used
      · exact blocked requirements concluded ih
      · exact isFree used

/-- What is derivable without the symbols in use, but not without `symbol` too, depends on it. -/
theorem dependsOn (avoiding : index.Avoiding inUse name)
    (needs : ¬index.Avoiding (symbol :: inUse) name) : index.DependsOn name symbol := by
  induction avoiding with
  | @fact name isFree isFact =>
      by_cases same : name = symbol
      · exact same ▸ .refl
      · exact absurd (.fact (by simp [same, isFree]) isFact) needs
  | @rule name requirements isFree concluded _ ih =>
      by_cases same : name = symbol
      · exact same ▸ .refl
      · have isFree' : name ∉ symbol :: inUse := by simp [same, isFree]
        have isNew : name ∉ index.facts := fun isFact => needs (.fact isFree' isFact)
        by_contra independent
        apply needs
        apply Avoiding.rule isFree' concluded
        intro requirement required
        by_contra needed
        exact independent (.head ⟨isNew, requirements, concluded, required⟩
          (ih requirement required needed))

end Avoiding

/-! ### Symbols that block each other -/

/-- Two symbols on which the goal depends, and which depend on each other: the first leaves a
choice, and several symbols require the second. -/
structure Entangled (index : HornIndex) (goal choice name : String) : Prop where
  choice : index.Choice choice name
  derivable : index.Derivable name
  relevant : index.DependsOn goal name
  required : ∃ left right, left ≠ right ∧ index.DependsOn goal left ∧ index.Requires left name ∧
    index.DependsOn goal right ∧ index.Requires right name

/-- A symbol that no search will come upon again. -/
def Retired (index rest : HornIndex) (goal : String) (inUse : List String) (name : String) :
    Prop :=
  ∀ source, index.DependsOn goal source → index.Requires source name →
    rest.alternatives? source = none ∧ source ∉ inUse

theorem Retired.mono {index rest rest' : HornIndex} {goal name : String}
    {inUse inUse' : List String} (retired : index.Retired rest goal inUse name)
    (isNone : ∀ source, rest.alternatives? source = none → rest'.alternatives? source = none)
    (used : ∀ source ∈ inUse', source ∈ inUse) : index.Retired rest' goal inUse' name := by
  intro source relevant requires
  rcases retired source relevant requires with ⟨spent, isFree⟩
  exact ⟨isNone source spent, fun isUsed => isFree (used source isUsed)⟩

/-- What holds while the rules of some symbols are in use. -/
structure Searching (index rest : HornIndex) (goal : String) (inUse : List String) : Prop where
  evolves : index.Evolves rest
  facts : ∀ name ∈ rest.facts, index.Derivable name
  spent : ∀ name ∈ inUse, rest.alternatives? name = none
  relevant : ∀ name ∈ inUse, index.DependsOn goal name
  settled : ∀ name, index.Spends rest name → name ∉ rest.facts → name ∉ inUse →
    ¬index.Avoiding inUse name ∨ index.Retired rest goal inUse name

namespace Searching

variable {index current rest : HornIndex} {goal name : String} {inUse : List String}
  {alternatives : List (List String)}

theorem initial (index : HornIndex) (goal : String) : index.Searching index goal [] where
  evolves := .refl index
  facts := fun _ isFact => .fact isFact
  spent := fun _ used => nomatch used
  relevant := fun _ used => nomatch used
  settled := fun _ spends => absurd spends Spends.not_refl

/-- The rule of a symbol comes into use. -/
theorem start (searching : index.Searching current goal inUse)
    (found : current.alternatives? name = some alternatives)
    (relevant : index.DependsOn goal name) :
    index.Searching (current.eraseRule name) goal (name :: inUse) where
  evolves := searching.evolves.trans (.eraseRule _ _)
  facts := searching.facts
  spent := by
    intro other used
    rw [alternatives?_eraseRule]
    split
    · rfl
    · next different => exact searching.spent other ((List.mem_cons.1 used).resolve_left different)
  relevant := List.forall_mem_cons.2 ⟨relevant, searching.relevant⟩
  settled := by
    intro other spends isNew isFree
    rw [List.mem_cons, not_or] at isFree
    rcases isFree with ⟨different, isFree⟩
    have spent : index.Spends current other := by
      constructor
      · exact spends.1
      · rw [← spends.2, alternatives?_eraseRule, if_neg different]
    rcases searching.settled other spent isNew isFree with needs | retired
    · exact .inl fun avoiding => needs avoiding.of_cons
    · right
      intro source relevant requires
      rcases retired source relevant requires with ⟨isNone, sourceFree⟩
      constructor
      · exact (Evolves.eraseRule _ _).none_of_none isNone
      · intro used
        rcases List.mem_cons.1 used with rfl | used
        · rw [found] at isNone
          contradiction
        · exact sourceFree used

/-- The rule of a symbol goes out of use in vain. -/
theorem fail (searching : index.Searching rest goal (name :: inUse)) (isNew : name ∉ index.facts)
    (blocked : ∀ requirements, index.HasAlternative name requirements →
      ¬∀ requirement ∈ requirements, index.Avoiding (name :: inUse) requirement) :
    index.Searching rest goal inUse where
  evolves := searching.evolves
  facts := searching.facts
  spent := fun other used => searching.spent other (List.mem_cons_of_mem _ used)
  relevant := fun other used => searching.relevant other (List.mem_cons_of_mem _ used)
  settled := by
    intro other spends isUnknown isFree
    by_cases same : other = name
    · subst same
      exact .inl fun avoiding => (avoiding.cons isNew blocked).not_mem List.mem_cons_self
    · have isFree' : other ∉ name :: inUse := by simp [same, isFree]
      rcases searching.settled other spends isUnknown isFree' with needs | retired
      · exact .inl fun avoiding => needs (avoiding.cons isNew blocked)
      · exact .inr (retired.mono (fun _ => id) fun _ used => List.mem_cons_of_mem _ used)

/-- A symbol is retired if it was tried in vain in a search that succeeded and depends on what was
searched for. -/
theorem retired_of_spends (untangled : ¬∃ choice name, index.Entangled goal choice name)
    (before : index.Searching current goal inUse)
    (attempt : Attempt (.symbol name) current true rest) (relevant : index.DependsOn goal name)
    {other : String} (spent : current.Spends rest other) (different : other ≠ name)
    (isUnknown : other ∉ rest.facts) (depends : index.DependsOn other name)
    (derivable : index.Derivable other) : index.Retired rest goal inUse other := by
  have reaches {source : String} (spent : current.Spends rest source) :
      index.DependsOn goal source := by
    rcases (attempt.cause_of_spends before.evolves spent).depends with ⟨tried, isTried, reaches⟩
    rcases List.mem_singleton.1 isTried with rfl
    exact relevant.trans reaches
  rcases attempt.exists_choice trivial before.evolves before.facts spent isUnknown
    (by simpa [Task.symbols] using depends) with ⟨choice, isChoice⟩
  rcases (attempt.cause_of_spends before.evolves spent).required with isTried | cause
  · exact absurd (List.mem_singleton.1 isTried) different
  · rcases cause with ⟨source, sourceSpent, requires⟩
    intro left leftRelevant leftRequires
    have same : left = source := by
      by_contra two
      exact untangled ⟨choice, other, isChoice, derivable, reaches spent, left, source, two,
        leftRelevant, leftRequires, reaches sourceSpent, requires⟩
    subst same
    exact ⟨sourceSpent.2, fun used => sourceSpent.1 (before.spent left used)⟩

/-- The rule of a symbol goes out of use with success. -/
theorem succeed (untangled : ¬∃ choice name, index.Entangled goal choice name)
    (before : index.Searching current goal inUse)
    (attempt : Attempt (.symbol name) current true (rest.addFact name))
    (relevant : index.DependsOn goal name) (searching : index.Searching rest goal (name :: inUse)) :
    index.Searching (rest.addFact name) goal inUse where
  evolves := searching.evolves.trans (.addFact _ _)
  facts := (attempt.sound before.evolves before.facts).1
  spent := fun other used => searching.spent other (List.mem_cons_of_mem _ used)
  relevant := before.relevant
  settled := by
    intro other spends isUnknown isFree
    by_cases avoiding : index.Avoiding inUse other
    · right
      by_cases spentBefore : current.alternatives? other = none
      · -- nothing that happens later brings a retired symbol back
        have isUnknown' : other ∉ current.facts := fun isFact =>
          isUnknown (attempt.evolves.facts isFact)
        rcases before.settled other ⟨spends.1, spentBefore⟩ isUnknown' isFree with needs | retired
        · exact absurd avoiding needs
        · exact retired.mono (fun _ => attempt.evolves.none_of_none) fun _ used => used
      · have spent : current.Spends (rest.addFact name) other := ⟨spentBefore, spends.2⟩
        have different : other ≠ name := by
          rintro rfl
          exact isUnknown (mem_facts_addFact.2 (.inr rfl))
        have isFree' : other ∉ name :: inUse := by simp [different, isFree]
        have isUnknown' : other ∉ rest.facts := fun isFact =>
          isUnknown (mem_facts_addFact.2 (.inl isFact))
        rcases searching.settled other spends isUnknown' isFree' with needs | retired
        · have depends := avoiding.dependsOn needs
          exact retired_of_spends untangled before attempt relevant spent different isUnknown
            depends avoiding.derivable
        · exact retired.mono (fun _ => id) fun _ used => List.mem_cons_of_mem _ used
    · exact .inl avoiding

end Searching

end HornIndex

open HornIndex

variable {original index rest : HornIndex} {goal name : String} {inUse : List String}
  {alternatives : List (List String)}

theorem HornIndex.IsKeyed.not_avoiding_of_none (keyed : original.IsKeyed)
    (isNew : name ∉ original.facts) (isNone : original.alternatives? name = none) :
    ¬original.Avoiding inUse name := by
  rintro (⟨_, isFact⟩ | ⟨_, concluded, _⟩)
  · exact isNew isFact
  · rcases keyed.exists_alternatives? concluded with ⟨_, found, _⟩
    rw [isNone] at found
    contradiction

theorem HornIndex.IsKeyed.blocked_of_failed (keyed : original.IsKeyed)
    (found : original.alternatives? name = some alternatives)
    (failed : ¬(Task.anyOf alternatives).Holds (original.Avoiding inUse)) :
    ∀ requirements, original.HasAlternative name requirements →
      ¬∀ requirement ∈ requirements, original.Avoiding inUse requirement := by
  intro requirements concluded met
  rcases keyed.exists_alternatives? concluded with ⟨_, foundAgain, isAlternative⟩
  rw [found] at foundAgain
  cases foundAgain
  exact failed ⟨requirements, isAlternative, met⟩

/-- A search keeps the invariant, and when it fails, its task cannot be accomplished without the
symbols in use. -/
theorem Attempt.searching (keyed : original.IsKeyed)
    (untangled : ¬∃ choice name, original.Entangled goal choice name) {task : Task}
    {outcome : Bool} (attempt : Attempt task index outcome rest)
    (before : original.Searching index goal inUse)
    (called : ∀ name ∈ task.symbols, ∃ source ∈ inUse, original.Requires source name) :
    original.Searching rest goal inUse ∧
      (outcome = false → ¬task.Holds (original.Avoiding inUse)) := by
  induction attempt generalizing inUse with
  | known _ => exact ⟨before, fun isFalse => nomatch isFalse⟩
  | @spent name index isNew spent =>
      constructor
      · exact before
      · intro _ avoiding
        rcases called name (List.mem_singleton_self _) with ⟨source, used, requires⟩
        by_cases isNone : original.alternatives? name = none
        · have isNew' : name ∉ original.facts := fun isFact => isNew (before.evolves.facts isFact)
          exact keyed.not_avoiding_of_none isNew' isNone avoiding
        · rcases before.settled name ⟨isNone, spent⟩ isNew avoiding.not_mem with needs | retired
          · exact needs avoiding
          · exact (retired source (before.relevant source used) requires).2 used
  | reached isNew found search ih =>
      rcases called _ (List.mem_singleton_self _) with ⟨source, used, requires⟩
      have relevant := (before.relevant source used).tail requires
      have searching := (ih (before.start found relevant) fun _ required =>
        ⟨_, List.mem_cons_self, before.evolves.requires isNew found required⟩).1
      exact ⟨.succeed untangled before (.reached isNew found search) relevant searching,
        fun isFalse => nomatch isFalse⟩
  | failed isNew found _ ih =>
      rcases called _ (List.mem_singleton_self _) with ⟨source, used, requires⟩
      have relevant := (before.relevant source used).tail requires
      rcases ih (before.start found relevant) fun _ required =>
        ⟨_, List.mem_cons_self, before.evolves.requires isNew found required⟩ with
        ⟨searching, failed⟩
      have isNew' := fun isFact => isNew (before.evolves.facts isFact)
      have blocked := keyed.blocked_of_failed (before.evolves.some_of_some found) (failed rfl)
      exact ⟨searching.fail isNew' blocked,
        fun _ avoiding => (avoiding.cons isNew' blocked).not_mem List.mem_cons_self⟩
  | anyNil => exact ⟨before, fun _ ⟨_, isAlternative, _⟩ => nomatch isAlternative⟩
  | hit _ ih =>
      have called' := fun name listed => called name (List.mem_append_left _ listed)
      exact ⟨(ih before called').1, fun isFalse => nomatch isFalse⟩
  | miss _ _ ih ih' =>
      rcases ih before fun name listed => called name (List.mem_append_left _ listed) with
        ⟨middle, first⟩
      rcases ih' middle fun name listed => called name (List.mem_append_right _ listed) with
        ⟨rest, second⟩
      constructor
      · exact rest
      · rintro isFalse ⟨requirements, _ | ⟨_, isAlternative⟩, met⟩
        · exact first rfl met
        · exact second isFalse ⟨requirements, isAlternative, met⟩
  | allNil => exact ⟨before, fun isFalse => nomatch isFalse⟩
  | lost _ ih =>
      rcases ih before fun name isTried =>
        called name (List.mem_cons.2 (.inl (List.mem_singleton.1 isTried))) with ⟨rest, first⟩
      exact ⟨rest, fun _ met => first rfl (met _ List.mem_cons_self)⟩
  | met _ _ ih ih' =>
      rcases ih before fun name isTried =>
        called name (List.mem_cons.2 (.inl (List.mem_singleton.1 isTried))) with ⟨middle, _⟩
      rcases ih' middle fun name listed => called name (List.mem_cons_of_mem _ listed) with
        ⟨rest, second⟩
      exact ⟨rest, fun isFalse met => second isFalse fun name listed =>
        met name (List.mem_cons_of_mem _ listed)⟩

namespace HornIndex

/-- Whatever backward chaining reaches is derivable. -/
theorem derivable_of_chainBackward (index : HornIndex) (goal : String)
    (success : (index.chainBackward goal).success = true) : index.Derivable goal := by
  rcases index.attempt_chainBackward goal with ⟨rest, attempt⟩
  exact (attempt.sound (.refl index) fun _ isFact => .fact isFact).2 success

/-- Unless there are entangled symbols, backward chaining reaches whatever is derivable. -/
theorem IsKeyed.chainBackward_of_derivable (keyed : index.IsKeyed)
    (untangled : ¬∃ choice name, index.Entangled goal choice name)
    (derivable : index.Derivable goal) : (index.chainBackward goal).success = true := by
  rcases index.attempt_chainBackward goal with ⟨rest, attempt⟩
  have avoiding := Avoiding.of_derivable derivable
  generalize (index.chainBackward goal).success = outcome at attempt
  cases attempt with
  | known _ | reached _ _ _ => rfl
  | spent isNew isNone => exact absurd avoiding (keyed.not_avoiding_of_none isNew isNone)
  | failed isNew found search =>
      have before := (Searching.initial index goal).start found .refl
      rcases search.searching keyed untangled before fun _ required =>
        ⟨goal, List.mem_cons_self, (Evolves.refl index).requires isNew found required⟩ with
        ⟨_, failed⟩
      have blocked := keyed.blocked_of_failed found (failed rfl)
      exact absurd List.mem_cons_self (avoiding.cons isNew blocked).not_mem

theorem chainBackward_of_derivable (wellFormed : index.WellFormed)
    (untangled : ¬∃ choice name, index.Entangled goal choice name)
    (derivable : index.Derivable goal) : (index.chainBackward goal).success = true :=
  IsKeyed.chainBackward_of_derivable wellFormed.distinct untangled derivable

end HornIndex

end Entail
