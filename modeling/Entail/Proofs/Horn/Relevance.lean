import Entail.Proofs.Horn.Completeness
import Entail.Proofs.Outcome

/-!
# Facts on which a symbol does not depend

What an index derives, and what a backward search for a symbol comes to, is
settled by the rules and by those facts on which the symbol depends.  A fact
that is added changes nothing unless the symbol depends on it.
-/

namespace Entail

namespace HornIndex

/-- Whatever a relevant symbol requires is relevant. -/
def IsClosedUnder (index : HornIndex) (relevant : String → Prop) : Prop :=
  ∀ name requirement, relevant name → index.Requires name requirement → relevant requirement

theorem isClosedUnder_dependsOn (index : HornIndex) (goal : String) :
    index.IsClosedUnder (index.DependsOn goal) :=
  fun _ _ depends requires => depends.tail requires

/-- Two indexes with the same rules, and with the same facts among the relevant symbols. -/
structure AgreesOn (relevant : String → Prop) (index other : HornIndex) : Prop where
  rules : other.rules = index.rules
  facts : ∀ name, relevant name → (name ∈ other.facts ↔ name ∈ index.facts)

namespace AgreesOn

variable {relevant : String → Prop} {index other : HornIndex} {name : String}

theorem symm (agrees : AgreesOn relevant index other) : AgreesOn relevant other index :=
  ⟨agrees.rules.symm, fun name isRelevant => (agrees.facts name isRelevant).symm⟩

theorem alternatives? (agrees : AgreesOn relevant index other) (name : String) :
    other.alternatives? name = index.alternatives? name := by
  rw [HornIndex.alternatives?, agrees.rules, HornIndex.alternatives?]

theorem hasAlternative (agrees : AgreesOn relevant index other) {requirements : List String}
    (known : index.HasAlternative name requirements) : other.HasAlternative name requirements := by
  rwa [HasAlternative, agrees.rules]

theorem eraseRule (agrees : AgreesOn relevant index other) (name : String) :
    AgreesOn relevant (index.eraseRule name) (other.eraseRule name) := by
  constructor
  · rw [HornIndex.eraseRule, HornIndex.eraseRule, agrees.rules]
  · exact agrees.facts

theorem addFact (agrees : AgreesOn relevant index other) (name : String) :
    AgreesOn relevant (index.addFact name) (other.addFact name) := by
  constructor
  · exact agrees.rules
  · intro fact isRelevant
    rw [mem_facts_addFact, mem_facts_addFact, agrees.facts fact isRelevant]

theorem isClosedUnder (agrees : AgreesOn relevant index other)
    (closed : index.IsClosedUnder relevant) : other.IsClosedUnder relevant := by
  rintro name requirement isRelevant ⟨isNew, requirements, known, required⟩
  apply closed name requirement isRelevant
  constructor
  · exact mt (agrees.facts name isRelevant).2 isNew
  · exact ⟨requirements, agrees.symm.hasAlternative known, required⟩

/-- The relevant symbols that one of the indexes derives are derived by the other. -/
theorem derivable (agrees : AgreesOn relevant index other) (closed : index.IsClosedUnder relevant)
    (derivable : index.Derivable name) (isRelevant : relevant name) : other.Derivable name := by
  induction derivable with
  | fact isFact => exact .fact ((agrees.facts _ isRelevant).2 isFact)
  | @rule name requirements known _ ih =>
      by_cases isFact : name ∈ index.facts
      · exact .fact ((agrees.facts name isRelevant).2 isFact)
      · apply Derivable.rule (agrees.hasAlternative known)
        intro requirement required
        exact ih requirement required
          (closed name requirement isRelevant ⟨isFact, requirements, known, required⟩)

theorem derivable_iff (agrees : AgreesOn relevant index other)
    (closed : index.IsClosedUnder relevant) (isRelevant : relevant name) :
    other.Derivable name ↔ index.Derivable name := by
  constructor
  · exact fun derivable =>
      agrees.symm.derivable (agrees.isClosedUnder closed) derivable isRelevant
  · exact fun derivable => agrees.derivable closed derivable isRelevant

end AgreesOn

end HornIndex

open HornIndex

/-- What is attempted on an index has the same outcome on one that agrees with it, and leaves
indexes that agree. -/
theorem Attempt.exists_of_agrees {original : HornIndex} {relevant : String → Prop}
    (closed : original.IsClosedUnder relevant) {task : Task} {index other rest : HornIndex}
    {outcome : Bool} (attempt : Attempt task index outcome rest)
    (evolves : original.Evolves index) (tried : ∀ name ∈ task.symbols, relevant name)
    (agrees : AgreesOn relevant index other) :
    ∃ rest', Attempt task other outcome rest' ∧ AgreesOn relevant rest rest' := by
  -- What the alternatives of a tried symbol name is required by it, and hence relevant.
  have listed {name : String} {index : HornIndex} {alternatives : List (List String)}
      (evolves : original.Evolves index) (isRelevant : relevant name) (isNew : name ∉ index.facts)
      (found : index.alternatives? name = some alternatives) :
      ∀ requirement ∈ alternatives.flatten, relevant requirement :=
    fun requirement required => closed name requirement isRelevant
      (evolves.requires isNew found required)
  induction attempt generalizing other with
  | @known name _ isFact =>
      have isFact' := (agrees.facts name (tried name (List.mem_singleton_self _))).2 isFact
      exact ⟨other, .known isFact', agrees⟩
  | @spent name _ isNew isNone =>
      have isNew' := mt (agrees.facts name (tried name (List.mem_singleton_self _))).1 isNew
      exact ⟨other, .spent isNew' ((agrees.alternatives? name).trans isNone), agrees⟩
  | @reached name _ _ _ isNew found _ ih =>
      have isRelevant := tried name (List.mem_singleton_self _)
      have isNew' := mt (agrees.facts name isRelevant).1 isNew
      have found' := (agrees.alternatives? name).trans found
      obtain ⟨rest', search, agrees'⟩ := ih (evolves.trans (.eraseRule _ _))
        (listed evolves isRelevant isNew found) (agrees.eraseRule name)
      exact ⟨rest'.addFact name, .reached isNew' found' search, agrees'.addFact name⟩
  | @failed name _ _ _ isNew found _ ih =>
      have isRelevant := tried name (List.mem_singleton_self _)
      have isNew' := mt (agrees.facts name isRelevant).1 isNew
      have found' := (agrees.alternatives? name).trans found
      obtain ⟨rest', search, agrees'⟩ := ih (evolves.trans (.eraseRule _ _))
        (listed evolves isRelevant isNew found) (agrees.eraseRule name)
      exact ⟨rest', .failed isNew' found' search, agrees'⟩
  | anyNil => exact ⟨other, .anyNil, agrees⟩
  | hit _ ih =>
      obtain ⟨rest', first, agrees'⟩ := ih evolves
        (fun name listed => tried name (List.mem_append_left _ listed)) agrees
      exact ⟨rest', .hit first, agrees'⟩
  | miss first _ ih ih' =>
      obtain ⟨middle', first', agrees'⟩ := ih evolves
        (fun name listed => tried name (List.mem_append_left _ listed)) agrees
      obtain ⟨rest', second', agrees'⟩ := ih' (evolves.trans first.evolves)
        (fun name listed => tried name (List.mem_append_right _ listed)) agrees'
      exact ⟨rest', .miss first' second', agrees'⟩
  | allNil => exact ⟨other, .allNil, agrees⟩
  | lost _ ih =>
      obtain ⟨rest', first, agrees'⟩ := ih evolves
        (List.forall_mem_singleton.2 (tried _ List.mem_cons_self)) agrees
      exact ⟨rest', .lost first, agrees'⟩
  | met first _ ih ih' =>
      obtain ⟨middle', first', agrees'⟩ := ih evolves
        (List.forall_mem_singleton.2 (tried _ List.mem_cons_self)) agrees
      obtain ⟨rest', second', agrees'⟩ := ih' (evolves.trans first.evolves)
        (fun name listed => tried name (List.mem_cons_of_mem _ listed)) agrees'
      exact ⟨rest', .met first' second', agrees'⟩

namespace HornIndex

variable {index other : HornIndex} {goal : String}

/-- Backward chaining on indexes that agree on what the goal depends on has the same outcome. -/
theorem AgreesOn.success_chainBackward (agrees : AgreesOn (index.DependsOn goal) index other) :
    (other.chainBackward goal).success = (index.chainBackward goal).success := by
  obtain ⟨rest, attempt⟩ := index.attempt_chainBackward goal
  obtain ⟨_, attempt'⟩ := other.attempt_chainBackward goal
  have isGoal : ∀ name ∈ (Task.symbol goal).symbols, index.DependsOn goal name :=
    List.forall_mem_singleton.2 .refl
  obtain ⟨_, same, _⟩ :=
    attempt.exists_of_agrees (index.isClosedUnder_dependsOn goal) (.refl index) isGoal agrees
  exact (same.unique attempt').1

/-! ### One more fact -/

/-- An index with the rules of another one, and with one more fact. -/
structure Gains (index : HornIndex) (name : String) (more : HornIndex) : Prop where
  rules : more.rules = index.rules
  facts : ∀ other, other ∈ more.facts ↔ other ∈ index.facts ∨ other = name

namespace Gains

variable {more : HornIndex} {name : String}

/-- A fact on which the goal depends only if it was a fact before is of no relevance. -/
theorem agreesOn (gains : index.Gains name more)
    (known : index.DependsOn goal name → name ∈ index.facts) :
    AgreesOn (index.DependsOn goal) index more := by
  constructor
  · exact gains.rules
  · intro fact depends
    rw [gains.facts]
    constructor
    · rintro (isFact | rfl)
      · exact isFact
      · exact known depends
    · exact .inl

theorem hasAlternative_iff (gains : index.Gains name more) {symbol : String}
    {requirements : List String} :
    more.HasAlternative symbol requirements ↔ index.HasAlternative symbol requirements := by
  rw [HasAlternative, HasAlternative, gains.rules]

/-- Whatever was derivable is. -/
theorem derivable (gains : index.Gains name more) (derivable : index.Derivable goal) :
    more.Derivable goal := by
  apply derivable.mem_of_closed
  · exact fun fact isFact => .fact ((gains.facts fact).2 (.inl isFact))
  · exact fun _ _ isAlternative met => .rule (gains.hasAlternative_iff.2 isAlternative) met

/-- A fact makes a difference only to symbols that depend on it, and only if it was not
derivable. -/
theorem derivable_iff (gains : index.Gains name more)
    (known : index.DependsOn goal name → index.Derivable name) :
    more.Derivable goal ↔ index.Derivable goal := by
  by_cases depends : index.DependsOn goal name
  · constructor
    · intro derivable
      apply derivable.mem_of_closed
      · intro fact isFact
        obtain isFact | rfl := (gains.facts fact).1 isFact
        · exact .fact isFact
        · exact known depends
      · exact fun _ _ isAlternative met => .rule (gains.hasAlternative_iff.1 isAlternative) met
    · exact gains.derivable
  · have agrees := gains.agreesOn (fun depends' => absurd depends' depends)
    exact agrees.derivable_iff (index.isClosedUnder_dependsOn goal) .refl

theorem requires (gains : index.Gains name more) {symbol requirement : String}
    (requires : more.Requires symbol requirement) : index.Requires symbol requirement := by
  obtain ⟨isNew, requirements, isAlternative, required⟩ := requires
  constructor
  · exact fun isFact => isNew ((gains.facts symbol).2 (.inl isFact))
  · exact ⟨requirements, gains.hasAlternative_iff.1 isAlternative, required⟩

theorem dependsOn (gains : index.Gains name more) {symbol other : String}
    (depends : more.DependsOn symbol other) : index.DependsOn symbol other :=
  Relation.ReflTransGen.mono (fun _ _ requires => gains.requires requires) _ _ depends

/-- A derivable symbol that becomes a fact entangles no symbols. -/
theorem entangled (gains : index.Gains name more)
    (known : index.DependsOn goal name → index.Derivable name) {choice other : String}
    (entangled : more.Entangled goal choice other) : index.Entangled goal choice other := by
  have relevant := gains.dependsOn entangled.relevant
  have depends := relevant.trans (gains.dependsOn entangled.choice.dependent)
  obtain ⟨alternatives, found, two⟩ := entangled.choice.several
  obtain ⟨left, right, different, toLeft, leftRequires, toRight, rightRequires⟩ :=
    entangled.required
  constructor
  · constructor
    · exact entangled.choice.different
    · exact (gains.derivable_iff fun reaches => known (depends.trans reaches)).1
        entangled.choice.derivable
    · exact gains.dependsOn entangled.choice.depends
    · exact gains.dependsOn entangled.choice.dependent
    · rw [HornIndex.alternatives?, gains.rules] at found
      exact ⟨alternatives, found, two⟩
  · exact (gains.derivable_iff fun reaches => known (relevant.trans reaches)).1 entangled.derivable
  · exact relevant
  · exact ⟨left, right, different, gains.dependsOn toLeft, gains.requires leftRequires,
      gains.dependsOn toRight, gains.requires rightRequires⟩

theorem addFact (index : HornIndex) (name : String) : index.Gains name (index.addFact name) :=
  ⟨rfl, fun _ => mem_facts_addFact⟩

/-- Adding a clause to both keeps one more fact in one of them. -/
theorem insert (gains : index.Gains name more) (clause : Formula) :
    (index.insert clause).Gains name (more.insert clause) := by
  have implications (conclusion : String) (lists : List (List String)) {index more : HornIndex}
      (gains : index.Gains name more) :
      (lists.foldl (fun index requirements => index.addImplication conclusion requirements)
        index).Gains name
        (lists.foldl (fun index requirements => index.addImplication conclusion requirements)
          more) := by
    induction lists generalizing index more with
    | nil => exact gains
    | cons requirements rest ih =>
        apply ih
        constructor
        · exact congrArg (addAlternative conclusion requirements) gains.rules
        · exact gains.facts
  unfold HornIndex.insert
  split
  · next fact =>
      constructor
      · exact gains.rules
      · intro other
        rw [mem_facts_addFact, mem_facts_addFact, gains.facts]
        exact or_right_comm
  · next requirement => exact implications falseName [[requirement]] gains
  · exact implications _ _ gains
  · exact gains

theorem insertHorn (gains : index.Gains name more) {f : Formula} {rest : HornIndex}
    (inserted : index.insertHorn f = .ok rest) :
    ∃ rest', more.insertHorn f = .ok rest' ∧ rest.Gains name rest' := by
  obtain ⟨clause, normal, rfl⟩ := map_eq_ok_iff.1 inserted
  exact ⟨more.insert clause, by rw [HornIndex.insertHorn, normal, Except.map], gains.insert clause⟩

/-- Adding formulas to both keeps one more fact in one of them. -/
theorem insertConjuncts (gains : index.Gains name more) {f : Formula} {rest : HornIndex}
    (inserted : f.conjuncts.foldlM HornIndex.insertHorn index = .ok rest) :
    ∃ rest', f.conjuncts.foldlM HornIndex.insertHorn more = .ok rest' ∧ rest.Gains name rest' :=
  exists_foldlM_of_related (fun index more => index.Gains name more)
    (fun _ _ _ _ gains => gains.insertHorn) f.conjuncts gains inserted

end Gains

/-- Telling a symbol makes it a fact. -/
theorem insertConjuncts_symbol (index : HornIndex) (name : String) :
    (Formula.single (.symbol false name)).conjuncts.foldlM insertHorn index =
      .ok (index.addFact name) :=
  rfl

/-- Telling a symbol, before or after whatever else is told, makes it a fact and changes nothing
else. -/
theorem exists_gains_ofKnowledgeBase {before after : List Formula} (name : String)
    (indexed : ofKnowledgeBase ⟨before ++ after⟩ = .ok index) :
    ∃ more, ofKnowledgeBase ⟨before ++ .single (.symbol false name) :: after⟩ = .ok more ∧
      index.Gains name more := by
  rw [ofKnowledgeBase_eq_foldlM, List.foldlM_append] at indexed
  obtain ⟨start, first, rest⟩ := bind_eq_ok_iff.1 indexed
  obtain ⟨more, rest', gains⟩ :=
    exists_foldlM_of_related (fun index more => index.Gains name more)
      (fun _ _ _ _ gains => gains.insertConjuncts) after (Gains.addFact start name) rest
  refine ⟨more, ?_, gains⟩
  rw [ofKnowledgeBase_eq_foldlM, List.foldlM_append, first]
  apply (pure_bind start _).trans
  rw [List.foldlM_cons, insertConjuncts_symbol]
  exact rest'

end HornIndex

end Entail
