import Entail.Horn.Forward
import Entail.Proofs.Horn.LeastModel

/-!
# Forward chaining reaches what an index derives

Every known symbol is derivable.  A rule is used up only when its conclusion
becomes known, and every alternative of a rule that is left requires a symbol
that was not scanned: so the known symbols are closed under the rules when all
of them have been scanned.
-/

namespace Entail

namespace HornRule

theorem fires_iff {rule : HornRule} {fact : String} {known : List String} :
    rule.fires fact known = true ↔
      ∃ requirements ∈ rule.alternatives, fact ∈ requirements ∧
        ∀ requirement ∈ requirements, requirement ∈ known := by
  simp [fires]

theorem fires_of_subset {rule : HornRule} {fact : String} {known more : List String}
    (fires : rule.fires fact known = true) (subset : known ⊆ more) :
    rule.fires fact more = true := by
  rcases fires_iff.1 fires with ⟨requirements, isAlternative, needed, met⟩
  exact fires_iff.2
    ⟨requirements, isAlternative, needed, fun requirement required => subset (met _ required)⟩

end HornRule

/-- What holds of the known symbols and the rules that are left. -/
structure HornIndex.Progress (index : HornIndex) (goal : String) (known : List String)
    (left : List HornRule) : Prop where
  facts : ∀ name ∈ index.facts, name ∈ known
  sound : ∀ name ∈ known, index.Derivable name
  unreached : goal ∉ known
  rules : ∀ rule ∈ left, rule ∈ index.rules
  used : ∀ rule ∈ index.rules, rule ∈ left ∨ rule.conclusion ∈ known

namespace HornIndex.Progress

variable {index : HornIndex} {goal fact : String} {known : List String}
  {rule : HornRule} {passed rest : List HornRule}

theorem derivable_of_fires (progress : index.Progress goal known (passed ++ rule :: rest))
    (fires : rule.fires fact known = true) : index.Derivable rule.conclusion := by
  rcases HornRule.fires_iff.1 fires with ⟨requirements, isAlternative, _, met⟩
  have isRule : rule ∈ index.rules := progress.rules rule (by simp)
  exact .rule ⟨rule, isRule, rfl, isAlternative⟩ fun requirement required =>
    progress.sound _ (met _ required)

/-- A rule that fires makes way for its conclusion. -/
theorem fire (progress : index.Progress goal known (passed ++ rule :: rest))
    (fires : rule.fires fact known = true) (other : rule.conclusion ≠ goal) {more : List String}
    (gained : ∀ name, name ∈ more ↔ name ∈ known ∨ name = rule.conclusion) :
    index.Progress goal more (passed ++ rest) where
  facts := fun name isFact => (gained _).2 (.inl (progress.facts name isFact))
  sound := by
    intro name isKnown
    rcases (gained _).1 isKnown with old | rfl
    · exact progress.sound name old
    · exact progress.derivable_of_fires fires
  unreached := by
    intro isKnown
    rcases (gained _).1 isKnown with old | same
    · exact progress.unreached old
    · exact other same.symm
  rules := by
    intro other isLeft
    apply progress.rules
    rcases List.mem_append.1 isLeft with isPassed | isRest
    · exact List.mem_append_left _ isPassed
    · exact List.mem_append_right _ (List.mem_cons_of_mem _ isRest)
  used := by
    intro other isRule
    rcases progress.used other isRule with isLeft | isKnown
    · rw [List.mem_append, List.mem_cons] at isLeft
      rcases isLeft with isPassed | rfl | isRest
      · exact .inl (List.mem_append_left _ isPassed)
      · exact .inr ((gained _).2 (.inr rfl))
      · exact .inl (List.mem_append_right _ isRest)
    · exact .inr ((gained _).2 (.inl isKnown))

end HornIndex.Progress

/-- What the sweep of a fact over the rules after `passed` comes to: the goal is derivable, or
more is known and the rules that are kept do not fire. -/
structure Sweep.Meets (result : Sweep) (index : HornIndex) (goal fact : String)
    (known : List String) (passed : List HornRule) : Prop where
  reached : result.reached = true → index.Derivable goal
  progress : result.reached = false →
    index.Progress goal (known ++ result.derived) (passed ++ result.kept)
  idle : ∀ rule ∈ result.kept, rule.fires fact known = false ∨ result.reached = true

theorem Sweep.Meets.keep {result : Sweep} {index : HornIndex} {goal fact : String}
    {known : List String} {passed : List HornRule} {rule : HornRule}
    (meets : result.Meets index goal fact known (passed ++ [rule]))
    (idle : rule.fires fact known = false) :
    Sweep.Meets { result with kept := rule :: result.kept } index goal fact known passed where
  reached := meets.reached
  progress := by
    intro unreached
    simpa using meets.progress unreached
  idle := by
    rintro kept (_ | ⟨_, isKept⟩)
    · exact .inl idle
    · exact meets.idle kept isKept

/-- The rules that were kept while more was known do not fire either. -/
theorem Sweep.Meets.gain {result : Sweep} {index : HornIndex} {goal fact : String}
    {known gain : List String} {passed : List HornRule}
    (meets : result.Meets index goal fact (known ++ gain) passed) :
    Sweep.Meets { result with derived := gain ++ result.derived } index goal fact known passed where
  reached := meets.reached
  progress := by
    intro unreached
    simpa using meets.progress unreached
  idle := by
    intro kept isKept
    rcases meets.idle kept isKept with idle | reached
    · left
      rw [Bool.eq_false_iff]
      intro fires
      rw [HornRule.fires_of_subset fires (List.subset_append_left _ _)] at idle
      contradiction
    · exact .inr reached

theorem meets_sweep {index : HornIndex} {goal : String} {known : List String}
    {rules : List HornRule} (fact : String) (passed : List HornRule)
    (progress : index.Progress goal known (passed ++ rules)) :
    (sweep goal fact known rules).Meets index goal fact known passed := by
  induction rules generalizing known passed with
  | nil => exact ⟨by simp [sweep], by simpa [sweep] using progress, by simp [sweep]⟩
  | cons rule rest ih =>
      rw [sweep]
      cases fires : rule.fires fact known with
      | false => exact (ih (passed ++ [rule]) (by simpa using progress)).keep fires
      | true =>
          simp only [if_true]
          split
          · next isGoal =>
              constructor
              · exact fun _ => isGoal ▸ progress.derivable_of_fires fires
              · intro unreached
                contradiction
              · exact fun _ _ => .inr rfl
          · next isOther =>
              generalize gain_eq : (if known.contains rule.conclusion then []
                else [rule.conclusion]) = gain
              have gained (name : String) :
                  name ∈ known ++ gain ↔ name ∈ known ∨ name = rule.conclusion := by
                subst gain_eq
                split
                · next isKnown =>
                    have isKnown : rule.conclusion ∈ known := by simpa using isKnown
                    simp only [List.append_nil]
                    exact ⟨.inl, fun old => old.elim id fun same => same ▸ isKnown⟩
                · simp
              exact (ih passed (progress.fire fires isOther gained)).gain

/-- Every alternative of the rules requires a symbol that was not scanned. -/
def Waiting (scanned : List String) (rules : List HornRule) : Prop :=
  ∀ rule ∈ rules, ∀ requirements ∈ rule.alternatives,
    ∃ requirement ∈ requirements, requirement ∉ scanned

/-- The rules that a sweep keeps wait for a symbol other than the one that was swept. -/
theorem Waiting.snoc {scanned known : List String} {fact : String} {rules : List HornRule}
    (waiting : Waiting scanned rules) (scannedKnown : scanned ++ [fact] ⊆ known)
    (idle : ∀ rule ∈ rules, rule.fires fact known = false) :
    Waiting (scanned ++ [fact]) rules := by
  intro rule isRule requirements isAlternative
  by_cases needed : fact ∈ requirements
  · by_contra met
    have allKnown : ∀ requirement ∈ requirements, requirement ∈ known := by
      intro requirement required
      by_contra isUnknown
      exact met ⟨requirement, required, fun isScanned => isUnknown (scannedKnown isScanned)⟩
    have fires := HornRule.fires_iff.2 ⟨requirements, isAlternative, needed, allKnown⟩
    rw [idle rule isRule] at fires
    contradiction
  · rcases waiting rule isRule requirements isAlternative with ⟨requirement, required, isNew⟩
    have isNew' : requirement ∉ scanned ++ [fact] := by
      rw [List.mem_append, List.mem_singleton]
      rintro (isScanned | rfl)
      · exact isNew isScanned
      · exact needed required
    exact ⟨requirement, required, isNew'⟩

theorem Waiting.of_subset {scanned : List String} {rules fewer : List HornRule}
    (waiting : Waiting scanned rules) (subset : fewer ⊆ rules) : Waiting scanned fewer :=
  fun rule isRule => waiting rule (subset isRule)

theorem kept_sweep_subset (goal fact : String) (known : List String) (rules : List HornRule) :
    (sweep goal fact known rules).kept ⊆ rules := by
  induction rules generalizing known with
  | nil => simp [sweep]
  | cons rule rest ih =>
      rw [sweep]
      split
      · simp only
        split
        · exact List.subset_cons_self _ _
        · exact List.subset_cons_of_subset _ (ih _)
      · exact List.cons_subset_cons _ (ih _)

/-- The scan of the pending facts reaches the goal if and only if it is derivable. -/
theorem success_forwardFrom_iff {index : HornIndex} {goal : String}
    {scanned pending : List String} {rules : List HornRule}
    (progress : index.Progress goal (scanned ++ pending) rules)
    (waiting : Waiting scanned rules) :
    (forwardFrom goal scanned pending rules).success = true ↔ index.Derivable goal := by
  fun_induction forwardFrom goal scanned pending rules with
  | case1 scanned rules =>
      simp only [List.append_nil] at progress
      apply iff_of_false Bool.false_ne_true
      intro derivable
      apply progress.unreached
      apply derivable.mem_of_closed progress.facts
      rintro _ requirements ⟨rule, isRule, rfl, isAlternative⟩ met
      rcases progress.used rule isRule with isLeft | isKnown
      · rcases waiting rule isLeft requirements isAlternative with ⟨requirement, required, isNew⟩
        exact absurd (met requirement required) isNew
      · exact isKnown
  | case2 scanned fact pending rules result reached =>
      have meets := meets_sweep fact [] progress
      exact iff_of_true rfl (meets.reached reached)
  | case3 scanned fact pending rules result unreached _ ih =>
      have meets := meets_sweep fact [] progress
      have unreached : result.reached = false := by simpa using unreached
      apply ih
      · simpa [result] using meets.progress unreached
      · have keptWaiting : Waiting scanned result.kept :=
          waiting.of_subset (kept_sweep_subset goal fact _ rules)
        have scannedKnown : scanned ++ [fact] ⊆ scanned ++ fact :: pending := by simp
        apply keptWaiting.snoc scannedKnown
        intro rule isKept
        exact (meets.idle rule isKept).resolve_right (by simpa [result] using unreached)

/-- Forward chaining succeeds if and only if the goal is derivable. -/
theorem HornIndex.success_chainForward_iff {index : HornIndex} (wellFormed : index.WellFormed)
    (goal : String) :
    (index.chainForward goal).success = true ↔ index.Derivable goal := by
  unfold chainForward
  by_cases isFact : goal ∈ index.facts
  · simp [isFact, Derivable.fact isFact]
  · simp only [isFact_iff, isFact, if_false]
    apply success_forwardFrom_iff
    · exact ⟨by simp, fun name isFact => .fact (by simpa using isFact), by simpa using isFact,
        fun _ isRule => isRule, fun _ isRule => .inl isRule⟩
    · intro rule isRule requirements isAlternative
      cases requirements with
      | nil => exact absurd isAlternative (wellFormed.nonempty rule isRule)
      | cons requirement _ => exact ⟨requirement, List.mem_cons_self, List.not_mem_nil⟩

end Entail
