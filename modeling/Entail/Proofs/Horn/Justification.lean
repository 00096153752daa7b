import Mathlib.Data.List.Induction
import Entail.Proofs.Horn.Forward

/-!
# What the path of a forward chain justifies

A list of symbols is justified if each of them is a fact, or has an alternative
all of whose requirements stand before it.  The known symbols are such a list
at any time, since a symbol becomes known only after what it requires.  A path
holds the scanned ones among them and then the goal, so that it is justified up
to the goal, whose requirements may be known without having been scanned.
-/

namespace Entail

namespace HornIndex

/-- A fact, or a symbol with an alternative all of whose requirements are known. -/
def Supported (index : HornIndex) (known : List String) (name : String) : Prop :=
  name ∈ index.facts ∨ ∃ requirements, index.HasAlternative name requirements ∧
    ∀ requirement ∈ requirements, requirement ∈ known

/-- Each symbol of a list is supported by those before it. -/
def Justifies (index : HornIndex) (path : List String) : Prop :=
  ∀ before name after, path = before ++ name :: after → index.Supported before name

namespace Justifies

variable {index : HornIndex} {path rest : List String} {name : String}

theorem of_facts (facts : ∀ name ∈ path, name ∈ index.facts) : index.Justifies path := by
  rintro before name after rfl
  exact .inl (facts name (by simp))

theorem of_append (justified : index.Justifies (path ++ rest)) : index.Justifies path := by
  rintro before name after rfl
  exact justified before name (after ++ rest) (by simp)

/-- A symbol that is supported by a list can be added to it. -/
theorem concat (justified : index.Justifies path) (supported : index.Supported path name) :
    index.Justifies (path ++ [name]) := by
  intro before other after split
  obtain rfl | ⟨after, last, rfl⟩ := after.eq_nil_or_concat
  · obtain ⟨rfl, same⟩ := List.append_inj' split rfl
    cases same
    exact supported
  · have inside : path = before ++ other :: after := by
      rw [List.concat_eq_append, ← List.cons_append, ← List.append_assoc] at split
      exact (List.append_inj' split rfl).1
    exact justified before other after inside

/-- Every symbol of a justified list is derivable. -/
theorem derivable (justified : index.Justifies path) : ∀ name ∈ path, index.Derivable name := by
  induction path using List.reverseRecOn with
  | nil => exact List.forall_mem_nil _
  | append_singleton path last ih =>
      have known := ih justified.of_append
      have derivable : index.Derivable last := by
        obtain isFact | ⟨requirements, isAlternative, met⟩ := justified path last [] rfl
        · exact .fact isFact
        · exact .rule isAlternative fun requirement required =>
            known requirement (met requirement required)
      exact List.forall_mem_append.2 ⟨known, List.forall_mem_singleton.2 derivable⟩

end Justifies

/-- A list without repetitions that is justified. -/
structure IsDerivation (index : HornIndex) (known : List String) : Prop where
  distinct : known.Nodup
  justified : index.Justifies known

end HornIndex

open HornIndex

variable {index : HornIndex} {goal fact : String} {known : List String} {rule : HornRule}

/-- The conclusion of a rule that fires is supported by what is known. -/
theorem HornRule.supported_of_fires (isRule : rule ∈ index.rules)
    (fires : rule.fires fact known = true) : index.Supported known rule.conclusion := by
  obtain ⟨requirements, isAlternative, _, met⟩ := fires_iff.1 fires
  exact .inr ⟨requirements, ⟨rule, isRule, rfl, isAlternative⟩, met⟩

/-- What a rule that fires adds to the known symbols continues their derivation. -/
theorem HornIndex.IsDerivation.gain (derivation : index.IsDerivation known)
    (supported : index.Supported known goal) :
    index.IsDerivation (known ++ if known.contains goal then [] else [goal]) := by
  split
  · rwa [List.append_nil]
  · next isNew =>
      constructor
      · rw [List.contains_iff_mem] at isNew
        exact List.concat_eq_append ▸ derivation.distinct.concat isNew
      · exact derivation.justified.concat supported

/-- What the sweep of a fact adds to the known symbols: it continues their derivation, and ends with
the goal if that is reached, which then has an alternative with the fact. -/
structure Sweep.Continues (result : Sweep) (index : HornIndex) (goal fact : String)
    (known : List String) : Prop where
  derivation : index.IsDerivation (known ++ result.derived)
  reached : result.reached = true → ∃ gained requirements, result.derived = gained ++ [goal] ∧
    index.HasAlternative goal requirements ∧ fact ∈ requirements ∧
    ∀ requirement ∈ requirements, requirement ∈ known ++ gained

theorem continues_sweep {rules : List HornRule} (fact : String)
    (derivation : index.IsDerivation known) (unreached : goal ∉ known)
    (isRule : ∀ rule ∈ rules, rule ∈ index.rules) :
    (sweep goal fact known rules).Continues index goal fact known := by
  induction rules generalizing known with
  | nil =>
      constructor
      · simpa [sweep] using derivation
      · exact fun reached => absurd reached Bool.false_ne_true
  | cons rule rest ih =>
      obtain ⟨firstIsRule, restIsRule⟩ := List.forall_mem_cons.1 isRule
      rw [sweep]
      split
      · next fires =>
          have supported := HornRule.supported_of_fires firstIsRule fires
          have gained := derivation.gain supported
          dsimp only
          split
          · next isGoal =>
              constructor
              · exact gained
              · intro _
                obtain ⟨requirements, isAlternative, needed, met⟩ := HornRule.fires_iff.1 fires
                exact ⟨[], requirements, by simp [isGoal, unreached],
                  ⟨rule, firstIsRule, isGoal, isAlternative⟩, needed, by simpa using met⟩
          · next isOther =>
              have unreached' : goal ∉ known ++
                  if known.contains rule.conclusion then [] else [rule.conclusion] := by
                rw [List.mem_append, not_or]
                constructor
                · exact unreached
                · split
                  · exact List.not_mem_nil
                  · rw [List.mem_singleton]
                    exact fun same => isOther same.symm
              have tail := ih gained unreached' restIsRule
              constructor
              · simpa only [List.append_assoc] using tail.derivation
              · intro reached
                obtain ⟨more, requirements, isLast, isAlternative, needed, met⟩ :=
                  tail.reached reached
                exact ⟨_ ++ more, requirements, by rw [isLast, List.append_assoc], isAlternative,
                  needed, by simpa only [List.append_assoc] using met⟩
      · have tail := ih derivation unreached restIsRule
        exact ⟨tail.derivation, tail.reached⟩

/-- What a path to the goal shows: the known symbols, the scanned ones first, are a derivation that
ends with the goal, and unless the goal is a fact, it has an alternative with the symbol that was
scanned last. -/
structure HornIndex.Explains (index : HornIndex) (goal : String)
    (scanned unscanned : List String) : Prop where
  derivation : index.IsDerivation (scanned ++ unscanned ++ [goal])
  last : goal ∈ index.facts ∧ scanned = [] ∧ unscanned = [] ∨
    ∃ before fact requirements, scanned = before ++ [fact] ∧
      index.HasAlternative goal requirements ∧ fact ∈ requirements ∧
      ∀ requirement ∈ requirements, requirement ∈ scanned ++ unscanned

/-- The path to a goal that is reached holds the scanned symbols and the goal. -/
theorem explains_forwardFrom {scanned pending : List String} {rules : List HornRule}
    (progress : index.Progress goal (scanned ++ pending) rules)
    (derivation : index.IsDerivation (scanned ++ pending))
    (success : (forwardFrom goal scanned pending rules).success = true) :
    ∃ before after, (forwardFrom goal scanned pending rules).path = before ++ [goal] ∧
      index.Explains goal before after := by
  fun_induction forwardFrom goal scanned pending rules with
  | case1 => contradiction
  | case2 scanned fact pending rules result reached =>
      have continues := continues_sweep fact derivation progress.unreached progress.rules
      obtain ⟨gained, requirements, isLast, isAlternative, needed, met⟩ :=
        continues.reached reached
      have whole := continues.derivation
      rw [isLast] at whole
      refine ⟨scanned ++ [fact], pending ++ gained, by simp, ?_, .inr ?_⟩
      · simpa using whole
      · exact ⟨scanned, fact, requirements, rfl, isAlternative, needed, by simpa using met⟩
  | case3 scanned fact pending rules result unreached _ ih =>
      have unreached : result.reached = false := by simpa using unreached
      have continues := continues_sweep fact derivation progress.unreached progress.rules
      have meets := meets_sweep fact [] progress
      apply ih
      · simpa [result] using meets.progress unreached
      · simpa [result] using continues.derivation
      · exact success

/-- The path of a forward chain that succeeds. -/
theorem HornIndex.explains_chainForward {index : HornIndex} (distinct : index.facts.Nodup)
    (success : (index.chainForward goal).success = true) :
    ∃ scanned unscanned, (index.chainForward goal).path = scanned ++ [goal] ∧
      index.Explains goal scanned unscanned := by
  unfold chainForward at success ⊢
  split
  · next isFact =>
      have isFact := isFact_iff.1 isFact
      refine ⟨[], [], rfl, ⟨List.nodup_singleton goal, ?_⟩, .inl ⟨isFact, rfl, rfl⟩⟩
      exact .of_facts (List.forall_mem_singleton.2 isFact)
  · next isNew =>
      rw [if_neg isNew] at success
      have unreached : goal ∉ index.facts := fun isFact => isNew (isFact_iff.2 isFact)
      apply explains_forwardFrom _ _ success
      · exact ⟨fun _ => id, fun _ => .fact, unreached, fun _ => id, fun _ => .inl⟩
      · exact ⟨distinct, .of_facts fun _ => id⟩

/-- If the goal never requires more than one symbol, its path is justified. -/
theorem HornIndex.Explains.justifies {scanned unscanned : List String}
    (explains : index.Explains goal scanned unscanned)
    (simple : ∀ requirements, index.HasAlternative goal requirements → requirements.length ≤ 1) :
    index.Justifies (scanned ++ [goal]) := by
  have justified := explains.derivation.justified.of_append.of_append
  obtain ⟨isFact, _⟩ | ⟨before, fact, requirements, rfl, isAlternative, needed, _⟩ := explains.last
  · exact justified.concat (.inl isFact)
  · refine justified.concat (.inr ⟨requirements, isAlternative, fun requirement required => ?_⟩)
    obtain ⟨only, rfl⟩ := List.length_eq_one_iff.1
      (Nat.le_antisymm (simple _ isAlternative) (List.length_pos_of_mem needed))
    rw [List.mem_singleton] at needed required
    simp [needed, required]

end Entail
