import Entail.Proofs.Horn.Forward
import Entail.Proofs.Horn.Meaning
import Entail.Proofs.KnowledgeBase
import Entail.Proofs.Ring.Index

/-!
# What an index made in a store is good for

Whatever the store, an index that was made in it is well-formed, so that
forward chaining derives all that follows from it.  If the store shows formulas
that come from texts, then the index has the same meaning as the formulas.
-/

namespace Entail.Ring

namespace Builder

variable {α β : Type} {motive : β → Prop} {s s' : Store}

/-- What every step keeps holds of the answer of a fold. -/
theorem foldlM_induction {step : β → α → Builder β}
    (keeps : ∀ b a s b' s', step b a s = .ok b' s' → motive b → motive b') {as : List α} {b b' : β}
    (ran : as.foldlM step b s = .ok b' s') (holds : motive b) : motive b' := by
  induction as generalizing b s with
  | nil =>
      cases ran
      exact holds
  | cons a as ih =>
      rw [List.foldlM_cons] at ran
      rcases exists_of_bind ran with ⟨b₁, s₁, first, rest⟩
      exact ih rest (keeps b a s b₁ s₁ first holds)

end Builder

open Builder

namespace Base

variable {kb : Base} {base : KnowledgeBase} {s s' : Store} {index : HornIndex}

/-- What holds of the empty index and is kept when a clause is added holds of every index that is
made in a store. -/
theorem index_induction {motive : HornIndex → Prop} (empty : motive .empty)
    (insert : ∀ index clause, motive index → motive (index.insert clause))
    (made : kb.index s = .ok index s') : motive index := by
  have addHorn (index : HornIndex) (head : Nat) (s : Store) (more : HornIndex) (s' : Store)
      (ran : addHorn index head s = .ok more s') (holds : motive index) : motive more := by
    rcases exists_of_bind ran with ⟨normal, s₁, _, ran⟩
    rcases exists_of_bind ran with ⟨clause, s₂, _, ran⟩
    cases ran
    exact insert index clause holds
  have addClauseTo (index : HornIndex) (head : Nat) (s : Store) (more : HornIndex) (s' : Store)
      (ran : addClauseTo index head s = .ok more s') (holds : motive index) : motive more := by
    rcases exists_of_bind ran with ⟨copied, s₁, _, ran⟩
    rcases exists_of_bind ran with ⟨now, s₂, _, ran⟩
    rcases exists_of_bind ran with ⟨conjuncts, s₃, _, ran⟩
    exact foldlM_induction addHorn ran holds
  exact foldlM_induction addClauseTo made empty

theorem wellFormed_of_index (made : kb.index s = .ok index s') : index.WellFormed :=
  index_induction .empty (fun _ clause wellFormed => wellFormed.insert clause) made

theorem isTidy_of_index (made : kb.index s = .ok index s') : index.IsTidy :=
  index_induction .empty (fun _ clause tidy => tidy.insert clause) made

/-- Forward chaining on an index that was made in a store succeeds for the symbols of the least set
that holds the facts, and the conclusion of every rule one of whose alternatives it holds. -/
theorem isLeast_chainForward (made : kb.index s = .ok index s') :
    IsLeast {known | index.IsSaturated known}
      {symbol | (index.chainForward symbol).success = true} := by
  have reached : {symbol | (index.chainForward symbol).success = true} =
      {symbol | index.Derivable symbol} :=
    Set.ext (HornIndex.success_chainForward_iff (wellFormed_of_index made))
  rw [reached]
  exact index.isLeast_derivable

/-- Forward chaining derives all three symbols from the one fact. -/
theorem isLeast_chainForward_of_rules :
    ∃ kb s index s', ofText "a=>b;a&b=>c;a" .empty = .ok kb s ∧ kb.index s = .ok index s' ∧
      index = ⟨["a"], [⟨"b", [["a"]]⟩, ⟨"c", [["a", "b"]]⟩]⟩ ∧
      (index.chainForward "c").success = true ∧
      IsLeast {known | index.IsSaturated known}
        {symbol | (index.chainForward symbol).success = true} := by
  have made : ∃ kb s, ofText "a=>b;a&b=>c;a" .empty = .ok kb s ∧ ∃ index s',
      kb.index s = .ok index s' ∧ index = ⟨["a"], [⟨"b", [["a"]]⟩, ⟨"c", [["a", "b"]]⟩]⟩ ∧
      (index.chainForward "c").success = true := by
    decide +kernel
  rcases made with ⟨kb, s, told, index, s', made, rules, derived⟩
  exact ⟨kb, s, index, s', told, made, rules, derived, isLeast_chainForward made⟩

/-- The index of formulas that come from texts is true under the same assignments as they are, has
no fact twice, and requires something, and nothing twice, for every conclusion. -/
theorem Shows.index_means (shown : kb.Shows s base) (told : base.IsMade)
    (made : kb.index s = .ok index s') :
    (∀ v, base.IsTrue v ↔ index.IsTrue v) ∧ index.facts.Nodup ∧
      ∀ name requirements, index.HasAlternative name requirements →
        requirements ≠ [] ∧ requirements.Nodup := by
  have indexed : HornIndex.ofKnowledgeBase base = .ok index := by
    have comes := shown.comesTo_index
    cases alone : HornIndex.ofKnowledgeBase base with
    | error error =>
        rw [alone] at comes
        rcases comes with ⟨t, failed, _⟩
        cases made.symm.trans failed
    | ok index' =>
        rw [alone] at comes
        rcases comes with ⟨index'', t, B, ran, _, same⟩
        cases made.symm.trans ran
        rw [same]
  have uniform : ∀ f ∈ base.clauses, f.IsUniformOver fun _ => True :=
    fun f isClause => ⟨(told f isClause).isUniform_and_isWritable.1, fun _ _ => trivial⟩
  have tidy := isTidy_of_index made
  refine ⟨fun v => ((HornIndex.isTrue_ofKnowledgeBase indexed uniform).2 v).symm, tidy.facts, ?_⟩
  rintro name requirements ⟨rule, isRule, _, isAlternative⟩
  exact tidy.requirements rule isRule requirements isAlternative

/-- The index of a rule with a nested antecedent, a constraint and a fact. -/
theorem Shows.index_means_of_rules :
    ∃ kb base s index s', ofText "a&(b||c)=>d;~d;(c)" .empty = .ok kb s ∧ kb.Shows s base ∧
      base.IsMade ∧ kb.index s = .ok index s' ∧
      index = ⟨["c"], [⟨"d", [["a", "b"], ["a", "c"]]⟩, ⟨falseName, [["d"]]⟩]⟩ ∧
      (∀ v, base.IsTrue v ↔ index.IsTrue v) ∧ index.facts.Nodup ∧
      ∀ name requirements, index.HasAlternative name requirements →
        requirements ≠ [] ∧ requirements.Nodup := by
  have told : ∃ base, KnowledgeBase.ofText "a&(b||c)=>d;~d;(c)" = .ok base := by decide +kernel
  have made : ∃ kb s, ofText "a&(b||c)=>d;~d;(c)" .empty = .ok kb s ∧ ∃ index s',
      kb.index s = .ok index s' ∧
      index = ⟨["c"], [⟨"d", [["a", "b"], ["a", "c"]]⟩, ⟨falseName, [["d"]]⟩]⟩ := by
    decide +kernel
  rcases told with ⟨base, told⟩
  rcases made with ⟨kb, s, told', index, s', made, rules⟩
  have comes := comesTo_ofText "a&(b||c)=>d;~d;(c)" .empty
  rw [told] at comes
  rcases comes with ⟨_, _, B, ran, _, shown⟩
  cases told'.symm.trans ran
  have isMade := KnowledgeBase.isMade_ofText told
  exact ⟨kb, base, s, index, s', told', shown, isMade, made, rules, index_means shown isMade made⟩

end Base

end Entail.Ring
