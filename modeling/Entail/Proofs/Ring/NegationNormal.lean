import Entail.Proofs.Ring.Acceptance
import Entail.Proofs.Ring.Rereading
import Entail.Proofs.Ring.Rewriting

/-!
# Negation normal forms of parsed rings

In a ring that was parsed and reaches no node twice, arrows are eliminated and
negations pushed inward without an error and without a change of its value.
Both work in place, so that of two groups that own one ring the second finds
what the first has left of it.
-/

namespace Entail.Ring.Builder

open Store

/-- An unambiguous text is parsed into a ring that reaches no node twice. -/
theorem isUnshared_of_parse {text : String} (unambiguous : IsUnambiguous text.toList)
    {s s' : Store} {head : Nat} (parsed : parse text s = .ok head s') : s'.IsUnshared head := by
  rcases exists_expression_of_parse unambiguous parsed with ⟨e, rfl⟩
  rcases exists_parse_isUnshared e s with ⟨_, _, parsed', unshared⟩
  cases parsed.symm.trans parsed'
  exact unshared

/-- What was parsed, if it reaches no node twice, is brought into a ring without arrows at any depth
and then into one without negated groups at any depth, neither with an error, and both with the same
values.  An unambiguous text is parsed into a ring that reaches no node twice. -/
theorem negationNormal_of_parse (s : Store) :
    (∀ text head s', parse text s = .ok head s' → s'.IsUnshared head →
      ∃ head₁ s₁ g head₂ s₂ normal,
        eliminate head s' = .ok head₁ s₁ ∧ s₁.formula head₁ = .ok g ∧ g.HasDuals ∧
          (∀ v, s₁.value v head₁ = s'.value v head) ∧
          negationNormal head₁ s₁ = .ok head₂ s₂ ∧ s₂.formula head₂ = .ok normal ∧
          normal.IsNegationNormal ∧ ∀ v, s₂.value v head₂ = s'.value v head) ∧
    ∀ text head s', IsUnambiguous text.toList → parse text s = .ok head s' →
      s'.IsUnshared head := by
  constructor
  · intro text head s' parsed unshared
    rcases exists_hasLayout_of_parse parsed with ⟨f, parsedAlone, layout⟩
    rcases layout.exists_hasRing unshared with ⟨A, ring⟩
    have uniform := Formula.isUniform_of_parse parsedAlone
    rcases yields_eliminate ring with ⟨head₁, s₁, B, eliminated, _, ring₁⟩
    rcases Formula.exists_negationNormal uniform.isArrowFree_eliminate with
      ⟨normal, pushed, _, isNormal, _, means⟩
    rcases yields_negationNormal ring₁ pushed with ⟨head₂, s₂, C, ran, _, ring₂⟩
    refine ⟨head₁, s₁, _, head₂, s₂, normal, eliminated, ring₁.formula, f.hasDuals_eliminate,
      fun v => ?_, ran, ring₂.formula, isNormal, fun v => ?_⟩
    · rw [ring₁.shows.value v, ring.shows.value v, uniform.eval_eliminate v]
    · rw [ring₂.shows.value v, ring.shows.value v, means v, uniform.eval_eliminate v]
  · exact fun text head s' unambiguous parsed => isUnshared_of_parse unambiguous parsed

/-- A negated equivalence. -/
theorem negationNormal_of_parse_of_equivalence :
    ∃ head s head₁ s₁ head₂ s₂, parse "~(a<=>b)" Store.empty = .ok head s ∧
      eliminate head s = .ok head₁ s₁ ∧ s₁.text head₁ = .ok "~(((~a&~b)||(a&b)))" ∧
      (∀ v, s₁.value v head₁ = s.value v head) ∧
      negationNormal head₁ s₁ = .ok head₂ s₂ ∧ s₂.text head₂ = .ok "(((a||b)&(~a||~b)))" ∧
      ∀ v, s₂.value v head₂ = s.value v head := by
  have made : ∃ head s, parse "~(a<=>b)" Store.empty = .ok head s ∧
      ∃ head₁ s₁, eliminate head s = .ok head₁ s₁ ∧ s₁.text head₁ = .ok "~(((~a&~b)||(a&b)))" ∧
      ∃ head₂ s₂, negationNormal head₁ s₁ = .ok head₂ s₂ ∧
        s₂.text head₂ = .ok "(((a||b)&(~a||~b)))" := by
    decide +kernel
  rcases made with ⟨head, s, parsed, head₁, s₁, eliminated, text, head₂, s₂, ran, text'⟩
  have noBlank : "~(a<=>b)".toList.all (fun c => !Text.isBlank c) = true := by decide
  have unambiguous : IsUnambiguous "~(a<=>b)".toList :=
    ⟨fun c isChar => by simpa using List.all_eq_true.1 noBlank c isChar, by decide, by decide⟩
  have parsing := negationNormal_of_parse Store.empty
  rcases parsing.1 _ _ _ parsed (parsing.2 _ _ _ unambiguous parsed) with
    ⟨_, _, _, _, _, _, eliminated', _, _, same, ran', _, _, same'⟩
  cases eliminated.symm.trans eliminated'
  cases ran.symm.trans ran'
  exact ⟨head, s, head₁, s₁, head₂, s₂, parsed, eliminated, text, same, ran, text', same'⟩

/-- Two groups of a parsed text may own one ring.  Once the equivalence in it is eliminated for the
first of them, the second owns a part of what replaced it, and the value has changed. -/
theorem negationNormal_of_shared_ring :
    ∃ head s f head₁ s₁ g, parse "(a)1&(a<=>b)" Store.empty = .ok head s ∧
      s.formula head = .ok f ∧ eliminate head s = .ok head₁ s₁ ∧ s₁.formula head₁ = .ok g ∧
      f.eval (fun _ => true) = true ∧ g.eval (fun _ => true) = false := by
  have made : ∃ head s, parse "(a)1&(a<=>b)" Store.empty = .ok head s ∧
      ∃ f, s.formula head = .ok f ∧ ∃ head₁ s₁, eliminate head s = .ok head₁ s₁ ∧
      ∃ g, s₁.formula head₁ = .ok g ∧
        f.eval (fun _ => true) = true ∧ g.eval (fun _ => true) = false := by
    decide +kernel
  rcases made with ⟨head, s, parsed, f, read, head₁, s₁, ran, g, read', values⟩
  exact ⟨head, s, f, head₁, s₁, g, parsed, read, ran, read', values⟩

end Entail.Ring.Builder
