import Entail.Proofs.NormalForm.Refusal
import Entail.Proofs.Ring.Rereading

/-!
# Horn forms of parsed rings

A ring that was parsed and reaches no node twice is brought into a Horn form of
the same meaning, or the error says that it has none, which its negation normal
form tells.  Two groups that own one ring send the flattening round in circles.
-/

namespace Entail

theorem Formula.IsClauseOver.isLiteral_or_isDefinite {isVariable : String → Prop} {f : Formula}
    (isClause : f.IsClauseOver isVariable) : f.isLiteral = true ∨ f.isDefinite = true := by
  cases isClause with
  | literal negated named => exact .inl rfl
  | implication positive named concluded => exact .inr positive

namespace Ring.Builder

open Store

/-- What was parsed, if it reaches no node twice, is brought into a literal or a definite implication
with the same values, unless it is beyond Horn form, and then the error says so.  The text of an
expression of the grammar is parsed into a ring that reaches no node twice. -/
theorem horn_of_parse (s : Store) :
    (∀ text head s', parse text s = .ok head s' → s'.IsUnshared head →
      ∃ f, s'.formula head = .ok f ∧
        ((∃ head₁ s₁ g, horn head s' = .ok head₁ s₁ ∧ s₁.formula head₁ = .ok g ∧
            (∀ v, g.eval v = f.eval v) ∧ (g.isLiteral = true ∨ g.isDefinite = true) ∧
            ¬f.IsBeyondHorn) ∨
          ∃ error s₁, horn head s' = .error error s₁ ∧ error.IsHornRefusal ∧ f.IsBeyondHorn)) ∧
    ∀ e : Expression, ∃ head s', parse e.text s = .ok head s' ∧ s'.IsUnshared head := by
  refine ⟨fun text head s' parsed unshared => ?_, fun e => exists_parse_isUnshared e s⟩
  rcases exists_hasLayout_of_parse parsed with ⟨f, parsedAlone, layout⟩
  rcases layout.exists_hasRing unshared with ⟨A, ring⟩
  have uniform := Formula.isUniform_of_parse parsedAlone
  have named : ∀ name ∈ f.names, True := fun _ _ => trivial
  have comes := comesTo_horn ring
  refine ⟨f, layout.formula, ?_⟩
  rcases uniform.horn_outcome with ⟨g, made, within⟩ | ⟨error, failed, refusal, beyond⟩
  · left
    rw [made] at comes
    rcases comes with ⟨head₁, s₁, B, ran, _, ring'⟩
    rcases Formula.horn_means uniform made named with ⟨isClause, means⟩
    exact ⟨head₁, s₁, g, ran, ring'.formula, means, isClause.isLiteral_or_isDefinite, within⟩
  · right
    rw [failed] at comes
    rcases comes with ⟨s₁, ran, _⟩
    exact ⟨error, s₁, ran, refusal, beyond⟩

/-- A disjunction with one positive literal and a disjunction with two. -/
theorem horn_of_parse_of_disjunctions :
    (∃ head s f head₁ s₁ g, parse "a||~b" Store.empty = .ok head s ∧ s.formula head = .ok f ∧
      horn head s = .ok head₁ s₁ ∧ s₁.formula head₁ = .ok g ∧ s₁.text head₁ = .ok "b=>a" ∧
      ∀ v, g.eval v = f.eval v) ∧
    ∃ head s f error s₁, parse "a||b" Store.empty = .ok head s ∧ s.formula head = .ok f ∧
      horn head s = .error error s₁ ∧ error.IsHornRefusal ∧ f.IsBeyondHorn := by
  have parsed : ∃ head s, parse "a||~b" Store.empty = .ok head s ∧ s.IsUnshared head ∧
      ∃ head₁ s₁, horn head s = .ok head₁ s₁ ∧ s₁.text head₁ = .ok "b=>a" := by
    decide +kernel
  have parsed' : ∃ head s, parse "a||b" Store.empty = .ok head s ∧ s.IsUnshared head ∧
      ∃ error s₁, horn head s = .error error s₁ ∧
        error = .severalPositives "a||b" ["a", "b"] := by
    decide +kernel
  constructor
  · rcases parsed with ⟨head, s, parsed, unshared, head₁, s₁, ran, text⟩
    rcases (horn_of_parse Store.empty).1 _ _ _ parsed unshared with
      ⟨f, read, ⟨_, _, g, ran', read', means, _⟩ | ⟨_, _, failed, _⟩⟩
    · cases ran.symm.trans ran'
      exact ⟨head, s, f, head₁, s₁, g, parsed, read, ran, read', text, means⟩
    · cases ran.symm.trans failed
  · rcases parsed' with ⟨head, s, parsed, unshared, error, s₁, failed, _⟩
    rcases (horn_of_parse Store.empty).1 _ _ _ parsed unshared with
      ⟨f, read, ⟨_, _, _, ran, _⟩ | ⟨_, _, failed', refusal, beyond⟩⟩
    · cases failed.symm.trans ran
    · cases failed.symm.trans failed'
      exact ⟨head, s, f, error, s₁, parsed, read, failed, refusal, beyond⟩

/-- Two groups of a parsed text may own one ring; flattening it does not come to an end, although
the formula has a Horn form. -/
theorem horn_of_shared_ring :
    ∃ head s f s₁ g, parse "(a)1||~(b)" Store.empty = .ok head s ∧ s.formula head = .ok f ∧
      horn head s = .error .endlessGroup s₁ ∧ ¬Error.endlessGroup.IsHornRefusal ∧
      f.horn = .ok g ∧ g.text = "b=>b" := by
  have made : ∃ head s, parse "(a)1||~(b)" Store.empty = .ok head s ∧
      ∃ f, s.formula head = .ok f ∧
      (∃ error s₁, horn head s = .error error s₁ ∧ error = .endlessGroup) ∧
      ∃ g, f.horn = .ok g ∧ g.text = "b=>b" := by
    decide +kernel
  rcases made with ⟨head, s, parsed, f, read, ⟨_, s₁, failed, rfl⟩, g, hasForm, text⟩
  exact ⟨head, s, f, s₁, g, parsed, read, failed, id, hasForm, text⟩

end Ring.Builder

end Entail
