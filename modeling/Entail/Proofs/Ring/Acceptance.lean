import Entail.Proofs.Formula.Acceptance
import Entail.Proofs.Ring.Parser

/-!
# Accepted texts

A text is parsed, to a formula or into a store, exactly if it is the text of an
expression, as long as no digit of it can be taken for one of the number of a
back-reference.  Behind a closing parenthesis a digit can.
-/

namespace Entail

namespace Ring.Builder

/-- The outcomes of builders, whatever the store is. -/
def outcomes : Outcomes Builder where
  Gives x a := ∃ s s', x s = .ok a s'
  ofBind := by
    rintro α β x f b ⟨s, s', ran⟩
    change EStateM.bind x f s = .ok b s' at ran
    rw [EStateM.bind] at ran
    split at ran
    · next a middle first => exact ⟨a, ⟨s, middle, first⟩, middle, s', ran⟩
    · contradiction
  ofThrow := by
    rintro α error a ⟨s, s', ran⟩
    cases ran

theorem exists_row_of_assemble {references : List Nat} {text : List Char} {head : Nat}
    (given : outcomes.Gives (assemble references text) head) :
    ∃ slots, Row.ofText references text = .ok slots := by
  rcases outcomes.ofBind given with ⟨slots, ⟨s, s', ran⟩, _⟩
  rw [read] at ran
  split at ran
  · next read => exact ⟨_, read⟩
  · contradiction

/-- An unambiguous text that is parsed into a store is that of an expression. -/
theorem exists_expression_of_parse {text : String} (unambiguous : IsUnambiguous text.toList)
    {s s' : Store} {head : Nat} (parsed : parse text s = .ok head s') :
    ∃ e : Expression, e.text = text := by
  rcases Formula.exists_expression_of_readText outcomes exists_row_of_assemble unambiguous
    ⟨s, s', parsed⟩ with ⟨e, chars⟩
  exact ⟨e, by rw [Expression.text, chars, String.ofList_toList]⟩

end Ring.Builder

/-- Of the unambiguous texts, those of expressions are parsed, each to the formula that the grammar
gives the expression, and all others are rejected with an error about the text. -/
theorem Formula.parse_accepts_expressions {text : String}
    (unambiguous : IsUnambiguous text.toList) (s : Ring.Store) :
    (∀ f, parse text = .ok f ↔ ∃ e : Expression, e.text = text ∧ e.Reads f) ∧
      (∀ error, parse text = .error error → error.isParseError = true) ∧
      ((∃ head s', Ring.Builder.parse text s = .ok head s') ↔
        ∃ e : Expression, e.text = text) := by
  refine ⟨fun f => ⟨fun parsed => ?_, ?_⟩, fun error => isParseError_of_parse unambiguous, ?_, ?_⟩
  · rcases exists_expression_of_parse unambiguous parsed with ⟨e, rfl⟩
    rcases e.parse_text with ⟨g, parsed', reads⟩
    cases parsed.symm.trans parsed'
    exact ⟨e, rfl, reads⟩
  · rintro ⟨e, rfl, reads⟩
    rcases e.parse_text with ⟨g, parsed, reads'⟩
    rw [parsed, reads.unique reads']
  · rintro ⟨head, s', parsed⟩
    exact Ring.Builder.exists_expression_of_parse unambiguous parsed
  · rintro ⟨e, rfl⟩
    rcases e.exists_parse s with ⟨s', ring, parsed, _⟩
    exact ⟨ring.head, s', parsed⟩

/-- The text of a negated group is accepted, and read as the grammar reads it. -/
theorem Formula.parse_accepts_expressions_of_negation :
    IsUnambiguous "~(a||b)".toList ∧ ∃ e : Expression, e.text = "~(a||b)" ∧
      e.Reads (.single (.group true (.pair (.symbol false "a") .disj (.symbol false "b")))) := by
  have noBlank : "~(a||b)".toList.all (fun c => !Text.isBlank c) = true := by decide
  have unambiguous : IsUnambiguous "~(a||b)".toList :=
    ⟨fun c isChar => by simpa using List.all_eq_true.1 noBlank c isChar, by decide, by decide⟩
  refine ⟨unambiguous, ?_⟩
  rw [← (parse_accepts_expressions unambiguous Ring.Store.empty).1]
  decide +kernel

/-- Behind a closing parenthesis, a digit is taken for one of the number of a back-reference, and
the text, which is that of no expression, is parsed all the same. -/
theorem Formula.parse_prolonged_reference :
    parse "(a)0" = .ok (.single (.group false (.single (.symbol false "a")))) ∧
      ∀ e : Expression, e.text ≠ "(a)0" := by
  constructor
  · decide +kernel
  · intro e same
    have chars : e.chars = "(a)0".toList := by rw [← same, Expression.text, String.toList_ofList]
    have apart := e.isUnambiguous_chars.apart
    rw [chars] at apart
    exact absurd apart (by decide)

end Entail
