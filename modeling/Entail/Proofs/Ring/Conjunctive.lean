import Entail.Proofs.Formula.Parsed
import Entail.Proofs.NormalForm.Stability
import Entail.Proofs.Ring.Combining
import Entail.Proofs.Ring.NegationNormal

/-!
# Conjunctive normal form of parsed formulas

A parsed formula has a conjunctive normal form.  In a store it is made in
place: a ring that reaches no node twice is brought into it with its value
kept, but two groups that own one ring spoil it, as what is done for the one is
done to the other.
-/

namespace Entail

/-- A formula that has been parsed has a conjunctive normal form, which means the same, speaks of
no other names but those of constants, and is its own normal form. -/
theorem Formula.conjunctive_of_parse {text : String} {f : Formula}
    (parsed : parse text = .ok f) :
    ∃ g, f.conjunctive = .ok g ∧ g.IsConjunctive ∧ (∀ v, g.eval v = f.eval v) ∧
      (∀ name ∈ g.names, name ∈ f.names ∨ ∃ value, constantValue? name = some value) ∧
      g.conjunctive = .ok g := by
  rcases (isUniform_of_parse parsed).exists_conjunctive (isWritable_of_parse parsed) with
    ⟨g, made, normal, same, names⟩
  exact ⟨g, made, normal, same, names, normal.conjunctive_eq⟩

namespace Ring.Builder

open Store

/-- What was parsed, if it reaches no node twice, is brought into conjunctive normal form without an
error: what results has the same value, speaks of no other names but those of constants, and is
written as before when it is brought into normal form once more.  An unambiguous text is parsed into
a ring that reaches no node twice. -/
theorem conjunctive_of_unshared_ring (s : Store) :
    (∀ text head s', parse text s = .ok head s' → s'.IsUnshared head →
      ∃ f head₁ s₁ g, s'.formula head = .ok f ∧
        conjunctive head s' = .ok head₁ s₁ ∧ s₁.formula head₁ = .ok g ∧ g.IsConjunctive ∧
        (∀ v, s₁.value v head₁ = s'.value v head) ∧
        (∀ name ∈ g.names, name ∈ f.names ∨ ∃ value, constantValue? name = some value) ∧
        ∃ head₂ s₂ written, conjunctive head₁ s₁ = .ok head₂ s₂ ∧
          s₁.text head₁ = .ok written ∧ s₂.text head₂ = .ok written) ∧
    ∀ text head s', IsUnambiguous text.toList → parse text s = .ok head s' →
      s'.IsUnshared head := by
  constructor
  · intro text head s' parsed unshared
    rcases exists_hasLayout_of_parse parsed with ⟨f, parsedAlone, layout⟩
    rcases layout.exists_hasRing unshared with ⟨A, ring⟩
    rcases Formula.conjunctive_of_parse parsedAlone with ⟨g, made, normal, means, names, again⟩
    rcases yields_conjunctive ring made with ⟨head₁, s₁, B, ran, _, ring₁⟩
    rcases yields_conjunctive ring₁ again with ⟨head₂, s₂, C, ran', _, ring₂⟩
    refine ⟨f, head₁, s₁, g, ring.formula, ran, ring₁.formula, normal, fun v => ?_, names,
      head₂, s₂, g.text, ran', text_of_formula ring₁.formula, text_of_formula ring₂.formula⟩
    rw [ring₁.shows.value v, ring.shows.value v, means v]
  · exact fun text head s' unambiguous parsed => isUnshared_of_parse unambiguous parsed

/-- A negated implication is opened, and the disjunction distributed over what it holds. -/
theorem conjunctive_of_unshared_ring_of_disjunction :
    ∃ head s head₁ s₁, parse "~(a=>b)||c" Store.empty = .ok head s ∧
      conjunctive head s = .ok head₁ s₁ ∧ s₁.text head₁ = .ok "(a||c)&(~b||c)" ∧
      (∀ v, s₁.value v head₁ = s.value v head) ∧
      ∃ head₂ s₂, conjunctive head₁ s₁ = .ok head₂ s₂ ∧
        s₂.text head₂ = .ok "(a||c)&(~b||c)" := by
  have made : ∃ head s, parse "~(a=>b)||c" Store.empty = .ok head s ∧
      ∃ head₁ s₁, conjunctive head s = .ok head₁ s₁ ∧ s₁.text head₁ = .ok "(a||c)&(~b||c)" := by
    decide +kernel
  rcases made with ⟨head, s, parsed, head₁, s₁, ran, text⟩
  have noBlank : "~(a=>b)||c".toList.all (fun c => !Text.isBlank c) = true := by decide
  have unambiguous : IsUnambiguous "~(a=>b)||c".toList :=
    ⟨fun c isChar => by simpa using List.all_eq_true.1 noBlank c isChar, by decide, by decide⟩
  have parsing := conjunctive_of_unshared_ring Store.empty
  rcases parsing.1 _ _ _ parsed (parsing.2 _ _ _ unambiguous parsed) with
    ⟨_, _, _, _, _, ran', _, _, same, _, head₂, s₂, written, again, text', text''⟩
  cases ran.symm.trans ran'
  cases text.symm.trans text'
  exact ⟨head, s, head₁, s₁, parsed, ran, text, same, head₂, s₂, again, text''⟩

/-- Two groups of a parsed text may own one ring; the conjunctive form that is made of them in
place is true where the text is false. -/
theorem conjunctive_of_shared_ring :
    ∃ head s head' s' f g, parse "(a)1&~(b)" Store.empty = .ok head s ∧ s.formula head = .ok f ∧
      conjunctive head s = .ok head' s' ∧ s'.formula head' = .ok g ∧
      f.eval (fun _ => false) = false ∧ g.eval (fun _ => false) = true := by
  have made : ∃ head s, parse "(a)1&~(b)" Store.empty = .ok head s ∧
      ∃ f, s.formula head = .ok f ∧ ∃ head' s', conjunctive head s = .ok head' s' ∧
      ∃ g, s'.formula head' = .ok g ∧
        f.eval (fun _ => false) = false ∧ g.eval (fun _ => false) = true := by
    decide +kernel
  rcases made with ⟨head, s, parsed, f, read, head', s', ran, g, read', values⟩
  exact ⟨head, s, head', s', f, g, parsed, read, ran, read', values⟩

end Ring.Builder

end Entail
