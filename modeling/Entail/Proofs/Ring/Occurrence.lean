import Entail.Proofs.NormalForm.Occurrence
import Entail.Proofs.Ring.Rereading
import Entail.Proofs.Ring.Rewriting

/-!
# Flattening keeps every literal

While a ring is flattened, groups are spliced into the row that is being walked,
and De Morgan's law is applied on the way down.  What is left is the ring of all
symbols in their order, each with the sign of the negations above it.
-/

namespace Entail.Ring.Builder

open Store

/-- A ring without arrows at any depth, of which no node is reached twice, is flattened into the
ring of its symbols from left to right, each negated if the number of negations above it is odd.
Between them are its connectives in their order, each replaced by its dual if the number of negated
groups around it is odd.  If these are of one kind, the value is left as it is. -/
theorem flatten_keeps_literals {s : Store} {head : Nat} {f : Formula} {A : Set Nat}
    (ring : s.HasRing head f A) (duals : f.HasDuals) :
    ∃ head' s' B row, flatten head s = .ok head' s' ∧ s'.HasRing head' row B ∧
      row.operands = (f.occurrences 0).map literalUnder ∧
      row.links = (f.linkOccurrences 0).map linkUnder ∧
      ∀ c, row.IsRowOf c → ∀ v, s'.value v head' = s.value v head := by
  have comes := comesTo_flatten ring
  rcases Formula.exists_flatten duals with ⟨row, flat, operands, links, means⟩
  rw [flat] at comes
  rcases comes with ⟨head', s', B, ran, _, ring'⟩
  refine ⟨head', s', B, row, ran, ring', operands, links, fun c isRow v => ?_⟩
  rw [ring'.shows.value v, ring.shows.value v, means c isRow v]

/-- Groups that are negated above each other leave a row of disjunctions. -/
theorem flatten_keeps_literals_of_nested : ∃ head s head' s',
    parse "~(a&~(b||~(c&~d)))||e" Store.empty = .ok head s ∧ flatten head s = .ok head' s' ∧
      s'.text head' = .ok "~a||b||~c||d||e" ∧ ∀ v, s'.value v head' = s.value v head := by
  let f : Formula := .pair (.group true (.pair (.symbol false "a") .conj (.group true
    (.pair (.symbol false "b") .disj (.group true
      (.pair (.symbol false "c") .conj (.symbol true "d"))))))) .disj (.symbol false "e")
  have known : Formula.parse "~(a&~(b||~(c&~d)))||e" = .ok f := by decide +kernel
  have duals : f.HasDuals := by
    simp [f, Formula.pair, Formula.HasDuals, Operand.HasDuals, Connective.isJunction]
  have made : ∃ head s,
      parse "~(a&~(b||~(c&~d)))||e" Store.empty = .ok head s ∧ s.IsUnshared head ∧
        ∃ head' s', flatten head s = .ok head' s' ∧ s'.text head' = .ok "~a||b||~c||d||e" := by
    decide +kernel
  rcases made with ⟨head, s, parsed, unshared, head', s', ran, text⟩
  rcases exists_hasLayout_of_parse parsed with ⟨_, read, layout⟩
  cases known.symm.trans read
  rcases layout.exists_hasRing unshared with ⟨A, ring⟩
  rcases flatten_keeps_literals ring duals with ⟨_, _, B, row, ran', _, _, links, means⟩
  cases ran.symm.trans ran'
  have disjunctive : row.IsRowOf .disj := by
    rw [Formula.IsRowOf, links]
    decide
  exact ⟨head, s, head', s', parsed, ran, text, means .disj disjunctive⟩

end Entail.Ring.Builder
