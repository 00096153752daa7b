import Entail.Proofs.Ring.Associate
import Entail.Proofs.Ring.Rereading
import Entail.Proofs.Ring.Rewriting

/-!
# What is left of a simplified ring

A ring of conjunctions, or of disjunctions, is simplified to one operand, or to
the operands that come first among the gathered ones of their keys, truth
constants left out.  Nothing can be opened or merged in what is left, so that it
is not simplified any further.  That merging keeps the value rests on keys that
tell groups apart, and so on what names may hold.
-/

namespace Entail

namespace Operand

variable {c : Connective}

/-- The operands that come first among those of their keys, in this order. -/
def firstByKey (operands : List Operand) : List Operand :=
  operands.eraseDupsBy fun x y => x.key == y.key

theorem firstByKey_cons (first : Operand) (rest : List Operand) :
    firstByKey (first :: rest) = first :: firstByKey (rest.filter (·.key != first.key)) := by
  have others : (fun x : Operand => decide ((x.key == first.key) = false)) =
      fun x => x.key != first.key := by
    funext x
    cases same : x.key == first.key <;> simp [bne, same]
  rw [firstByKey, List.eraseDupsBy_cons, others]
  rfl

/-- Operands are merged into the first ones of their keys, as long as no two of them are
complements. -/
theorem mergeByKey_eq_firstByKey {operands : List Operand}
    (undecided : ∀ x ∈ mergeByKey c operands, x.truth? ≠ some c.dominant) :
    mergeByKey c operands = firstByKey operands := by
  match operands with
  | [] => rw [mergeByKey, firstByKey, List.eraseDupsBy, List.eraseDupsBy.loop, List.reverse_nil]
  | first :: rest =>
      have shorter := List.length_filter_le (·.key != first.key) rest
      rw [mergeByKey, List.forall_mem_cons] at undecided
      have isFirst : merge c first (rest.filter (·.key == first.key)) = first := by
        have undecided := undecided.1
        rw [merge] at undecided ⊢
        split
        · rfl
        · next differs =>
            rw [if_neg differs, truth?_constant] at undecided
            exact absurd rfl undecided
      rw [mergeByKey, isFirst, mergeByKey_eq_firstByKey undecided.2, firstByKey_cons]
termination_by operands.length

end Operand

mutual

/-- What is gathered cannot be opened. -/
theorem Operand.isFlat_of_mem_gather {c : Connective} {x y : Operand} (gathered : y ∈ x.gather c) :
    y.isFlat c = false := by
  match x with
  | .symbol negated name =>
      cases List.mem_singleton.1 gathered
      rfl
  | .group negated content =>
      rw [Operand.gather] at gathered
      split at gathered
      · exact Formula.isFlat_of_mem_gather gathered
      · next closed =>
          cases List.mem_singleton.1 gathered
          cases negated with
          | true => rfl
          | false =>
              rw [Operand.isFlat, ← Bool.not_eq_true]
              exact closed

theorem Formula.isFlat_of_mem_gather {c : Connective} {f : Formula} {y : Operand}
    (gathered : y ∈ f.gather c) : y.isFlat c = false := by
  match f with
  | .single x => exact Operand.isFlat_of_mem_gather (x := x) gathered
  | .chain x d rest =>
      rcases List.mem_append.1 gathered with gathered | gathered
      · exact Operand.isFlat_of_mem_gather gathered
      · exact Formula.isFlat_of_mem_gather gathered

end

namespace Formula

variable {c : Connective}

/-- Where several operands are left, they are the first ones of their keys without the constants. -/
theorem operands_simplify {operands : List Operand}
    (several : (simplify c operands).isSingle = false) :
    (simplify c operands).operands =
      (Operand.firstByKey operands).filter (·.truth?.isNone) := by
  rw [simplify] at several ⊢
  split at several
  · contradiction
  · next undecided =>
      have none : ∀ x ∈ Operand.mergeByKey c operands, x.truth? ≠ some c.dominant := by
        intro x isMerged isDominant
        exact undecided (List.any_eq_true.2 ⟨x, isMerged, by simp [isDominant]⟩)
      rw [if_neg undecided]
      split at several
      · contradiction
      · next first rest left =>
          rw [← Operand.mergeByKey_eq_firstByKey none, left]
          exact operands_join c first rest

/-- A row of conjunctions or of disjunctions is simplified to one operand or to a reduced row of the
first gathered operands of their keys, which is not simplified any further. -/
theorem IsRowOf.associate_cases {f : Formula} (junction : c.isJunction = true)
    (row : f.IsRowOf c) :
    (f.associate.isSingle = true ∨ f.associate.IsReduced c (fun x => x.isFlat c = false) ∧
      f.associate.operands = (Operand.firstByKey (f.gather c)).filter (·.truth?.isNone)) ∧
    f.associate.associate = f.associate := by
  cases single : f.isSingle with
  | true =>
      cases f with
      | single x => exact ⟨.inl rfl, rfl⟩
      | chain => contradiction
  | false =>
      have closed : ∀ x ∈ f.gather c, x.isFlat c = false := fun _ => isFlat_of_mem_gather
      rw [associate_of_isRowOf junction single row]
      rcases simplify_cases (c := c) closed fun _ => rfl with ⟨x, _, simplified⟩ | reduced
      · rw [simplified]
        exact ⟨.inl rfl, rfl⟩
      · exact ⟨.inr ⟨reduced, operands_simplify reduced.several⟩,
          reduced.associate_eq junction fun _ => Operand.gather_of_not_isFlat⟩

end Formula

namespace Ring.Builder

open Store

/-- A ring of conjunctions, or of disjunctions, of which no node is reached twice, is simplified to
one operand, or to a ring of the same connective: its operands have different keys, none of them is
a truth constant or a plain group of this connective only, and they are the first of their keys
among the operands gathered from left to right.  The value is left as it is, unless a name holds a
mark that lets it be written like something else.  What is left is not simplified any further. -/
theorem associate_reduces {s : Store} {head : Nat} {f : Formula} {A : Set Nat} {c : Connective}
    (ring : s.HasRing head f A) (junction : c.isJunction = true) (row : f.IsRowOf c) :
    ∃ head' s' B g, associate head s = .ok head' s' ∧ s'.HasRing head' g B ∧
      (f.IsUnmarked → ∀ v, s'.value v head' = s.value v head) ∧
      (g.isSingle = true ∨ g.IsReduced c (fun x => x.isFlat c = false) ∧
        g.operands = (Operand.firstByKey (f.gather c)).filter (·.truth?.isNone)) ∧
      ∃ head'' s'', associate head' s' = .ok head'' s'' ∧ s'.text head' = .ok g.text ∧
        s''.text head'' = .ok g.text := by
  rcases row.associate_cases junction with ⟨reduced, stable⟩
  rcases yields_associate ring with ⟨head', s', B, ran, _, ring'⟩
  rcases yields_associate ring' with ⟨head'', s'', C, ran', _, ring''⟩
  rw [stable] at ring''
  refine ⟨head', s', B, f.associate, ran, ring', fun unmarked v => ?_, reduced, head'', s'', ran',
    text_of_formula ring'.formula, text_of_formula ring''.formula⟩
  rw [ring'.shows.value v, ring.shows.value v, Formula.eval_associate unmarked v]

/-- Conjunctions are opened at two depths, a symbol that comes again and a constant are left out, and
a negated group stays. -/
theorem associate_reduces_of_nested : ∃ head s head' s',
    parse "(a&b)&true&(b)&~(a||c)" Store.empty = .ok head s ∧ associate head s = .ok head' s' ∧
      s'.text head' = .ok "a&b&~(a||c)" ∧ ∀ v, s'.value v head' = s.value v head := by
  let f : Formula := .pair (.group false (.pair (.group false (.pair (.group false (.pair
    (.symbol false "a") .conj (.symbol false "b"))) .conj (.symbol false "true"))) .conj
      (.group false (.single (.symbol false "b"))))) .conj
        (.group true (.pair (.symbol false "a") .disj (.symbol false "c")))
  have known : Formula.parse "(a&b)&true&(b)&~(a||c)" = .ok f := by decide +kernel
  have row : f.IsRowOf .conj := by
    rw [Formula.IsRowOf]
    decide
  have made : ∃ head s, parse "(a&b)&true&(b)&~(a||c)" Store.empty = .ok head s ∧
      s.IsUnshared head ∧ ∃ head' s', associate head s = .ok head' s' ∧
        s'.text head' = .ok "a&b&~(a||c)" := by
    decide +kernel
  rcases made with ⟨head, s, parsed, unshared, head', s', ran, text⟩
  rcases exists_hasLayout_of_parse parsed with ⟨_, read, layout⟩
  have unmarked := (Formula.isWritable_of_parse read).isUnmarked
  cases known.symm.trans read
  rcases layout.exists_hasRing unshared with ⟨A, ring⟩
  rcases associate_reduces ring rfl row with ⟨_, _, B, g, ran', _, value, _⟩
  cases ran.symm.trans ran'
  exact ⟨head, s, head', s', parsed, ran, text, value unmarked⟩

/-- Keys are what is written.  A symbol of which the name holds a connective is written like a
conjunction, so that of two negated groups one is left although they do not mean the same; a symbol
and the content of a group, which stands in parentheses in the key of the group, are both left
although they are written the same. -/
theorem associate_of_written_alike :
    (∃ f : Formula, f = .pair (.group true (.single (.symbol false "a&b"))) .disj
        (.group true (.pair (.symbol false "a") .conj (.symbol false "b"))) ∧
      f.IsRowOf .disj ∧ (∀ name ∈ f.names, '(' ∉ name.toList ∧ ')' ∉ name.toList) ∧
      ∃ s head A, s.HasRing head f A ∧ s.text head = .ok "~(a&b)||~(a&b)" ∧
      ∃ head' s', associate head s = .ok head' s' ∧ s'.text head' = .ok "~(a&b)" ∧
        ∃ v, s'.value v head' ≠ s.value v head) ∧
    ∃ head s head' s' left right, parse "a||~(a)" Store.empty = .ok head s ∧ s.IsUnshared head ∧
      associate head s = .ok head' s' ∧ s'.operands head' = .ok [left, right] ∧
      s'.name left = .ok "a" ∧ (s'.content right >>= s'.text) = .ok "a" := by
  constructor
  · let f : Formula := .pair (.group true (.single (.symbol false "a&b"))) .disj
      (.group true (.pair (.symbol false "a") .conj (.symbol false "b")))
    have row : f.IsRowOf .disj := by
      rw [Formula.IsRowOf]
      decide
    have associated : f.associate = .single (.group true (.single (.symbol false "a&b"))) := by
      decide +kernel
    have written : f.text = "~(a&b)||~(a&b)" := by decide +kernel
    rcases f.exists_hasRing Store.empty with ⟨s, head, A, ring, _⟩
    rcases yields_associate ring with ⟨head', s', B, ran, _, ring'⟩
    rw [associated] at ring'
    have text : s.text head = .ok "~(a&b)||~(a&b)" := written ▸ text_of_formula ring.formula
    have text' : s'.text head' = .ok "~(a&b)" := text_of_formula ring'.formula
    refine ⟨f, rfl, row, by decide, s, head, A, ring, text, head', s', ran, text',
      fun name => name == "a&b", ?_⟩
    rw [ring'.shows.value, ring.shows.value]
    decide
  · have made : ∃ head s, parse "a||~(a)" Store.empty = .ok head s ∧ s.IsUnshared head ∧
        ∃ head' s', associate head s = .ok head' s' ∧
        ∃ operands, s'.operands head' = .ok operands ∧ operands.length = 2 ∧
          s'.name operands[0]! = .ok "a" ∧ (s'.content operands[1]! >>= s'.text) = .ok "a" := by
      decide +kernel
    rcases made with ⟨head, s, parsed, unshared, head', s', ran, operands, found, two, named, text⟩
    rcases List.length_eq_two.1 two with ⟨left, right, rfl⟩
    exact ⟨head, s, head', s', left, right, parsed, unshared, ran, found, named, text⟩

end Ring.Builder

end Entail
