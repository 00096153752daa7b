import Entail.Proofs.Clause.Falsifying
import Entail.Proofs.Formula.Uniform
import Entail.Proofs.Ring.Clauses

/-!
# Rings of the falsifying rows

The clauses of a formula are made in the store one for each row of its truth
table that falsifies the formula, in the order of the rows.  Each of them is a
ring of disjunctions over all symbols of the formula, and its value, folded from
left to right as that of any ring, is false in just its row.  Since constants
are no symbols of the formula, no clause names one.
-/

namespace Entail

/-- A row of disjunctions has the value of the clause of its literals, unless it names a constant. -/
theorem Clause.eval_join {l : Literal} {ls : List Literal} (v : Valuation)
    (constantFree : ∀ m ∈ l :: ls, constantValue? m.name = none) :
    (Formula.join .disj l.toOperand (ls.map Literal.toOperand)).eval v =
      Clause.eval v (l :: ls) := by
  have sameValue : ∀ m ∈ l :: ls, m.toOperand.eval v = m.eval v := by
    intro m isLiteral
    simp [Literal.toOperand, Operand.eval, Valuation.value, constantFree m isLiteral, Literal.eval]
  rw [Bool.eq_iff_iff, Formula.eval_disj_iff (Formula.isRowOf_join _ _ _), Formula.operands_join,
    Clause.eval_eq_true_iff, ← List.map_cons]
  simp only [List.mem_map, exists_exists_and_eq_and]
  exact exists_congr fun m => and_congr_right fun isLiteral => by rw [sameValue m isLiteral]

namespace Ring

namespace Store

variable {s : Store}

/-- The value of the ring of a clause; the empty clause, which has no ring, is false. -/
def clauseValue (s : Store) (v : Valuation) : Option Nat → Except Error Bool
  | none => .ok false
  | some head => (s.formula head).map (·.eval v)

theorem ShowsClause.clauseValue {ring : Option Nat} {clause : Clause}
    (shown : s.ShowsClause ring clause) (v : Valuation)
    (constantFree : ∀ l ∈ clause, constantValue? l.name = none) :
    s.clauseValue v ring = .ok (clause.eval v) := by
  rcases shown with ⟨A, _ | @⟨head, _, _, nonempty, row⟩⟩
  · rfl
  · rcases List.exists_cons_of_ne_nil nonempty with ⟨l, ls, rfl⟩
    have shows : s.Shows head (.join .disj l.toOperand (ls.map Literal.toOperand)) := by
      rw [Shows, Part.parts_join]
      exact row.shows
    rw [Store.clauseValue, shows.formula, ← Clause.eval_join v constantFree]
    rfl

/-- The ring is that of a clause which names each of the symbols once, in their order, and is false
in just the given row of their truth table; it is the empty clause if there are no symbols. -/
structure ExcludesRow (s : Store) (symbols : List String) (row : Nat) (ring : Option Nat) :
    Prop where
  clause : ∃ clause : Clause, s.ShowsClause ring clause ∧ clause.map Literal.name = symbols ∧
    symbols.Nodup
  value : ∀ v, s.clauseValue v ring = .ok (decide (symbols.map v ≠ truthRow symbols.length row))

/-- What shows the clause that excludes a row excludes it. -/
theorem ShowsClause.excludesRow {ring : Option Nat} {f : Formula} {row : Nat}
    (shown : s.ShowsClause ring
      (Clause.excluding f.propositions (truthRow f.propositions.length row))) :
    s.ExcludesRow f.propositions row ring := by
  have sameLength := length_truthRow f.propositions.length row
  refine ⟨⟨_, shown, Clause.map_name_excluding sameLength, f.nodup_propositions⟩, fun v => ?_⟩
  rw [shown.clauseValue v fun _ => Clause.constantValue?_of_mem_excluding,
    Clause.eval_excluding sameLength]

/-- All clauses are true exactly if all rings of clauses are. -/
theorem satisfies_iff {rings : List (Option Nat)} {clauses : List Clause}
    (shown : List.Forall₂ s.ShowsClause rings clauses) (v : Valuation)
    (constantFree : ∀ clause ∈ clauses, ∀ l ∈ clause, constantValue? l.name = none) :
    (∀ ring ∈ rings, s.clauseValue v ring = .ok true) ↔ v.Satisfies clauses := by
  induction shown with
  | nil => simp [Valuation.Satisfies]
  | cons first _ ih =>
      rcases List.forall_mem_cons.1 constantFree with ⟨firstVariables, restVariables⟩
      rw [List.forall_mem_cons, Valuation.Satisfies, List.forall_mem_cons, ih restVariables,
        first.clauseValue v firstVariables, Except.ok.injEq]
      rfl

end Store

namespace Builder

open Store

/-- The clauses of a formula over at most so many symbols as a truth table may have are made without
changing a node, one for each falsifying row and in the order of the rows, each of them false in
just its row; all are true together exactly where the formula is. -/
theorem addClauses_excludes_falsifying_rows {s : Store} {head : Nat} {f : Formula}
    (shown : s.Shows head f) (small : f.propositions.length ≤ maxTableSymbols) :
    ∃ rings s', ∃ rows : List Nat, addClauses head s = .ok rings s' ∧
      (∀ k < s.size, s'.node k = s.node k) ∧
      rows.Pairwise (· < ·) ∧
      (∀ row : Nat, row ∈ rows ↔ row < 2 ^ f.propositions.length ∧
        ∃ v, f.propositions.map v = truthRow f.propositions.length row ∧ f.eval v = false) ∧
      List.Forall₂ (s'.ExcludesRow f.propositions) rows rings ∧
      ∀ v, (∀ ring ∈ rings, s'.clauseValue v ring = .ok true) ↔ f.eval v = true := by
  have made := comesTo_addClauses shown
  rcases Clause.exists_ofFormula_eq_ok small with ⟨clauses, outcome, meaning⟩
  have excluding := Clause.ofFormula_eq_excluding small
  rw [outcome] at made
  rcases made with ⟨rings, s', B, ran, evolves, shownClauses⟩
  rw [outcome, Except.ok.injEq] at excluding
  have excludes : List.Forall₂ (s'.ExcludesRow f.propositions) (Clause.falsifyingRows f) rings := by
    rw [excluding, List.forall₂_map_right_iff] at shownClauses
    exact shownClauses.flip.imp fun _ _ => ShowsClause.excludesRow
  have constantFree : ∀ clause ∈ clauses, ∀ l ∈ clause, constantValue? l.name = none := by
    intro clause isClause l isLiteral
    rw [excluding] at isClause
    rcases List.mem_map.1 isClause with ⟨row, _, rfl⟩
    exact Clause.constantValue?_of_mem_excluding isLiteral
  refine ⟨rings, s', Clause.falsifyingRows f, ran, evolves.keeps, Clause.pairwise_falsifyingRows f,
    fun _ => Clause.mem_falsifyingRows, excludes, fun v => ?_⟩
  rw [satisfies_iff shownClauses v constantFree, meaning]

/-- The only clause of an implication excludes the row in which just its antecedent is true. -/
theorem addClauses_excludes_falsifying_rows_of_implication :
    ∃ head s rings s', parseText "a=>b" Store.empty = .ok head s ∧
      addClauses head s = .ok rings s' ∧
      s'.clauses rings = .ok [[⟨"a", true⟩, ⟨"b", false⟩]] ∧
      ∀ v, (∀ ring ∈ rings, s'.clauseValue v ring = .ok true) ↔ (v "a" = true → v "b" = true) := by
  have made : ∃ head s, parseText "a=>b" Store.empty = .ok head s ∧
      ∃ rings s', addClauses head s = .ok rings s' ∧
        s'.clauses rings = .ok [[⟨"a", true⟩, ⟨"b", false⟩]] := by
    decide +kernel
  rcases made with ⟨head, s, parsed, rings, s', ran, clauses⟩
  have alone : Formula.ofText "a=>b" =
      .ok (.pair (.symbol false "a") .impl (.symbol false "b")) := by
    decide +kernel
  have parsing := comesTo_parseText "a=>b" Store.empty
  rw [alone] at parsing
  rcases parsing with ⟨_, _, _, parsed', _, shown⟩
  cases parsed.symm.trans parsed'
  rcases addClauses_excludes_falsifying_rows shown (by decide) with
    ⟨_, _, rows, ran', _, _, _, _, meaning⟩
  cases ran.symm.trans ran'
  refine ⟨head, s, rings, s', parsed, ran, clauses, fun v => ?_⟩
  rw [meaning, Formula.eval_pair]
  cases isTrue : v "a" <;>
    simp [Operand.eval, Valuation.value, constantValue?, trueName, falseName, Connective.apply,
      isTrue]

end Builder

end Ring

end Entail
