import Entail.Proofs.Formula.Canonical

/-!
# Regrouping keeps the value of uniform formulas

The connectives of a row are grouped by strength when its text is read again.
A row with one kind of connective is then grouped from left to right, which is
the order in which it is evaluated.  A row that mixes connectives may change
its value.
-/

namespace Entail

theorem Formula.evalWith_append (v : Valuation) (combine : Bool → Bool) (f : Formula)
    (c : Connective) (g : Formula) :
    (f.append c g).evalWith v combine = g.evalWith v (c.apply (f.evalWith v combine)) := by
  cases f with
  | single x => rfl
  | chain x d rest => exact evalWith_append v (d.apply (combine (x.eval v))) rest c g

namespace Row

theorem formula_cons (x : Operand) (c : Connective) (row : Row Operand) :
    (row.cons x c).formula = .chain x c row.formula :=
  rfl

theorem formula_append (left right : Row Operand) (c : Connective) :
    (left.append c right).formula = left.formula.append c right.formula := by
  rcases left with ⟨x, rest⟩
  induction rest generalizing x with
  | nil => rfl
  | cons pair rest ih => exact congrArg (Formula.chain x pair.1) (ih pair.2)

end Row

/-- A row with one kind of connective is grouped from left to right, as it is evaluated. -/
theorem Grouped.eval_eq {row : Row Operand} {f : Formula} (grouped : Grouped row f)
    {c : Connective} (same : ∀ d ∈ row.links, d = c) (v : Valuation) :
    f.eval v = row.formula.eval v := by
  induction grouped with
  | single x => rfl
  | @split left right f g d _ stronger _ second ih ih' =>
      rw [Row.links_append, List.forall_mem_append, List.forall_mem_cons] at same
      rcases same with ⟨before, rfl, behind⟩
      -- a link behind would have to be stronger than itself
      have noLink : right.rest = [] := by
        cases rest : right.rest with
        | nil => rfl
        | cons pair rest' =>
            have isLink : pair.1 ∈ right.links := by
              rw [Row.links, rest]
              exact List.mem_cons_self
            have isSame := behind pair.1 isLink
            exact absurd (isSame ▸ stronger pair.1 isLink) (Nat.lt_irrefl _)
      rcases right with ⟨y, rest⟩
      rcases noLink with rfl
      have value : g.eval v = y.eval v := ih' behind
      calc (Formula.pair f.toOperand d g.toOperand).eval v
        _ = d.apply (left.formula.eval v) (y.eval v) := by
          rw [Formula.eval_pair, Formula.eval_toOperand, Formula.eval_toOperand, ih before, value]
        _ = (left.formula.append d (.single y)).eval v := by
          exact (Formula.evalWith_append v id left.formula d (.single y)).symm
        _ = (left.append d ⟨y, []⟩).formula.eval v := by
          rw [Row.formula_append]
          rfl

theorem Formula.links_regroupedRow (f : Formula) : f.regroupedRow.links = f.links := by
  cases f with
  | single x =>
      rw [regroupedRow]
      rfl
  | chain x c rest =>
      rw [regroupedRow]
      exact congrArg (c :: ·) (links_regroupedRow rest)

theorem Formula.IsUniform.exists_isRowOf {allowed : Connective → Prop} {f : Formula}
    (uniform : f.IsUniform allowed) : ∃ c, f.IsRowOf c := by
  cases f with
  | single x => exact ⟨.conj, isRowOf_single _ x⟩
  | chain x c rest => exact ⟨c, isRowOf_chain.2 ⟨rfl, uniform.2.1⟩⟩

/-- Grouping the row of a uniform formula by strength does not change its value. -/
theorem Formula.IsUniform.eval_byPrecedence {allowed : Connective → Prop} {f : Formula}
    (uniform : f.IsUniform allowed) (v : Valuation) :
    f.regroupedRow.byPrecedence.eval v = f.regroupedRow.formula.eval v := by
  rcases uniform.exists_isRowOf with ⟨c, row⟩
  apply (Row.grouped_byPrecedence _).eval_eq
  rwa [links_regroupedRow]

mutual

theorem Operand.IsUniform.eval_regroup {allowed : Connective → Prop} {x : Operand}
    (uniform : x.IsUniform allowed) (v : Valuation) : x.regroup.eval v = x.eval v := by
  match x with
  | .symbol negated name => rw [Operand.regroup]
  | .group negated content =>
      have uniform' : content.IsUniform allowed := uniform
      have same := Formula.IsUniform.evalWith_regroupedRow uniform' v id
      rw [Operand.regroup, Operand.eval_group, uniform'.eval_byPrecedence v, Formula.eval, same]
      rfl

theorem Formula.IsUniform.evalWith_regroupedRow {allowed : Connective → Prop} {f : Formula}
    (uniform : f.IsUniform allowed) (v : Valuation) (combine : Bool → Bool) :
    f.regroupedRow.formula.evalWith v combine = f.evalWith v combine := by
  match f with
  | .single x =>
      have same := Operand.IsUniform.eval_regroup (x := x) uniform v
      rw [Formula.regroupedRow]
      exact congrArg combine same
  | .chain x c rest =>
      rcases uniform with ⟨_, _, first, restUniform⟩
      have same := Operand.IsUniform.eval_regroup first v
      rw [Formula.regroupedRow, Row.formula_cons, Formula.evalWith, same, Formula.evalWith]
      exact Formula.IsUniform.evalWith_regroupedRow restUniform v _

end

/-- A uniform formula keeps its value when the connectives of its rows are grouped by strength. -/
theorem Formula.IsUniform.eval_regroup {allowed : Connective → Prop} {f : Formula}
    (uniform : f.IsUniform allowed) (v : Valuation) : f.regroup.eval v = f.eval v := by
  rw [regroup, uniform.eval_byPrecedence, eval, uniform.evalWith_regroupedRow]
  rfl

end Entail
