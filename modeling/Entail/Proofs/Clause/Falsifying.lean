import Entail.Clause.Falsifying
import Entail.Proofs.Clause.Satisfaction
import Entail.Proofs.Truth.Columns

/-!
# The clauses of a formula say what the formula says

A formula has one clause for each row of its truth table that falsifies it, and
this clause is false under an assignment exactly if the assignment agrees with
the row.  Since every assignment agrees with some row, the clauses are true
together exactly where the formula is.
-/

namespace Entail.Clause

/-- The clause that excludes a row is false exactly under the assignments that give this row. -/
theorem eval_excluding {v : Valuation} {symbols : List String} {row : List Bool}
    (sameLength : row.length = symbols.length) :
    eval v (excluding symbols row) = decide (symbols.map v ≠ row) := by
  induction symbols generalizing row with
  | nil => simp [excluding, eval, List.length_eq_zero_iff.1 sameLength]
  | cons first rest ih =>
      rcases row with _ | ⟨value, values⟩
      · simp at sameLength
      · have opened : eval v (excluding (first :: rest) (value :: values)) =
            (Literal.eval v ⟨first, value⟩ || eval v (excluding rest values)) := rfl
        rw [opened, ih (Nat.succ.inj sameLength)]
        by_cases agrees : v first = value <;> simp [Literal.eval, agrees]

theorem map_name_excluding {symbols : List String} {row : List Bool}
    (sameLength : row.length = symbols.length) :
    (excluding symbols row).map Literal.name = symbols := by
  induction symbols generalizing row with
  | nil => rfl
  | cons first rest ih =>
      rcases row with _ | ⟨value, values⟩
      · simp at sameLength
      · exact congrArg (first :: ·) (ih (Nat.succ.inj sameLength))

/-- The clause that excludes the values which `w` gives to the symbols is false exactly under the
assignments that agree with `w` on them. -/
theorem eval_excluding_eq_false_iff {v w : Valuation} {symbols : List String} :
    eval v (excluding symbols (symbols.map w)) = false ↔ ∀ name ∈ symbols, v name = w name := by
  rw [eval_excluding (by simp)]
  simp

/-- The clauses exclude the falsifying rows, in the order of the rows. -/
theorem ofFormula_eq_ok {f : Formula} (small : f.propositions.length ≤ maxTableSymbols) :
    ofFormula f = .ok (((List.range (Table.full f.propositions).size).filter fun k =>
      !f.eval ((Table.full f.propositions).valuation k)).map fun k =>
        excluding f.propositions (f.propositions.map ((Table.full f.propositions).valuation k))) := by
  have distinct : (Table.full f.propositions).symbols.Nodup := f.nodup_propositions
  have table : Table.ofSymbols f.propositions = .ok (Table.full f.propositions) :=
    Table.ofSymbols_eq_ok small
  have values := Table.evaluate_eq_ok distinct (f := f) fun _ isProposition => isProposition
  simp only [ofFormula, table, values, Table.rows_eq distinct, bind, Except.bind, pure, Except.pure]
  simp [List.zip_map', List.filter_map, Function.comp_def, Table.full]

/-- A formula has clauses, which are true together exactly if the formula is. -/
theorem exists_ofFormula_eq_ok {f : Formula} (small : f.propositions.length ≤ maxTableSymbols) :
    ∃ clauses, ofFormula f = .ok clauses ∧
      ∀ v : Valuation, v.Satisfies clauses ↔ f.eval v = true := by
  refine ⟨_, ofFormula_eq_ok small, fun v => ?_⟩
  constructor
  · intro satisfies
    by_contra fails
    rcases Table.exists_valuation_eq f.nodup_propositions v with ⟨k, inRange, agree⟩
    -- the row that agrees with the assignment falsifies the formula, so its clause is there
    have sameValue : f.eval ((Table.full f.propositions).valuation k) = f.eval v :=
      Formula.eval_congr agree
    have isClause := satisfies _ (List.mem_map.2 ⟨k, List.mem_filter.2
      ⟨List.mem_range.2 inRange, by simpa [sameValue] using fails⟩, rfl⟩)
    rw [eval_excluding_eq_false_iff.2 fun name isName => (agree name isName).symm] at isClause
    contradiction
  · intro holds clause isClause
    rcases List.mem_map.1 isClause with ⟨k, isFalsifying, rfl⟩
    by_contra fails
    have agree := eval_excluding_eq_false_iff.1 (Bool.not_eq_true _ ▸ fails)
    have sameValue := Formula.eval_congr agree
    have falsified := (List.mem_filter.1 isFalsifying).2
    rw [← sameValue, holds] at falsified
    contradiction

/-! ### Falsifying rows -/

/-- The numbers of the rows of its truth table that falsify a formula. -/
def falsifyingRows (f : Formula) : List Nat :=
  (List.range (Table.full f.propositions).size).filter fun row =>
    !f.eval ((Table.full f.propositions).valuation row)

/-- The clauses of a formula exclude the falsifying rows one by one. -/
theorem ofFormula_eq_excluding {f : Formula} (small : f.propositions.length ≤ maxTableSymbols) :
    ofFormula f = .ok ((falsifyingRows f).map fun (row : Nat) =>
      excluding f.propositions (truthRow f.propositions.length row)) := by
  simp only [ofFormula_eq_ok small, falsifyingRows,
    Table.map_valuation_full f.nodup_propositions]

theorem pairwise_falsifyingRows (f : Formula) : (falsifyingRows f).Pairwise (· < ·) :=
  List.Pairwise.filter _ List.pairwise_lt_range

/-- No clause of a formula names a constant. -/
theorem constantValue?_of_mem_excluding {f : Formula} {row : Nat} {l : Literal}
    (isLiteral : l ∈ excluding f.propositions (truthRow f.propositions.length row)) :
    constantValue? l.name = none := by
  have isSymbol : l.name ∈ f.propositions := by
    rw [← map_name_excluding (length_truthRow f.propositions.length row)]
    exact List.mem_map_of_mem isLiteral
  exact (Formula.mem_propositions.1 isSymbol).2

/-- A row falsifies a formula exactly if an assignment that gives the row makes it false. -/
theorem mem_falsifyingRows {f : Formula} {row : Nat} :
    row ∈ falsifyingRows f ↔ row < 2 ^ f.propositions.length ∧
      ∃ v, f.propositions.map v = truthRow f.propositions.length row ∧ f.eval v = false := by
  have isRow := Table.map_valuation_full f.nodup_propositions row
  simp only [falsifyingRows, List.mem_filter, List.mem_range, Bool.not_eq_true']
  refine and_congr_right fun _ => ⟨fun falsified => ⟨_, isRow, falsified⟩, ?_⟩
  rintro ⟨v, sameRow, falsified⟩
  rw [← isRow, List.map_inj_left] at sameRow
  rw [← Formula.eval_congr sameRow, falsified]

theorem ofFormulas_cons_eq_ok {f : Formula} {formulas : List Formula} {first rest : List Clause}
    (firstResult : ofFormula f = .ok first) (restResult : ofFormulas formulas = .ok rest) :
    ofFormulas (f :: formulas) = .ok (first ++ rest) := by
  cases mapped : formulas.mapM ofFormula with
  | error error => simp [ofFormulas, mapped, bind, Except.bind] at restResult
  | ok parts =>
      have whole : parts.flatten = rest := by
        simpa [ofFormulas, mapped, bind, Except.bind, pure, Except.pure] using restResult
      simp [ofFormulas, mapped, firstResult, bind, Except.bind, pure, Except.pure, whole]

/-- Several formulas have clauses, which are true together exactly if all the formulas are. -/
theorem exists_ofFormulas_eq_ok {formulas : List Formula}
    (small : ∀ f ∈ formulas, f.propositions.length ≤ maxTableSymbols) :
    ∃ clauses, ofFormulas formulas = .ok clauses ∧
      ∀ v : Valuation, v.Satisfies clauses ↔ ∀ f ∈ formulas, f.eval v = true := by
  induction formulas with
  | nil => exact ⟨[], rfl, by simp [Valuation.Satisfies]⟩
  | cons f formulas ih =>
      rcases List.forall_mem_cons.1 small with ⟨smallFirst, smallRest⟩
      rcases ih smallRest with ⟨rest, restResult, restMeaning⟩
      rcases exists_ofFormula_eq_ok smallFirst with ⟨first, firstResult, firstMeaning⟩
      refine ⟨first ++ rest, ofFormulas_cons_eq_ok firstResult restResult, fun v => ?_⟩
      rw [satisfies_append_iff, firstMeaning, restMeaning, List.forall_mem_cons]

end Entail.Clause
