import Entail.Proofs.Formula.Nesting

/-!
# Every expression is parsed

The text of an expression is parsed to the formula that the expression is read
as by the grammar.
-/

namespace Entail

theorem Leaf.Resolves.mono {ρ : Type} {references : List ρ} {leaf : Leaf} {slot : Slot ρ}
    (resolves : leaf.Resolves references slot) (more : List ρ) :
    leaf.Resolves (references ++ more) slot := by
  cases resolves with
  | name signs word => exact .name signs word
  | reference signs found =>
      have inRange := (List.getElem?_eq_some_iff.1 found).1
      exact .reference signs (by rwa [List.getElem?_append_left inRange])

theorem Leaf.resolves_last {ρ : Type} (references : List ρ) (target : ρ) (signs : Nat) :
    (Leaf.reference signs references.length).Resolves (references ++ [target])
      (.reference (isOdd signs) target) :=
  .reference signs (by simp)

theorem Formula.ofRow_chars {references : List Formula} {row : Row Leaf}
    {slots : Row (Slot Formula)} (resolves : row.Resolves references slots) :
    ofRow references row.chars = .ok (slots.map Slot.operand).byPrecedence := by
  rw [ofRow, Row.ofText_chars resolves]
  rfl

mutual

/-- Building a factor from formulas leaves a leaf for the operand that the factor is. -/
theorem Factor.exists_build_ofRow (factor : Factor) (references : List Formula) :
    ∃ new leaf slot, factor.build Formula.ofRow references = .ok (references ++ new, leaf) ∧
      leaf.Resolves (references ++ new) slot ∧ factor.Reads slot.operand := by
  cases factor with
  | name signs word =>
      have built : (Factor.name signs word).build Formula.ofRow references =
          .ok (references ++ [], .name signs word) := by
        rw [Factor.build, List.append_nil]
        rfl
      exact ⟨[], .name signs word, _, built, .name signs word, .name signs word⟩
  | nested signs inner =>
      rcases inner.exists_build_ofRow references with ⟨new, row, slots, built, resolves, operands⟩
      have read := Formula.ofRow_chars resolves
      have grouped := Row.grouped_byPrecedence (slots.map Slot.operand)
      generalize (slots.map Slot.operand).byPrecedence = content at read grouped
      let leaf : Leaf := .reference signs (references ++ new).length
      have built' : (Factor.nested signs inner).build Formula.ofRow references =
          .ok (references ++ (new ++ [content]), leaf) := by
        rw [Factor.build, built]
        simp only [bind, Except.bind, read, ← List.append_assoc]
        rfl
      have resolves' : leaf.Resolves (references ++ (new ++ [content]))
          (.reference (isOdd signs) content) := by
        rw [← List.append_assoc]
        exact Leaf.resolves_last (references ++ new) content signs
      exact ⟨new ++ [content], leaf, .reference (isOdd signs) content, built', resolves',
        .nested signs operands grouped⟩

/-- Building an expression from formulas leaves a row of leaves for the row of operands that the
expression is. -/
theorem Expression.exists_build_ofRow (e : Expression) (references : List Formula) :
    ∃ new row slots, e.build Formula.ofRow references = .ok (references ++ new, row) ∧
      row.Resolves (references ++ new) slots ∧ e.Operands (slots.map Slot.operand) := by
  cases e with
  | single factor =>
      rcases factor.exists_build_ofRow references with ⟨new, leaf, slot, built, resolves, reads⟩
      have built' : (Expression.single factor).build Formula.ofRow references =
          .ok (references ++ new, ⟨leaf, []⟩) := by
        rw [Expression.build, built]
        rfl
      exact ⟨new, ⟨leaf, []⟩, ⟨slot, []⟩, built', .single resolves, .single reads⟩
  | chain first c rest =>
      rcases first.exists_build_ofRow references with ⟨new, leaf, slot, built, resolves, reads⟩
      rcases rest.exists_build_ofRow (references ++ new) with
        ⟨more, row, slots, built', resolves', operands⟩
      rw [List.append_assoc] at built' resolves'
      have built'' : (Expression.chain first c rest).build Formula.ofRow references =
          .ok (references ++ (new ++ more), row.cons leaf c) := by
        rw [Expression.build, built]
        simp only [bind, Except.bind, built']
        rfl
      have resolves'' : leaf.Resolves (references ++ (new ++ more)) slot := by
        rw [← List.append_assoc]
        exact resolves.mono more
      exact ⟨new ++ more, row.cons leaf c, slots.cons slot c, built'', .cons c resolves'' resolves',
        .chain reads operands⟩

end

/-- The text of an expression is parsed to the one formula that the grammar gives it. -/
theorem Expression.parse_text (e : Expression) :
    ∃ f, Formula.parse e.text = .ok f ∧ e.Reads f := by
  rcases e.exists_build_ofRow [] with ⟨new, row, slots, built, resolves, operands⟩
  have parsed : Formula.parse e.text = .ok (slots.map Slot.operand).byPrecedence := by
    rw [Formula.parse, Expression.text, String.toList_ofList, e.readText_chars, built]
    exact Formula.ofRow_chars resolves
  exact ⟨_, parsed, _, operands, Row.grouped_byPrecedence _⟩

end Entail
