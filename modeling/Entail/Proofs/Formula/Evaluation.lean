import Entail.Formula.Valuation

/-!
# Evaluating formulas

The value of a formula depends only on the values of its propositions, negation
inverts it, and the column of a formula in a truth table holds its value in
each row.
-/

namespace Entail

theorem Valuation.value_congr {v w : Valuation} {name : String}
    (agree : constantValue? name = none → v name = w name) : v.value name = w.value name := by
  simp only [value]
  cases isConstant : constantValue? name with
  | none => exact agree isConstant
  | some value => rfl

mutual

theorem Operand.eval_congr {v w : Valuation} {x : Operand}
    (agree : ∀ name ∈ x.names, constantValue? name = none → v name = w name) :
    x.eval v = x.eval w := by
  match x with
  | .symbol negated name =>
      simp only [Operand.eval, Valuation.value_congr (agree name (by simp [Operand.names]))]
  | .group negated content =>
      simp only [Operand.eval, Formula.evalWith_congr (f := content) agree]

theorem Formula.evalWith_congr {v w : Valuation} {f : Formula}
    (agree : ∀ name ∈ f.names, constantValue? name = none → v name = w name)
    {combine : Bool → Bool} : f.evalWith v combine = f.evalWith w combine := by
  match f with
  | .single x => simp only [Formula.evalWith, Operand.eval_congr (x := x) agree]
  | .chain x c rest =>
      have first : x.eval v = x.eval w := Operand.eval_congr fun name isName =>
        agree name (List.mem_append_left _ isName)
      simp only [Formula.evalWith, first]
      exact Formula.evalWith_congr fun name isName => agree name (List.mem_append_right _ isName)

end

theorem Formula.mem_propositions {f : Formula} {name : String} :
    name ∈ f.propositions ↔ name ∈ f.names ∧ constantValue? name = none := by
  simp [Formula.propositions, Entail.propositions, Formula.symbols]

theorem nodup_eraseDups (names : List String) : names.eraseDups.Nodup := by
  match names with
  | [] => exact List.nodup_nil
  | first :: rest =>
      have shorter := List.length_filter_le (!· == first) rest
      rw [List.eraseDups_cons, List.nodup_cons]
      constructor
      · intro repeated
        simp at repeated
      · exact nodup_eraseDups (rest.filter (!· == first))
termination_by names.length
decreasing_by simp only [List.length_cons]; omega

theorem Formula.nodup_propositions (f : Formula) : f.propositions.Nodup :=
  (nodup_eraseDups f.names).filter _

/-- The value of a formula is decided by the values of its propositions. -/
theorem Formula.eval_congr {v w : Valuation} {f : Formula}
    (agree : ∀ name ∈ f.propositions, v name = w name) : f.eval v = f.eval w :=
  Formula.evalWith_congr fun name isName isVariable =>
    agree name (Formula.mem_propositions.2 ⟨isName, isVariable⟩)

@[simp]
theorem Operand.eval_toggle (v : Valuation) (x : Operand) : x.toggle.eval v = !x.eval v := by
  cases x with
  | symbol negated name => cases negated <;> simp [Operand.toggle, Operand.eval, bne]
  | group negated content => cases negated <;> simp [Operand.toggle, Operand.eval, bne]

@[simp]
theorem Formula.eval_negate (v : Valuation) (f : Formula) : f.negate.eval v = !f.eval v := by
  cases f with
  | single x => simp [Formula.negate, Formula.eval, Formula.evalWith]
  | chain x c rest =>
      simp [Formula.negate, Formula.eval, Formula.evalWith, Operand.eval, bne]

@[simp]
theorem Operand.names_toggle (x : Operand) : x.toggle.names = x.names := by
  cases x <;> rfl

@[simp]
theorem Formula.names_negate (f : Formula) : f.negate.names = f.names := by
  cases f <;> simp [Formula.negate, Formula.names, Operand.names]

theorem Formula.propositions_negate (f : Formula) : f.negate.propositions = f.propositions := by
  simp [Formula.propositions, Formula.symbols]

/-! ### Constants -/

@[simp]
theorem Operand.eval_constant (v : Valuation) (value : Bool) : (constant value).eval v = value := by
  cases value <;> simp [constant, eval, Valuation.value, constantValue?, trueName, falseName]

@[simp]
theorem Operand.truth?_constant (value : Bool) : (constant value).truth? = some value := by
  cases value <;> simp [constant, truth?, constantValue?, trueName, falseName]

theorem Operand.eval_of_truth? {x : Operand} {value : Bool} (isConstant : x.truth? = some value)
    (v : Valuation) : x.eval v = value := by
  cases x with
  | symbol negated name =>
      rcases Option.map_eq_some_iff.1 isConstant with ⟨own, isOwn, rfl⟩
      simp [eval, Valuation.value, isOwn]
  | group => contradiction

/-! ### Columns -/

theorem Connective.applyColumns_map (c : Connective) (rows : List Nat) (a b : Nat → Bool) :
    c.applyColumns (rows.map a) (rows.map b) = rows.map fun i => c.apply (a i) (b i) := by
  simp [Connective.applyColumns, List.zipWith_map, List.zipWith_self]

mutual

theorem Operand.column_eq_map {rows : Nat} {column : String → List Bool} {v : Nat → Valuation}
    {x : Operand} (columns : ∀ name ∈ x.names, constantValue? name = none →
      column name = (List.range rows).map fun i => v i name) :
    x.column rows column = (List.range rows).map fun i => x.eval (v i) := by
  match x with
  | .symbol negated name =>
      have named := columns name (by simp [Operand.names])
      simp only [Operand.column, Operand.eval, Valuation.value]
      cases isConstant : constantValue? name with
      | none => simp [named isConstant, Function.comp_def]
      | some value => simp [List.map_const']
  | .group negated content =>
      have inner : content.columnWith rows column id =
          (List.range rows).map fun i => content.evalWith (v i) id :=
        Formula.columnWith_eq_map columns fun g => by simp
      simp [Operand.column, Operand.eval, inner, Function.comp_def]

theorem Formula.columnWith_eq_map {rows : Nat} {column : String → List Bool}
    {v : Nat → Valuation} {f : Formula} (columns : ∀ name ∈ f.names, constantValue? name = none →
      column name = (List.range rows).map fun i => v i name)
    {combine : List Bool → List Bool} {combineAt : Nat → Bool → Bool}
    (pointwise : ∀ g : Nat → Bool, combine ((List.range rows).map g) =
      (List.range rows).map fun i => combineAt i (g i)) :
    f.columnWith rows column combine =
      (List.range rows).map fun i => f.evalWith (v i) (combineAt i) := by
  match f with
  | .single x =>
      rw [Formula.columnWith, Operand.column_eq_map (x := x) columns, pointwise]
      rfl
  | .chain x c rest =>
      have first : x.column rows column = (List.range rows).map fun i => x.eval (v i) :=
        Operand.column_eq_map fun name isName => columns name (List.mem_append_left _ isName)
      rw [Formula.columnWith, first, pointwise]
      refine Formula.columnWith_eq_map
        (fun name isName => columns name (List.mem_append_right _ isName)) fun g => ?_
      rw [Connective.applyColumns_map]

end

/-- The column of a formula holds its value in each row. -/
theorem Formula.column_eq_map {rows : Nat} {column : String → List Bool} {v : Nat → Valuation}
    {f : Formula} (columns : ∀ name ∈ f.propositions,
      column name = (List.range rows).map fun i => v i name) :
    f.column rows column = (List.range rows).map fun i => f.eval (v i) :=
  Formula.columnWith_eq_map (fun name isName isVariable =>
    columns name (Formula.mem_propositions.2 ⟨isName, isVariable⟩)) fun g => by simp

end Entail
