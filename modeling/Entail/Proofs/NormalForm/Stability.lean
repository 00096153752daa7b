import Entail.Proofs.NormalForm.Conjunctive

/-!
# Conjunctive normal forms are left as they are

Every step on the way to the conjunctive normal form keeps a formula that is in
it: there is nothing to eliminate, to push or to simplify, and the literals of
a clause are joined one after the other to the clause that they were.
-/

namespace Entail

namespace Formula

theorem IsReduced.isUniform {c : Connective} {P : Operand → Prop} {allowed : Connective → Prop}
    {f : Formula} (reduced : f.IsReduced c P) (isAllowed : allowed c)
    (operands : ∀ x, P x → x.IsUniform allowed) : f.IsUniform allowed := by
  refine isUniform_iff.2 ⟨fun d isLink => ?_, fun x isOperand =>
    operands x (reduced.operands x isOperand).1⟩
  rcases reduced.row d isLink with rfl
  exact ⟨isAllowed, reduced.row⟩

theorem isUniform_of_isLiteralOr {P : Formula → Prop} {allowed : Connective → Prop}
    (groups : ∀ f, P f → f.IsUniform allowed) {x : Operand} (shape : x.IsLiteralOr P) :
    x.IsUniform allowed := by
  cases shape with
  | literal => trivial
  | group holds => exact groups _ holds

theorem IsConjunctive.isArrowFree {f : Formula} (normal : f.IsConjunctive) : f.IsArrowFree := by
  have clauses {g : Formula} (row : g.IsClauseRow) : g.IsArrowFree :=
    row.isUniform rfl fun _ => isUniform_of_isLiteralOr fun _ => False.elim
  cases normal with
  | literal => trivial
  | clause row => exact clauses row
  | conjunction row =>
      exact row.isUniform rfl fun _ => isUniform_of_isLiteralOr fun _ => clauses

theorem isNegationNormal_iff {f : Formula} :
    f.IsNegationNormal ↔ ∀ x ∈ f.operands, x.IsNegationNormal := by
  cases f with
  | single x => simp [IsNegationNormal, operands]
  | chain x c rest =>
      rw [IsNegationNormal, operands, List.forall_mem_cons, isNegationNormal_iff (f := rest)]

theorem isNegationNormal_of_isLiteralOr {P : Formula → Prop}
    (groups : ∀ f, P f → f.IsNegationNormal) {x : Operand} (shape : x.IsLiteralOr P) :
    x.IsNegationNormal := by
  cases shape with
  | literal => trivial
  | group holds => exact ⟨rfl, groups _ holds⟩

theorem IsConjunctive.isNegationNormal {f : Formula} (normal : f.IsConjunctive) :
    f.IsNegationNormal := by
  have clauses (g : Formula) (row : g.IsClauseRow) : g.IsNegationNormal :=
    isNegationNormal_iff.2 fun x isOperand =>
      isNegationNormal_of_isLiteralOr (fun _ => False.elim) (row.operands x isOperand).1
  cases normal with
  | literal => trivial
  | clause row => exact clauses _ row
  | conjunction row =>
      exact isNegationNormal_iff.2 fun x isOperand =>
        isNegationNormal_of_isLiteralOr clauses (row.operands x isOperand).1

theorem combineInGroups_eq_self {f : Formula}
    (fixed : ∀ x ∈ f.operands, x.combineInside = x) : f.combineInGroups = f := by
  match f with
  | single x => rw [combineInGroups, fixed x List.mem_cons_self]
  | chain x c rest =>
      rcases List.forall_mem_cons.1 fixed with ⟨first, restFixed⟩
      rw [combineInGroups, first, combineInGroups_eq_self restFixed]

theorem IsClauseRow.associate_eq (f : Formula) (row : f.IsClauseRow) : f.associate = f :=
  IsReduced.associate_eq row rfl fun _ shape =>
    Operand.gather_of_isLiteralOr shape fun _ => False.elim

/-- The disjunction of literals and clauses is the simplified row of their literals. -/
theorem disjoin_eq {x y : Operand} (left : x.IsLiteralOr IsClauseRow)
    (right : y.IsLiteralOr IsClauseRow) :
    disjoin x y = (simplify .disj (x.gather .disj ++ y.gather .disj)).toOperand := by
  have noParts {x : Operand} (shape : x.IsLiteralOr IsClauseRow) :
      Rule.operandsOf? .conj x = none := by
    cases shape with
    | literal => rfl
    | group row => rw [Rule.operandsOf?, row.all_links]; rfl
  have fixed {x : Operand} (shape : x.IsLiteralOr IsClauseRow) : x.associateInside = x := by
    cases shape with
    | literal => rfl
    | @group content row =>
        rw [Operand.associateInside, IsClauseRow.associate_eq content row]
        split
        · exact absurd row.several (by simp [isSingle])
        · rfl
  rw [disjoin, Rule.distributeOver, noParts left, noParts right]
  simp only [pair, mapOperands, fixed left, fixed right]
  rfl

/-- Literals over different symbols, none of them a constant. -/
structure AreDistinct (operands : List Operand) : Prop where
  literals : ∀ x ∈ operands, x.IsLiteralOr fun _ => False
  noConstant : ∀ x ∈ operands, x.truth? = none
  distinct : (operands.map Operand.key).Nodup

theorem AreDistinct.of_append {left right : List Operand} (distinct : AreDistinct (left ++ right)) :
    AreDistinct left where
  literals x isLeft := distinct.literals x (List.mem_append_left _ isLeft)
  noConstant x isLeft := distinct.noConstant x (List.mem_append_left _ isLeft)
  distinct := (List.nodup_append.1 (List.map_append ▸ distinct.distinct)).1

theorem IsClauseRow.areDistinct {f : Formula} (row : f.IsClauseRow) : AreDistinct f.operands where
  literals x isOperand := (row.operands x isOperand).1
  noConstant x isOperand := (row.operands x isOperand).2
  distinct := row.distinct

/-- The row of different literals is a literal or a clause, and gathers the literals. -/
theorem AreDistinct.toOperand_join {first : Operand} {rest : List Operand}
    (distinct : AreDistinct (first :: rest)) :
    (join .disj first rest).toOperand.IsLiteralOr IsClauseRow ∧
      (join .disj first rest).toOperand.gather .disj = first :: rest := by
  cases rest with
  | nil =>
      have shape := distinct.literals first List.mem_cons_self
      exact ⟨shape.mono fun _ => False.elim,
        Operand.gather_of_isLiteralOr shape fun _ => False.elim⟩
  | cons second rest =>
      have row : (join .disj first (second :: rest)).IsClauseRow := by
        refine ⟨rfl, isRowOf_join _ _ _, fun x isOperand => ?_, ?_⟩
        · rw [operands_join] at isOperand
          exact ⟨distinct.literals x isOperand, distinct.noConstant x isOperand⟩
        · rw [operands_join]
          exact distinct.distinct
      rw [row.toOperand_eq, Operand.gather_group_of_isReduced row fun _ => False.elim,
        operands_join]
      exact ⟨.group row, rfl⟩

/-- Different literals are joined one after the other to the row of all of them. -/
theorem foldl_disjoin_of_distinct {first : Operand} {joined rest : List Operand}
    (distinct : AreDistinct (first :: (joined ++ rest))) :
    rest.foldl disjoin (join .disj first joined).toOperand =
      (join .disj first (joined ++ rest)).toOperand := by
  induction rest generalizing joined with
  | nil => rw [List.foldl_nil, List.append_nil]
  | cons y rest ih =>
      have listed : joined ++ y :: rest = joined ++ [y] ++ rest := by simp
      rw [listed] at distinct ⊢
      have prefixed : AreDistinct (first :: joined ++ [y]) := distinct.of_append
      rcases prefixed.of_append.toOperand_join with ⟨shape, gathered⟩
      have literal := prefixed.literals y (by simp)
      have step : disjoin (join .disj first joined).toOperand y =
          (join .disj first (joined ++ [y])).toOperand := by
        rw [disjoin_eq shape (literal.mono fun _ => False.elim), gathered,
          Operand.gather_of_isLiteralOr literal fun _ => False.elim]
        exact congrArg toOperand (simplify_of_distinct prefixed.distinct prefixed.noConstant)
      rw [List.foldl_cons, step]
      exact ih distinct

/-- A clause is combined to itself. -/
theorem IsClauseRow.combine_eq {f : Formula} (row : f.IsClauseRow) : f.combine = f := by
  have simplified := IsClauseRow.associate_eq f row
  rw [combine, simplified]
  cases f with
  | single x => exact absurd row.several (by simp [isSingle])
  | chain first c rest =>
      rcases isRowOf_chain.1 row.row with ⟨rfl, restRow⟩
      have distinct : AreDistinct (first :: ([] ++ rest.operands)) := row.areDistinct
      have folded : rest.operands.foldl disjoin first =
          (join .disj first rest.operands).toOperand := foldl_disjoin_of_distinct distinct
      have whole : join .disj first rest.operands = chain first .disj rest :=
        join_operands row.row rfl
      rw [whole] at folded
      change ofOperand (rest.operands.foldl disjoin first) = _
      exact congrArg ofOperand folded

theorem IsClauseRow.combineInGroups_eq {f : Formula} (row : f.IsClauseRow) :
    f.combineInGroups = f := by
  refine combineInGroups_eq_self fun x isOperand => ?_
  cases (row.operands x isOperand).1 with
  | literal => rfl
  | group impossible => exact impossible.elim

/-- A conjunction of literals and clauses is combined to itself. -/
theorem IsConjunctionRow.combine_eq {f : Formula} (row : f.IsConjunctionRow) :
    f.combine = f := by
  have simplified : f.associate = f := IsReduced.associate_eq row rfl fun _ shape =>
    Operand.gather_of_isLiteralOr shape IsClauseRow.not_conj
  rw [combine, simplified]
  split
  · have link := row.row .disj List.mem_cons_self
    contradiction
  · rfl

theorem IsConjunctionRow.combineInGroups_eq {f : Formula} (row : f.IsConjunctionRow) :
    f.combineInGroups = f := by
  refine combineInGroups_eq_self fun x isOperand => ?_
  cases (row.operands x isOperand).1 with
  | literal => rfl
  | group clause => rw [Operand.combineInside, clause.combineInGroups_eq, clause.combine_eq]

/-- A formula in conjunctive normal form is its own normal form. -/
theorem IsConjunctive.conjunctive_eq {f : Formula} (normal : f.IsConjunctive) :
    f.conjunctive = .ok f := by
  have combined : f.combineInGroups.combine = f := by
    cases normal with
    | literal => rfl
    | clause row => rw [row.combineInGroups_eq, row.combine_eq]
    | conjunction row => rw [row.combineInGroups_eq, row.combine_eq]
  rw [conjunctive, eliminate_of_isArrowFree normal.isArrowFree, negationNormal,
    pushNegation_of_isNegationNormal normal.isNegationNormal]
  change Except.ok f.combineInGroups.combine.unwrap = _
  rw [combined, normal.unwrap_eq]

end Formula

end Entail
