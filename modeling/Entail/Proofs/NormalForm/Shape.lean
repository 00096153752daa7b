import Entail.NormalForm.Conjunctive
import Entail.Proofs.NormalForm.Associate
import Entail.Proofs.NormalForm.Negation
import Entail.Proofs.NormalForm.Rule

/-!
# Conjunctive shapes

A formula in conjunctive form is a literal, a clause, or a conjunction of
literals and clauses.  A row of such formulas gathers literals and rows of the
other connective, and the disjunction of two operands in conjunctive form is
distributed to an operand in conjunctive form again.
-/

namespace Entail

/-! ### Shapes -/

/-- A symbol, or the plain group of a formula with the property. -/
inductive Operand.IsLiteralOr (P : Formula → Prop) : Operand → Prop
  | literal (negated : Bool) (name : String) : IsLiteralOr P (.symbol negated name)
  | group {content : Formula} : P content → IsLiteralOr P (.group false content)

theorem Operand.IsLiteralOr.mono {P Q : Formula → Prop} (weaker : ∀ f, P f → Q f) {x : Operand}
    (shape : x.IsLiteralOr P) : x.IsLiteralOr Q := by
  cases shape with
  | literal negated name => exact .literal negated name
  | group holds => exact .group (weaker _ holds)

theorem Operand.isLiteralOr_constant {P : Formula → Prop} (value : Bool) :
    (constant value).IsLiteralOr P :=
  .literal false _

namespace Formula

/-- A disjunction of several literals over different symbols, none of them a constant. -/
abbrev IsClauseRow : Formula → Prop :=
  IsReduced .disj (Operand.IsLiteralOr fun _ => False)

/-- A conjunction of several literals and clauses, in which the literals are over different symbols
and none of them is a constant. -/
abbrev IsConjunctionRow : Formula → Prop :=
  IsReduced .conj (Operand.IsLiteralOr IsClauseRow)

/-- A formula in conjunctive normal form. -/
inductive IsConjunctive : Formula → Prop
  | literal (negated : Bool) (name : String) : IsConjunctive (single (.symbol negated name))
  | clause {f : Formula} : f.IsClauseRow → IsConjunctive f
  | conjunction {f : Formula} : f.IsConjunctionRow → IsConjunctive f

/-- A conjunctive normal form within any number of parentheses. -/
inductive IsWrapped : Formula → Prop
  | plain {f : Formula} : f.IsConjunctive → IsWrapped f
  | wrapped {f : Formula} : f.IsWrapped → IsWrapped (single (.group false f))

/-- A row of several operands, as a group. -/
theorem IsReduced.toOperand_eq {c : Connective} {P : Operand → Prop} {f : Formula}
    (reduced : f.IsReduced c P) : f.toOperand = .group false f := by
  cases f with
  | single x => exact absurd reduced.several (by simp [isSingle])
  | chain => rfl

/-- A row of several operands uses no connective but its own. -/
theorem IsReduced.all_links {c d : Connective} {P : Operand → Prop} {f : Formula}
    (reduced : f.IsReduced c P) : f.links.all (· == d) = decide (c = d) := by
  rcases f with x | ⟨x, e, rest⟩
  · exact absurd reduced.several (by simp [isSingle])
  · rcases isRowOf_chain.1 reduced.row with ⟨rfl, _⟩
    by_cases same : e = d
    · subst same
      rw [decide_eq_true rfl]
      exact all_links_iff.2 reduced.row
    · simp [links, same]

@[simp]
theorem eval_unwrap (f : Formula) (v : Valuation) : f.unwrap.eval v = f.eval v := by
  fun_induction unwrap f with
  | case1 content ih => rw [ih, eval_single, Operand.eval_group, Bool.bne_false]
  | case2 => rfl

@[simp]
theorem names_unwrap (f : Formula) : f.unwrap.names = f.names := by
  fun_induction unwrap f with
  | case1 content ih => exact ih
  | case2 => rfl

theorem IsUniform.unwrap {allowed : Connective → Prop} {f : Formula}
    (uniform : f.IsUniform allowed) : f.unwrap.IsUniform allowed := by
  fun_induction Formula.unwrap f with
  | case1 content ih => exact ih uniform
  | case2 => exact uniform

theorem IsConjunctive.unwrap_eq {f : Formula} (normal : f.IsConjunctive) : f.unwrap = f := by
  cases normal with
  | literal negated name => rfl
  | clause row | conjunction row =>
      cases f with
      | single x => exact absurd row.several (by simp [isSingle])
      | chain => rfl

theorem IsWrapped.isConjunctive_unwrap {f : Formula} (wrapped : f.IsWrapped) :
    f.unwrap.IsConjunctive := by
  induction wrapped with
  | plain normal => rwa [normal.unwrap_eq]
  | wrapped _ ih => exact ih

end Formula

/-! ### What rows gather -/

theorem Operand.gather_of_isLiteralOr {c : Connective} {P : Formula → Prop} {x : Operand}
    (shape : x.IsLiteralOr P) (unopened : ∀ f, P f → f.links.all (· == c) = false) :
    x.gather c = [x] := by
  cases shape with
  | literal negated name => rfl
  | group holds => simp [gather, unopened _ holds]

/-- A reduced row is opened in a row of its own connective. -/
theorem Operand.gather_group_of_isReduced {c : Connective} {P : Formula → Prop} {f : Formula}
    (row : f.IsReduced c (IsLiteralOr P)) (unopened : ∀ g, P g → g.links.all (· == c) = false) :
    (group false f).gather c = f.operands := by
  have each : ∀ x ∈ f.operands, x.gather c = [x] :=
    fun x isOperand => gather_of_isLiteralOr (row.operands x isOperand).1 unopened
  have opened : f.links.all (· == c) = true := by rw [row.all_links, decide_eq_true rfl]
  rw [gather, Bool.not_false, Bool.true_and, if_pos opened, Formula.gather_eq_flatMap,
    List.flatMap_congr each, List.flatMap_singleton']

theorem Formula.IsClauseRow.not_conj (f : Formula) (row : f.IsClauseRow) :
    f.links.all (· == .conj) = false :=
  row.all_links

theorem Formula.gather_conj_group {f : Formula} (wrapped : f.IsWrapped) :
    ∀ y ∈ (Operand.group false f).gather .conj, y.IsLiteralOr IsClauseRow := by
  induction wrapped with
  | plain normal =>
      cases normal with
      | literal negated name =>
          simpa [Operand.gather, gather, links] using .literal negated name
      | clause row =>
          simpa [Operand.gather, row.all_links] using Operand.IsLiteralOr.group row
      | conjunction row =>
          rw [Operand.gather_group_of_isReduced row IsClauseRow.not_conj]
          exact fun x isOperand => (row.operands x isOperand).1
  | wrapped _ ih => simpa [Operand.gather, gather, links] using ih

theorem Formula.gather_disj_group {f : Formula} (wrapped : f.IsWrapped) :
    ∀ y ∈ (Operand.group false f).gather .disj, y.IsLiteralOr IsConjunctionRow := by
  induction wrapped with
  | plain normal =>
      cases normal with
      | literal negated name =>
          simpa [Operand.gather, gather, links] using .literal negated name
      | clause row =>
          rw [Operand.gather_group_of_isReduced row fun _ => False.elim]
          exact fun x isOperand => (row.operands x isOperand).1.mono fun _ => False.elim
      | conjunction row =>
          simpa [Operand.gather, row.all_links] using Operand.IsLiteralOr.group row
  | wrapped _ ih => simpa [Operand.gather, gather, links] using ih

/-- Every operand of a row contributes parts of one kind. -/
theorem Formula.forall_mem_gather {c : Connective} {P Q : Formula → Prop} {f : Formula}
    (operands : ∀ x ∈ f.operands, x.IsLiteralOr P)
    (groups : ∀ g, P g → ∀ y ∈ (Operand.group false g).gather c, y.IsLiteralOr Q) :
    ∀ y ∈ f.gather c, y.IsLiteralOr Q := by
  intro y gathered
  rw [gather_eq_flatMap] at gathered
  rcases List.mem_flatMap.1 gathered with ⟨x, isOperand, gathered⟩
  cases operands x isOperand with
  | literal negated name =>
      rw [Operand.gather, List.mem_singleton] at gathered
      exact gathered ▸ .literal negated name
  | group holds => exact groups _ holds y gathered

/-! ### Distributing -/

namespace Formula

theorem operands_mapOperands (change : Operand → Operand) (f : Formula) :
    (f.mapOperands change).operands = f.operands.map change := by
  cases f with
  | single x => rfl
  | chain x c rest => rw [mapOperands, operands, operands, operands_mapOperands, List.map_cons]

theorem links_mapOperands (change : Operand → Operand) (f : Formula) :
    (f.mapOperands change).links = f.links := by
  cases f with
  | single x => rfl
  | chain x c rest => rw [mapOperands, links, links, links_mapOperands]

theorem isRowOf_mapOperands {change : Operand → Operand} {c : Connective} {f : Formula} :
    (f.mapOperands change).IsRowOf c ↔ f.IsRowOf c := by
  rw [IsRowOf, IsRowOf, links_mapOperands]

/-- A disjunction of literals and clauses comes down to a literal or a clause. -/
theorem associate_disj_cases {f : Formula} (several : f.isSingle = false) (row : f.IsRowOf .disj)
    (operands : ∀ x ∈ f.operands, x.IsLiteralOr IsClauseRow) :
    (∃ negated name, f.associate = single (.symbol negated name)) ∨ f.associate.IsClauseRow := by
  have gathered : ∀ y ∈ f.gather .disj, y.IsLiteralOr fun _ => False :=
    forall_mem_gather operands fun g clause => by
      rw [Operand.gather_group_of_isReduced clause fun _ => False.elim]
      exact fun x isOperand => (clause.operands x isOperand).1
  rw [associate_of_isRowOf rfl several row]
  rcases simplify_cases gathered Operand.isLiteralOr_constant with ⟨x, shape, simplified⟩ | reduced
  · cases shape with
    | literal negated name => exact .inl ⟨negated, name, simplified⟩
    | group impossible => exact impossible.elim
  · exact .inr reduced

/-- A group that is simplified inside is a literal or a clause, if it was a disjunction of such. -/
theorem isLiteralOr_associateInside {f : Formula} (several : f.isSingle = false)
    (row : f.IsRowOf .disj) (operands : ∀ x ∈ f.operands, x.IsLiteralOr IsClauseRow) :
    (Operand.group false f).associateInside.IsLiteralOr IsClauseRow := by
  rw [Operand.associateInside]
  rcases associate_disj_cases several row operands with ⟨negated, name, simplified⟩ | reduced
  · rw [simplified]
    exact .literal negated name
  · split
    · exact .literal _ _
    · exact .group reduced

/-- A clause or a conjunction. -/
def IsConjunctiveRow (f : Formula) : Prop :=
  f.IsClauseRow ∨ f.IsConjunctionRow

theorem isLiteralOr_associate_disj {f : Formula} (several : f.isSingle = false)
    (row : f.IsRowOf .disj) (operands : ∀ x ∈ f.operands, x.IsLiteralOr IsClauseRow) :
    f.associate.toOperand.IsLiteralOr IsConjunctiveRow := by
  rcases associate_disj_cases several row operands with ⟨negated, name, simplified⟩ | reduced
  · rw [simplified]
    exact .literal negated name
  · rw [reduced.toOperand_eq]
    exact .group (.inl reduced)

/-- A conjunction of literals and clauses comes down to one of these, or to a conjunction. -/
theorem associate_conj_cases {f : Formula} (row : f.IsRowOf .conj)
    (operands : ∀ x ∈ f.operands, x.IsLiteralOr IsClauseRow) :
    (∃ x, x.IsLiteralOr IsClauseRow ∧ f.associate = single x) ∨ f.associate.IsConjunctionRow := by
  cases f with
  | single x => exact .inl ⟨x, operands x List.mem_cons_self, rfl⟩
  | chain x c rest =>
      rw [associate_of_isRowOf rfl rfl row]
      refine simplify_cases (forall_mem_gather operands fun g clause => ?_)
        Operand.isLiteralOr_constant
      rw [Operand.gather_of_isLiteralOr (.group clause) IsClauseRow.not_conj,
        List.forall_mem_singleton]
      exact .group clause

theorem isLiteralOr_associate_conj {f : Formula} (row : f.IsRowOf .conj)
    (operands : ∀ x ∈ f.operands, x.IsLiteralOr IsClauseRow) :
    f.associate.toOperand.IsLiteralOr IsConjunctiveRow := by
  rcases associate_conj_cases row operands with ⟨x, shape, simplified⟩ | reduced
  · rw [simplified]
    exact shape.mono fun _ => .inl
  · rw [reduced.toOperand_eq]
    exact .group (.inr reduced)

/-- The parts of a conjunction, and other operands themselves, are literals and clauses. -/
theorem isLiteralOr_of_mem_partsOf {x : Operand} (shape : x.IsLiteralOr IsConjunctiveRow) :
    ∀ y ∈ Rule.partsOf .conj x, y.IsLiteralOr IsClauseRow := by
  cases shape with
  | literal negated name => exact List.forall_mem_singleton.2 (.literal negated name)
  | group row =>
      rcases row with clause | conjunction
      · simp only [Rule.partsOf, Rule.operandsOf?, clause.all_links]
        exact List.forall_mem_singleton.2 (.group clause)
      · simp only [Rule.partsOf, Rule.operandsOf?, conjunction.all_links]
        exact fun y isPart => (conjunction.operands y isPart).1

theorem isLiteralOr_of_associateInside {x : Operand} (shape : x.IsLiteralOr IsClauseRow) :
    x.associateInside.IsLiteralOr IsClauseRow := by
  cases shape with
  | literal negated name => exact .literal negated name
  | group clause =>
      exact isLiteralOr_associateInside clause.several clause.row
        fun y isOperand => (clause.operands y isOperand).1.mono fun _ => False.elim

/-- The disjunction of operands in conjunctive form is an operand in conjunctive form. -/
theorem isLiteralOr_disjoin {x y : Operand} (left : x.IsLiteralOr IsConjunctiveRow)
    (right : y.IsLiteralOr IsConjunctiveRow) : (disjoin x y).IsLiteralOr IsConjunctiveRow := by
  have leftParts := isLiteralOr_of_mem_partsOf left
  have rightParts := isLiteralOr_of_mem_partsOf right
  rw [disjoin]
  rcases Rule.distributeOver_cases .disj .conj x y with
    ⟨noLeft, noRight, same⟩ | ⟨first, rest, pairs, distributed⟩
  · have leftPart : x ∈ Rule.partsOf .conj x := by simp [Rule.partsOf, noLeft]
    have rightPart : y ∈ Rule.partsOf .conj y := by simp [Rule.partsOf, noRight]
    rw [same]
    apply isLiteralOr_associate_disj rfl
    · exact isRowOf_mapOperands.2 (by simp [pair])
    · rw [operands_mapOperands, List.forall_mem_map]
      refine List.forall_mem_cons.2 ⟨?_, List.forall_mem_singleton.2 ?_⟩
      · exact isLiteralOr_of_associateInside (leftParts x leftPart)
      · exact isLiteralOr_of_associateInside (rightParts y rightPart)
  · rw [distributed]
    apply isLiteralOr_associate_conj (isRowOf_mapOperands.2 (isRowOf_join _ _ _))
    rw [operands_mapOperands, List.forall_mem_map, operands_join, ← pairs]
    intro z isPair
    simp only [Rule.pairings, List.mem_flatMap, List.mem_map] at isPair
    rcases isPair with ⟨a, isLeft, b, isRight, rfl⟩
    apply isLiteralOr_associateInside rfl (by simp [pair])
    exact List.forall_mem_cons.2 ⟨leftParts a isLeft, List.forall_mem_singleton.2
      (rightParts b isRight)⟩

theorem isLiteralOr_foldl_disjoin {first : Operand} {rest : List Operand}
    (shapes : ∀ x ∈ first :: rest, x.IsLiteralOr IsConjunctiveRow) :
    (rest.foldl disjoin first).IsLiteralOr IsConjunctiveRow := by
  induction rest generalizing first with
  | nil => exact shapes first List.mem_cons_self
  | cons second rest ih =>
      rcases List.forall_mem_cons.1 shapes with ⟨firstShape, restShapes⟩
      rcases List.forall_mem_cons.1 restShapes with ⟨secondShape, restShapes⟩
      exact ih (List.forall_mem_cons.2 ⟨isLiteralOr_disjoin firstShape secondShape, restShapes⟩)

theorem IsWrapped.literal (negated : Bool) (name : String) :
    (single (.symbol negated name)).IsWrapped :=
  .plain (.literal negated name)

end Formula

end Entail
