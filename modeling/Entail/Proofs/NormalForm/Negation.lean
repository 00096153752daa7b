import Entail.NormalForm.Negation
import Entail.Proofs.NormalForm.Elimination
import Entail.Proofs.Outcome

/-!
# Negations pushed inward

Under a negation a row of conjunctions reads as a row of disjunctions of the
negated operands.  Without arrows, negations can always be pushed inward, and
what results means the same.  A formula that flattens to a row of one kind of
connective means what this row means.
-/

namespace Entail

namespace Connective

@[simp]
theorem dualIf_dualIf (flip : Bool) (c : Connective) : (c.dualIf flip).dualIf flip = c := by
  cases flip <;> cases c <;> rfl

theorem dualIf_eq_iff {flip : Bool} {c d : Connective} : c.dualIf flip = d ↔ c = d.dualIf flip := by
  constructor
  · rintro rfl
    rw [dualIf_dualIf]
  · rintro rfl
    rw [dualIf_dualIf]

theorem dominant_dualIf {flip : Bool} {c : Connective} (junction : c.isJunction = true) :
    (c.dualIf flip).dominant = (c.dominant != flip) := by
  cases flip <;> cases c <;> first | rfl | contradiction

theorem isJunction_dualIf {flip : Bool} {c : Connective} (junction : c.isJunction = true) :
    (c.dualIf flip).isJunction = true := by
  cases flip <;> cases c <;> simp_all [dualIf, dual?, isJunction]

/-- A connective under a negation applied to negated values gives the negated value. -/
theorem apply_dualIf {flip : Bool} {c : Connective} (junction : c.isJunction = true) (a b : Bool) :
    (c.dualIf flip).apply (a != flip) (b != flip) = (c.apply a b != flip) := by
  cases flip <;> cases c <;> cases a <;> cases b <;> simp_all [dualIf, dual?, isJunction, apply]

end Connective

namespace Formula

/-- What decides a row, read under a negation or not, is an operand that reads as the deciding
value. -/
theorem eval_bne_iff {flip : Bool} {c : Connective} {f : Formula} {v : Valuation}
    (junction : c.isJunction = true) (row : f.IsRowOf (c.dualIf flip)) :
    (f.eval v != flip) = c.dominant ↔ ∃ x ∈ f.operands, (x.eval v != flip) = c.dominant := by
  have reads (value : Bool) :
      (value != flip) = c.dominant ↔ value = (c.dualIf flip).dominant := by
    rw [Connective.dominant_dualIf junction]
    cases value <;> cases flip <;> cases c.dominant <;> decide
  simp only [reads]
  exact eval_eq_dominant_iff (Connective.isJunction_dualIf junction) row

end Formula

/-! ### Negation normal forms -/

mutual

/-- No group of the operand is negated, itself included. -/
def Operand.IsNegationNormal : Operand → Prop
  | .symbol _ _ => True
  | .group negated content => negated = false ∧ content.IsNegationNormal

/-- No group of the formula is negated. -/
def Formula.IsNegationNormal : Formula → Prop
  | .single x => x.IsNegationNormal
  | .chain x _ rest => x.IsNegationNormal ∧ rest.IsNegationNormal

end

theorem Formula.HasDuals.isJunction {f : Formula} (duals : f.HasDuals) :
    ∀ c ∈ f.links, c.isJunction = true := by
  match f with
  | .single x => exact List.forall_mem_nil _
  | .chain x c rest => exact List.forall_mem_cons.2 ⟨duals.2.1, duals.2.2.isJunction⟩

/-- De Morgan's law applies to rows of conjunctions and disjunctions, in any order. -/
theorem Formula.requireDual_eq_ok_iff {f : Formula} :
    f.requireDual = .ok () ↔ ∀ c ∈ f.links, c.isJunction = true := by
  rw [requireDual]
  split
  · next c found =>
      have isArrow := List.find?_some found
      refine iff_of_false (by simp) fun junctions => ?_
      simp [Connective.isArrow, junctions c (List.mem_of_find?_eq_some found)] at isArrow
  · next none =>
      refine iff_of_true rfl fun c isLink => ?_
      simpa [Connective.isArrow] using List.find?_eq_none.1 none c isLink

theorem Formula.requireDual_of_hasDuals {f : Formula} (duals : f.HasDuals) :
    f.requireDual = .ok () :=
  requireDual_eq_ok_iff.2 duals.isJunction

mutual

/-- Without arrows, negations can be pushed inward. -/
theorem Operand.exists_pushNegation {x : Operand} (duals : x.HasDuals) (flip : Bool) :
    ∃ y, x.pushNegation flip = .ok y := by
  match x with
  | .symbol negated name => exact ⟨_, rfl⟩
  | .group negated content =>
      rcases Formula.exists_pushNegation duals (negated != flip) with ⟨inner, pushed⟩
      refine ⟨.group false inner, ?_⟩
      rw [Operand.pushNegation, Formula.requireDual_of_hasDuals duals, pushed]
      cases negated != flip <;> rfl

theorem Formula.exists_pushNegation {f : Formula} (duals : f.HasDuals) (flip : Bool) :
    ∃ g, f.pushNegation flip = .ok g := by
  match f with
  | .single x =>
      rcases Operand.exists_pushNegation duals flip with ⟨y, pushed⟩
      exact ⟨.single y, by rw [Formula.pushNegation, pushed]; rfl⟩
  | .chain x c rest =>
      rcases Operand.exists_pushNegation duals.1 flip with ⟨y, pushed⟩
      rcases Formula.exists_pushNegation duals.2.2 flip with ⟨tail, pushedRest⟩
      exact ⟨.chain y (c.dualIf flip) tail, by rw [Formula.pushNegation, pushed, pushedRest]; rfl⟩

end

theorem Operand.exists_of_pushNegation_group {flip negated : Bool} {content : Formula}
    {y : Operand} (pushed : (group negated content).pushNegation flip = .ok y) :
    ∃ inner, content.pushNegation (negated != flip) = .ok inner ∧ y = group false inner := by
  rw [pushNegation] at pushed
  split at pushed
  · rcases bind_eq_ok_iff.1 pushed with ⟨_, _, pushed⟩
    rcases bind_eq_ok_iff.1 pushed with ⟨inner, pushedInner, made⟩
    cases made
    exact ⟨inner, pushedInner, rfl⟩
  · rcases bind_eq_ok_iff.1 pushed with ⟨inner, pushedInner, made⟩
    cases made
    exact ⟨inner, pushedInner, rfl⟩

theorem Formula.exists_of_pushNegation_single {flip : Bool} {x : Operand} {g : Formula}
    (pushed : (single x).pushNegation flip = .ok g) :
    ∃ y, x.pushNegation flip = .ok y ∧ g = single y := by
  rcases bind_eq_ok_iff.1 pushed with ⟨y, pushedOperand, made⟩
  cases made
  exact ⟨y, pushedOperand, rfl⟩

theorem Formula.exists_of_pushNegation_chain {flip : Bool} {x : Operand} {c : Connective}
    {rest g : Formula} (pushed : (chain x c rest).pushNegation flip = .ok g) :
    ∃ y tail, x.pushNegation flip = .ok y ∧ rest.pushNegation flip = .ok tail ∧
      g = chain y (c.dualIf flip) tail := by
  rcases bind_eq_ok_iff.1 pushed with ⟨y, pushedFirst, pushed⟩
  rcases bind_eq_ok_iff.1 pushed with ⟨tail, pushedRest, made⟩
  cases made
  exact ⟨y, tail, pushedFirst, pushedRest, rfl⟩

mutual

theorem Operand.isNegationNormal_pushNegation {flip : Bool} {x y : Operand}
    (pushed : x.pushNegation flip = .ok y) : y.IsNegationNormal := by
  match x with
  | .symbol negated name =>
      cases pushed
      trivial
  | .group negated content =>
      rcases Operand.exists_of_pushNegation_group pushed with ⟨inner, pushedInner, rfl⟩
      exact ⟨rfl, Formula.isNegationNormal_pushNegation pushedInner⟩

theorem Formula.isNegationNormal_pushNegation {flip : Bool} {f g : Formula}
    (pushed : f.pushNegation flip = .ok g) : g.IsNegationNormal := by
  match f with
  | .single x =>
      rcases Formula.exists_of_pushNegation_single pushed with ⟨y, pushedOperand, rfl⟩
      exact Operand.isNegationNormal_pushNegation pushedOperand
  | .chain x c rest =>
      rcases Formula.exists_of_pushNegation_chain pushed with ⟨y, tail, first, restPushed, rfl⟩
      exact ⟨Operand.isNegationNormal_pushNegation first,
        Formula.isNegationNormal_pushNegation restPushed⟩

end

mutual

theorem Operand.names_pushNegation {flip : Bool} {x y : Operand}
    (pushed : x.pushNegation flip = .ok y) : y.names = x.names := by
  match x with
  | .symbol negated name =>
      cases pushed
      rfl
  | .group negated content =>
      rcases Operand.exists_of_pushNegation_group pushed with ⟨inner, pushedInner, rfl⟩
      exact Formula.names_pushNegation pushedInner

theorem Formula.names_pushNegation {flip : Bool} {f g : Formula}
    (pushed : f.pushNegation flip = .ok g) : g.names = f.names := by
  match f with
  | .single x =>
      rcases Formula.exists_of_pushNegation_single pushed with ⟨y, pushedOperand, rfl⟩
      exact Operand.names_pushNegation pushedOperand
  | .chain x c rest =>
      rcases Formula.exists_of_pushNegation_chain pushed with ⟨y, tail, first, restPushed, rfl⟩
      rw [Formula.names, Formula.names, Operand.names_pushNegation first,
        Formula.names_pushNegation restPushed]

end

mutual

theorem Operand.isArrowFree_pushNegation {flip : Bool} {x y : Operand} (arrowFree : x.IsArrowFree)
    (pushed : x.pushNegation flip = .ok y) : y.IsArrowFree := by
  match x with
  | .symbol negated name =>
      cases pushed
      trivial
  | .group negated content =>
      rcases Operand.exists_of_pushNegation_group pushed with ⟨inner, pushedInner, rfl⟩
      exact (Formula.isArrowFree_pushNegation arrowFree pushedInner).1

theorem Formula.isArrowFree_pushNegation {flip : Bool} {f g : Formula} (arrowFree : f.IsArrowFree)
    (pushed : f.pushNegation flip = .ok g) :
    g.IsArrowFree ∧ ∀ c, f.IsRowOf c → g.IsRowOf (c.dualIf flip) := by
  match f with
  | .single x =>
      rcases Formula.exists_of_pushNegation_single pushed with ⟨y, pushedOperand, rfl⟩
      exact ⟨Operand.isArrowFree_pushNegation arrowFree pushedOperand,
        fun c _ => Formula.isRowOf_single _ y⟩
  | .chain x c rest =>
      rcases Formula.exists_of_pushNegation_chain pushed with ⟨y, tail, first, restPushed, rfl⟩
      rcases arrowFree with ⟨junction, row, firstFree, restFree⟩
      rcases Formula.isArrowFree_pushNegation restFree restPushed with ⟨tailFree, tailRow⟩
      constructor
      · exact ⟨Connective.isJunction_dualIf junction, tailRow c row,
          Operand.isArrowFree_pushNegation firstFree first, tailFree⟩
      · intro d isRow
        rcases Formula.isRowOf_chain.1 isRow with ⟨rfl, _⟩
        exact Formula.isRowOf_chain.2 ⟨rfl, tailRow c row⟩

end

mutual

/-- Where negations can be pushed inward, the value stays, or is negated with the whole. -/
theorem Operand.eval_pushNegation {flip : Bool} {x y : Operand} (arrowFree : x.IsArrowFree)
    (pushed : x.pushNegation flip = .ok y) (v : Valuation) : y.eval v = (x.eval v != flip) := by
  match x with
  | .symbol negated name =>
      cases pushed
      simp [Operand.eval]
  | .group negated content =>
      rcases Operand.exists_of_pushNegation_group pushed with ⟨inner, pushedInner, rfl⟩
      have means := Formula.evalWith_pushNegation arrowFree pushedInner v id id fun _ => rfl
      rw [Operand.eval_group, Operand.eval_group, Bool.bne_false, Formula.eval, means, Formula.eval]
      simp

theorem Formula.evalWith_pushNegation {flip : Bool} {f g : Formula} (arrowFree : f.IsArrowFree)
    (pushed : f.pushNegation flip = .ok g) (v : Valuation) (combine combine' : Bool → Bool)
    (same : ∀ value, combine' (value != flip) = (combine value != flip)) :
    g.evalWith v combine' = (f.evalWith v combine != flip) := by
  match f with
  | .single x =>
      rcases Formula.exists_of_pushNegation_single pushed with ⟨y, pushedOperand, rfl⟩
      rw [Formula.evalWith, Formula.evalWith, Operand.eval_pushNegation arrowFree pushedOperand v,
        same]
  | .chain x c rest =>
      rcases Formula.exists_of_pushNegation_chain pushed with ⟨y, tail, first, restPushed, rfl⟩
      rcases arrowFree with ⟨junction, _, firstFree, restFree⟩
      rw [Formula.evalWith, Formula.evalWith, Operand.eval_pushNegation firstFree first v, same]
      exact Formula.evalWith_pushNegation restFree restPushed v _ _
        fun value => Connective.apply_dualIf junction _ value

end

mutual

/-- Where no group is negated, there is no negation to push. -/
theorem Operand.pushNegation_of_isNegationNormal {x : Operand} (normal : x.IsNegationNormal) :
    x.pushNegation false = .ok x := by
  match x with
  | .symbol negated name => simp [Operand.pushNegation]
  | .group negated content =>
      rcases normal with ⟨rfl, contentNormal⟩
      rw [Operand.pushNegation, Bool.bne_false,
        Formula.pushNegation_of_isNegationNormal contentNormal]
      rfl

theorem Formula.pushNegation_of_isNegationNormal {f : Formula} (normal : f.IsNegationNormal) :
    f.pushNegation false = .ok f := by
  match f with
  | .single x =>
      rw [Formula.pushNegation, Operand.pushNegation_of_isNegationNormal normal]
      rfl
  | .chain x c rest =>
      rw [Formula.pushNegation, Operand.pushNegation_of_isNegationNormal normal.1,
        Formula.pushNegation_of_isNegationNormal normal.2]
      rfl

end

namespace Formula

/-- Without arrows, a formula has a negation normal form, which means the same. -/
theorem exists_negationNormal {f : Formula} (arrowFree : f.IsArrowFree) :
    ∃ g, f.negationNormal = .ok g ∧ g.IsArrowFree ∧ g.IsNegationNormal ∧ g.names = f.names ∧
      ∀ v, g.eval v = f.eval v := by
  rcases exists_pushNegation arrowFree.hasDuals false with ⟨g, pushed⟩
  refine ⟨g, pushed, (isArrowFree_pushNegation arrowFree pushed).1,
    isNegationNormal_pushNegation pushed, names_pushNegation pushed, fun v => ?_⟩
  rw [eval, evalWith_pushNegation arrowFree pushed v id id fun _ => rfl, Bool.bne_false, eval]

end Formula

/-! ### Rows of literals -/

theorem Operand.literalRow_of_group {flip negated : Bool} {content row : Formula}
    (flat : (group negated content).literalRow flip = .ok row) :
    content.literalRow (negated != flip) = .ok row := by
  rw [literalRow] at flat
  split at flat
  · rcases bind_eq_ok_iff.1 flat with ⟨_, _, flat⟩
    exact flat
  · exact flat

theorem Formula.exists_of_literalRow_chain {flip : Bool} {x : Operand} {c : Connective}
    {rest row : Formula} (flat : (chain x c rest).literalRow flip = .ok row) :
    ∃ first tail, x.literalRow flip = .ok first ∧ rest.literalRow flip = .ok tail ∧
      row = first.append (c.dualIf flip) tail := by
  rcases bind_eq_ok_iff.1 flat with ⟨first, flatFirst, flat⟩
  rcases bind_eq_ok_iff.1 flat with ⟨tail, flatTail, flat⟩
  cases flat
  exact ⟨first, tail, flatFirst, flatTail, rfl⟩

mutual

theorem Operand.isSymbol_of_literalRow {flip : Bool} {x : Operand} {row : Formula}
    (flat : x.literalRow flip = .ok row) : ∀ y ∈ row.operands, y.isSymbol = true := by
  match x with
  | .symbol negated name =>
      cases flat
      exact List.forall_mem_singleton.2 rfl
  | .group negated content =>
      exact Formula.isSymbol_of_literalRow (Operand.literalRow_of_group flat)

theorem Formula.isSymbol_of_literalRow {flip : Bool} {f row : Formula}
    (flat : f.literalRow flip = .ok row) : ∀ y ∈ row.operands, y.isSymbol = true := by
  match f with
  | .single x => exact Operand.isSymbol_of_literalRow (x := x) flat
  | .chain x c rest =>
      rcases Formula.exists_of_literalRow_chain flat with
        ⟨first, tail, flatFirst, flatTail, rfl⟩
      rw [Formula.operands_append, List.forall_mem_append]
      exact ⟨Operand.isSymbol_of_literalRow flatFirst, Formula.isSymbol_of_literalRow flatTail⟩

end

mutual

theorem Operand.names_literalRow {flip : Bool} {x : Operand} {row : Formula}
    (flat : x.literalRow flip = .ok row) : row.names = x.names := by
  match x with
  | .symbol negated name =>
      cases flat
      rfl
  | .group negated content =>
      exact Formula.names_literalRow (Operand.literalRow_of_group flat)

theorem Formula.names_literalRow {flip : Bool} {f row : Formula}
    (flat : f.literalRow flip = .ok row) : row.names = f.names := by
  match f with
  | .single x => exact Operand.names_literalRow (x := x) flat
  | .chain x c rest =>
      rcases Formula.exists_of_literalRow_chain flat with
        ⟨first, tail, flatFirst, flatTail, rfl⟩
      simp only [Formula.names_eq_flatMap, Formula.operands_append, List.flatMap_append,
        Formula.operands, List.flatMap_cons]
      simp only [← Formula.names_eq_flatMap, Operand.names_literalRow flatFirst,
        Formula.names_literalRow flatTail]

end

section Value

variable {c : Connective}

mutual

/-- A row of one kind of connective that an operand flattens to is decided by what decides the
operand. -/
theorem Operand.eval_literalRow {flip : Bool} {x : Operand} {row : Formula}
    (flat : x.literalRow flip = .ok row) (junction : c.isJunction = true) (isRow : row.IsRowOf c)
    (v : Valuation) :
    (∃ y ∈ row.operands, y.eval v = c.dominant) ↔ (x.eval v != flip) = c.dominant := by
  match x with
  | .symbol negated name =>
      cases flat
      cases negated <;> cases flip <;> simp [Formula.operands, Operand.eval]
  | .group negated content =>
      rcases Formula.eval_literalRow (Operand.literalRow_of_group flat) junction isRow v with
        ⟨contentRow, means⟩
      rw [means, ← Formula.eval_bne_iff junction contentRow, Operand.eval_group]
      cases negated <;> cases flip <;> simp

/-- Where a row flattens to a row of one kind of connective, it reads as one. -/
theorem Formula.eval_literalRow {flip : Bool} {f row : Formula}
    (flat : f.literalRow flip = .ok row) (junction : c.isJunction = true) (isRow : row.IsRowOf c)
    (v : Valuation) :
    f.IsRowOf (c.dualIf flip) ∧ ((∃ y ∈ row.operands, y.eval v = c.dominant) ↔
      ∃ x ∈ f.operands, (x.eval v != flip) = c.dominant) := by
  match f with
  | .single x =>
      refine ⟨Formula.isRowOf_single _ x, ?_⟩
      rw [Operand.eval_literalRow (x := x) flat junction isRow v]
      simp [Formula.operands]
  | .chain x d rest =>
      rcases Formula.exists_of_literalRow_chain flat with
        ⟨first, tail, flatFirst, flatTail, rfl⟩
      rcases Formula.isRowOf_append.1 isRow with ⟨link, firstRow, tailRow⟩
      rcases Formula.eval_literalRow flatTail junction tailRow v with ⟨restRow, restMeans⟩
      have firstMeans := Operand.eval_literalRow flatFirst junction firstRow v
      refine ⟨Formula.isRowOf_chain.2 ⟨Connective.dualIf_eq_iff.1 link, restRow⟩, ?_⟩
      simp only [Formula.operands_append, List.mem_append, or_and_right, exists_or, firstMeans,
        restMeans, Formula.operands, List.mem_cons, exists_eq_left]

end

/-- A formula that flattens to a row of one kind of connective means what the row means. -/
theorem Formula.eval_flatten {f row : Formula} (flat : f.flatten = .ok row)
    (junction : c.isJunction = true) (isRow : row.IsRowOf c) (v : Valuation) :
    row.eval v = f.eval v := by
  rcases eval_literalRow flat junction isRow v with ⟨isRow', means⟩
  apply Connective.eq_of_dominant_iff (c := c)
  rw [eval_eq_dominant_iff junction isRow, means, ← eval_bne_iff junction isRow', Bool.bne_false]

end Value

end Entail
