import Entail.Proofs.Formula.Evaluation

/-!
# Uniform formulas

A row that uses one connective only has a value that does not depend on how it
is grouped: a row of disjunctions is true if one of its operands is, a row of
conjunctions is false if one of its operands is.  A formula is uniform if all
of its rows are of this kind, those of its groups included.
-/

namespace Entail

namespace Connective

/-- One operand decides a conjunction or disjunction if it has the dominant value. -/
theorem apply_eq_dominant_iff {c : Connective} (junction : c.isJunction = true) (a b : Bool) :
    c.apply a b = c.dominant ↔ a = c.dominant ∨ b = c.dominant := by
  cases c <;> cases a <;> cases b <;> simp_all [isJunction, apply, dominant]

/-- A value is known from whether it is dominant. -/
theorem eq_of_dominant_iff {c : Connective} {a b : Bool}
    (same : a = c.dominant ↔ b = c.dominant) : a = b := by
  cases a <;> cases b <;> cases value : c.dominant <;> simp_all

@[simp]
theorem dominant_conj : conj.dominant = false :=
  rfl

@[simp]
theorem dominant_disj : disj.dominant = true :=
  rfl

/-- The dominant value decides a conjunction or disjunction, the other one leaves it to the other
operand. -/
theorem apply_dominant_left {c : Connective} (junction : c.isJunction = true) (b : Bool) :
    c.apply c.dominant b = c.dominant := by
  cases c <;> simp_all [isJunction, apply, dominant]

theorem apply_comm {c : Connective} (junction : c.isJunction = true) (a b : Bool) :
    c.apply a b = c.apply b a := by
  cases c <;> cases a <;> cases b <;> simp_all [isJunction, apply]

theorem apply_not_dominant_left {c : Connective} (junction : c.isJunction = true) (b : Bool) :
    c.apply (!c.dominant) b = b := by
  cases c <;> simp_all [isJunction, apply, dominant]

theorem apply_self {c : Connective} (junction : c.isJunction = true) (a : Bool) :
    c.apply a a = a := by
  cases c <;> simp_all [isJunction, apply]

theorem apply_not {c : Connective} (junction : c.isJunction = true) (a : Bool) :
    c.apply a (!a) = c.dominant := by
  cases c <;> simp_all [isJunction, apply, dominant]

end Connective

@[simp]
theorem Operand.eval_group (v : Valuation) (negated : Bool) (content : Formula) :
    (group negated content).eval v = (content.eval v != negated) :=
  rfl

namespace Formula

/-- All connectives of the row are `c`. -/
def IsRowOf (c : Connective) (f : Formula) : Prop :=
  ∀ d ∈ f.links, d = c

@[simp]
theorem all_links_iff {c : Connective} {f : Formula} :
    f.links.all (· == c) = true ↔ f.IsRowOf c := by
  simp [IsRowOf]

@[simp]
theorem isRowOf_single (c : Connective) (x : Operand) : (single x).IsRowOf c :=
  List.forall_mem_nil _

@[simp]
theorem isRowOf_chain {c d : Connective} {x : Operand} {rest : Formula} :
    (chain x d rest).IsRowOf c ↔ d = c ∧ rest.IsRowOf c := by
  simp [IsRowOf, links]

@[simp]
theorem isRowOf_join (c : Connective) (first : Operand) (rest : List Operand) :
    (join c first rest).IsRowOf c := by
  intro d isLink
  rw [links_join] at isLink
  exact List.eq_of_mem_replicate isLink

theorem operands_ne_nil (f : Formula) : f.operands ≠ [] := by
  cases f <;> simp [operands]

@[simp]
theorem operands_append (c : Connective) (f g : Formula) :
    (f.append c g).operands = f.operands ++ g.operands := by
  match f with
  | single x => rfl
  | chain x d rest => simp [append, operands, operands_append c rest g]

@[simp]
theorem links_append (c : Connective) (f g : Formula) :
    (f.append c g).links = f.links ++ c :: g.links := by
  match f with
  | single x => rfl
  | chain x d rest => simp [append, links, links_append c rest g]

theorem names_eq_flatMap (f : Formula) : f.names = f.operands.flatMap Operand.names := by
  match f with
  | single x => simp [names, operands]
  | chain x c rest => rw [names, operands, List.flatMap_cons, names_eq_flatMap rest]

theorem names_subset_of_mem_operands {f : Formula} {x : Operand} (isOperand : x ∈ f.operands) :
    x.names ⊆ f.names :=
  fun _ isName => f.names_eq_flatMap ▸ List.mem_flatMap.2 ⟨x, isOperand, isName⟩

@[simp]
theorem names_toOperand (f : Formula) : f.toOperand.names = f.names := by
  cases f <;> rfl

theorem isRowOf_append {c d : Connective} {f g : Formula} :
    (f.append d g).IsRowOf c ↔ d = c ∧ f.IsRowOf c ∧ g.IsRowOf c := by
  simp only [IsRowOf, links_append, List.forall_mem_append, List.forall_mem_cons]
  exact and_left_comm

/-! ### The value of a row -/

theorem evalWith_eq_dominant_iff {c : Connective} {f : Formula} {v : Valuation}
    (junction : c.isJunction = true) (row : f.IsRowOf c) (combine : Bool → Bool) :
    f.evalWith v combine = c.dominant ↔
      combine (f.head.eval v) = c.dominant ∨ ∃ x ∈ f.operands.tail, x.eval v = c.dominant := by
  match f with
  | single x => simp [evalWith, head, operands]
  | chain x d rest =>
      rcases isRowOf_chain.1 row with ⟨rfl, restRow⟩
      have opened : rest.operands = rest.head :: rest.operands.tail := by cases rest <;> rfl
      rw [evalWith, evalWith_eq_dominant_iff junction restRow,
        Connective.apply_eq_dominant_iff junction, or_assoc]
      rw [operands, List.tail_cons, opened, List.tail_cons]
      simp only [List.mem_cons, exists_eq_or_imp]
      rfl

/-- A row of conjunctions or of disjunctions has the dominant value exactly if one of its operands
has it. -/
theorem eval_eq_dominant_iff {c : Connective} {f : Formula} {v : Valuation}
    (junction : c.isJunction = true) (row : f.IsRowOf c) :
    f.eval v = c.dominant ↔ ∃ x ∈ f.operands, x.eval v = c.dominant := by
  rw [eval, evalWith_eq_dominant_iff junction row]
  cases f <;> simp [head, operands]

theorem eval_disj_iff {f : Formula} {v : Valuation} (row : f.IsRowOf .disj) :
    f.eval v = true ↔ ∃ x ∈ f.operands, x.eval v = true :=
  eval_eq_dominant_iff rfl row

theorem eval_conj_iff {f : Formula} {v : Valuation} (row : f.IsRowOf .conj) :
    f.eval v = true ↔ ∀ x ∈ f.operands, x.eval v = true := by
  rw [← Bool.not_eq_false, ← Connective.dominant_conj, eval_eq_dominant_iff rfl row]
  simp

@[simp]
theorem eval_single (v : Valuation) (x : Operand) : (single x).eval v = x.eval v :=
  rfl

@[simp]
theorem eval_pair (v : Valuation) (x : Operand) (c : Connective) (y : Operand) :
    (pair x c y).eval v = c.apply (x.eval v) (y.eval v) :=
  rfl

@[simp]
theorem eval_toOperand (v : Valuation) (f : Formula) : f.toOperand.eval v = f.eval v := by
  cases f <;> simp [toOperand]

end Formula

/-! ### Uniform formulas -/

mutual

/-- Every row of the operand uses one connective, and an allowed one. -/
def Operand.IsUniform (allowed : Connective → Prop) : Operand → Prop
  | .symbol _ _ => True
  | .group _ content => content.IsUniform allowed

/-- Every row of the formula uses one connective, and an allowed one. -/
def Formula.IsUniform (allowed : Connective → Prop) : Formula → Prop
  | .single x => x.IsUniform allowed
  | .chain x c rest =>
    allowed c ∧ rest.IsRowOf c ∧ x.IsUniform allowed ∧ rest.IsUniform allowed

end

namespace Formula

variable {allowed : Connective → Prop}

theorem isUniform_iff {f : Formula} : f.IsUniform allowed ↔
    (∀ c ∈ f.links, allowed c ∧ f.IsRowOf c) ∧ ∀ x ∈ f.operands, x.IsUniform allowed := by
  match f with
  | single x => simp [IsUniform, links, operands]
  | chain x c rest =>
      rw [IsUniform, isUniform_iff (f := rest)]
      simp only [links, operands, List.forall_mem_cons, isRowOf_chain]
      constructor
      · rintro ⟨isAllowed, row, first, -, operands⟩
        refine ⟨⟨⟨isAllowed, trivial, row⟩, fun d isLink => ?_⟩, first, operands⟩
        rcases row d isLink with rfl
        exact ⟨isAllowed, rfl, row⟩
      · rintro ⟨⟨⟨isAllowed, -, row⟩, links⟩, first, operands⟩
        exact ⟨isAllowed, row, first, fun d isLink => ⟨(links d isLink).1, (links d isLink).2.2⟩,
          operands⟩

theorem isUniform_join {c : Connective} {first : Operand} {rest : List Operand}
    (isAllowed : allowed c) (operands : ∀ x ∈ first :: rest, x.IsUniform allowed) :
    (join c first rest).IsUniform allowed := by
  refine isUniform_iff.2 ⟨fun d isLink => ?_, by rwa [operands_join]⟩
  rcases isRowOf_join c first rest d isLink with rfl
  exact ⟨isAllowed, isRowOf_join d first rest⟩

theorem isUniform_pair {x y : Operand} {c : Connective} :
    (pair x c y).IsUniform allowed ↔
      allowed c ∧ x.IsUniform allowed ∧ y.IsUniform allowed := by
  simp [pair, IsUniform]

theorem IsUniform.toOperand {f : Formula} (uniform : f.IsUniform allowed) :
    f.toOperand.IsUniform allowed := by
  cases f <;> exact uniform

end Formula

@[simp]
theorem Operand.isUniform_toggle {allowed : Connective → Prop} {x : Operand} :
    x.toggle.IsUniform allowed ↔ x.IsUniform allowed := by
  cases x <;> rfl

theorem Formula.IsUniform.negate {allowed : Connective → Prop} {f : Formula}
    (uniform : f.IsUniform allowed) : f.negate.IsUniform allowed := by
  cases f with
  | single x => exact Operand.isUniform_toggle.2 uniform
  | chain x c rest => exact uniform

mutual

theorem Operand.IsUniform.mono {allowed allowed' : Connective → Prop} {x : Operand}
    (uniform : x.IsUniform allowed) (weaker : ∀ c, allowed c → allowed' c) :
    x.IsUniform allowed' := by
  match x with
  | .symbol _ _ => trivial
  | .group _ content => exact Formula.IsUniform.mono (f := content) uniform weaker

theorem Formula.IsUniform.mono {allowed allowed' : Connective → Prop} {f : Formula}
    (uniform : f.IsUniform allowed) (weaker : ∀ c, allowed c → allowed' c) :
    f.IsUniform allowed' := by
  match f with
  | .single x => exact Operand.IsUniform.mono (x := x) uniform weaker
  | .chain x c rest =>
      rcases uniform with ⟨isAllowed, row, first, restUniform⟩
      exact ⟨weaker c isAllowed, row, first.mono weaker, restUniform.mono weaker⟩

end

end Entail
