import Entail.NormalForm.Rule
import Entail.Proofs.Formula.Uniform

/-!
# Rules keep the meaning

What a rule makes of two operands has the value that the connective gives to
theirs.  A conjunction or disjunction that is distributed over groups of its
dual is the dual row of all pairs of their operands.
-/

namespace Entail

namespace Connective

/-- A pair has the dominant value of the dual exactly if both of its parts have it. -/
theorem apply_eq_dominant_dual_iff {c dual : Connective} (isDual : c.dual? = some dual)
    (a b : Bool) : c.apply a b = dual.dominant ↔ a = dual.dominant ∧ b = dual.dominant := by
  cases c <;> cases isDual <;> cases a <;> cases b <;> simp [apply, dominant]

theorem exists_dual? {c : Connective} (junction : c.isJunction = true) :
    ∃ dual, c.dual? = some dual := by
  cases c with
  | conj | disj => exact ⟨_, rfl⟩
  | impl | iff => contradiction

theorem isJunction_of_dual? {c dual : Connective} (isDual : c.dual? = some dual) :
    dual.isJunction = true := by
  cases c <;> cases isDual <;> rfl

end Connective

namespace Rule

open Formula

/-- An implication that is exchanged for a disjunction, or the other way round, keeps the value. -/
theorem eval_implication (x : Operand) (c : Connective) (y : Operand) (v : Valuation) :
    (implication x c y).eval v = c.apply (x.eval v) (y.eval v) := by
  cases c with
  | conj | iff => exact eval_pair v x _ y
  | impl => simp [implication, Connective.apply]
  | disj =>
      rw [implication]
      split
      · exact eval_pair v x .disj y
      · split <;> simp [Connective.apply, Bool.or_comm]

/-- An equivalence holds if both sides are false or both are true. -/
theorem eval_biconditional (x : Operand) (c : Connective) (y : Operand) (v : Valuation) :
    (biconditional x c y).eval v = c.apply (x.eval v) (y.eval v) := by
  cases c with
  | conj | disj | impl => exact eval_pair v x _ y
  | iff =>
      cases first : x.eval v <;> cases second : y.eval v <;>
        simp [biconditional, Connective.apply, first, second]

/-- A constant that does not decide a conjunction or disjunction may be left out. -/
theorem apply_eval_of_truth? {c : Connective} (junction : c.isJunction = true) {x : Operand}
    (isConstant : x.truth?.isSome = true) (undecided : x.truth? ≠ some c.dominant) (v : Valuation)
    (b : Bool) : c.apply (x.eval v) b = b := by
  rcases Option.isSome_iff_exists.1 isConstant with ⟨value, found⟩
  have other : value = !c.dominant := by
    rw [Bool.eq_not]
    rintro rfl
    exact undecided found
  rw [Operand.eval_of_truth? found, other, Connective.apply_not_dominant_left junction]

/-- Two literals on one symbol are the same, or they are complements. -/
theorem eval_truthful_of_sameName {c : Connective} (junction : c.isJunction = true)
    {negated negated' : Bool} {name name' : String} (same : name = name') (v : Valuation) :
    (if negated = negated' then single (.symbol negated name)
      else single (.constant c.dominant)).eval v =
      c.apply ((Operand.symbol negated name).eval v) ((Operand.symbol negated' name').eval v) := by
  subst same
  split
  · next sameSign => rw [sameSign, eval_single, Connective.apply_self junction]
  · next otherSign =>
      rw [← Ne, ← Bool.not_eq] at otherSign
      have opposite : (Operand.symbol negated' name).eval v =
          !(Operand.symbol negated name).eval v := by
        rw [← otherSign, ← Operand.eval_toggle]
        rfl
      rw [eval_single, Operand.eval_constant, opposite, Connective.apply_not junction]

/-- Simplifying a pair of literals keeps the value. -/
theorem eval_truthful (x : Operand) (c : Connective) (y : Operand) (v : Valuation) :
    (truthful x c y).eval v = c.apply (x.eval v) (y.eval v) := by
  match x, y with
  | .group _ _, _ | .symbol _ _, .group _ _ => exact eval_pair v _ c _
  | .symbol negated name, .symbol negated' name' =>
      rw [truthful]
      cases junction : c.isJunction with
      | false => exact eval_pair v _ c _
      | true =>
          rw [Bool.not_true, if_neg Bool.false_ne_true]
          split
          · next decided =>
              rw [eval_single, Operand.eval_constant]
              rcases decided with isFirst | isSecond
              · rw [Operand.eval_of_truth? isFirst, Connective.apply_dominant_left junction]
              · rw [Connective.apply_comm junction, Operand.eval_of_truth? isSecond,
                  Connective.apply_dominant_left junction]
          · next undecided =>
              rw [not_or] at undecided
              split
              · next isFirst =>
                  rw [eval_single, apply_eval_of_truth? junction isFirst undecided.1]
              · split
                · next isSecond =>
                    rw [eval_single, Connective.apply_comm junction,
                      apply_eval_of_truth? junction isSecond undecided.2]
                · split
                  · next sameName => exact eval_truthful_of_sameName junction sameName v
                  · exact eval_pair v _ c _

/-- Replacing the first connective of a row keeps the value of the row. -/
theorem eval_mapHead_group {x : Operand} {c : Connective} {rest content : Formula} {v : Valuation}
    (same : content.eval v = c.apply (x.eval v) (rest.head.eval v)) :
    (rest.mapHead fun _ => .group false content).eval v = (chain x c rest).eval v := by
  rw [← Bool.bne_false (content.eval v)] at same
  cases rest with
  | single y => exact same
  | chain y d rest => exact congrArg (fun value => rest.evalWith v (d.apply value)) same

/-! ### Distribution -/

/-- The operands that an operand contributes to a distribution over `dual`. -/
def partsOf (dual : Connective) (x : Operand) : List Operand :=
  (operandsOf? dual x).getD [x]

theorem partsOf_ne_nil (dual : Connective) (x : Operand) : partsOf dual x ≠ [] := by
  unfold partsOf operandsOf?
  split
  · split
    · exact operands_ne_nil _
    · exact List.cons_ne_nil _ _
  · exact List.cons_ne_nil _ _

theorem exists_partsOf_iff {dual : Connective} (junction : dual.isJunction = true) (x : Operand)
    (v : Valuation) : (∃ y ∈ partsOf dual x, y.eval v = dual.dominant) ↔
      x.eval v = dual.dominant := by
  unfold partsOf operandsOf?
  split
  · next content =>
      split
      · next row =>
          rw [Option.getD_some, Operand.eval_group, Bool.bne_false,
            eval_eq_dominant_iff junction (all_links_iff.1 row)]
      · simp
  · simp

/-- A distribution is the pair itself, where neither side is a group of the dual, or the dual row of
all pairs of parts. -/
theorem distributeOver_cases (c dual : Connective) (x y : Operand) :
    (operandsOf? dual x = none ∧ operandsOf? dual y = none ∧
      distributeOver c dual x y = pair x c y) ∨
    ∃ first rest, pairings c (partsOf dual x) (partsOf dual y) = first :: rest ∧
      distributeOver c dual x y = join dual first rest := by
  unfold distributeOver
  split
  · next noLeft noRight => exact .inl ⟨noLeft, noRight, rfl⟩
  · have nonempty := pairings_ne_nil (c := c) (partsOf_ne_nil dual x) (partsOf_ne_nil dual y)
    unfold partsOf at nonempty ⊢
    split
    · next noPairs => exact absurd noPairs nonempty
    · next first rest pairs => exact .inr ⟨first, rest, pairs, rfl⟩

/-- Distributing keeps the value. -/
theorem eval_distributeOver {c dual : Connective} (isDual : c.dual? = some dual) (x y : Operand)
    (v : Valuation) : (distributeOver c dual x y).eval v = c.apply (x.eval v) (y.eval v) := by
  rcases distributeOver_cases c dual x y with ⟨_, _, same⟩ | ⟨first, rest, pairs, distributed⟩
  · rw [same, eval_pair]
  · have junction := Connective.isJunction_of_dual? isDual
    apply Connective.eq_of_dominant_iff (c := dual)
    rw [distributed, eval_eq_dominant_iff junction (isRowOf_join _ _ _), operands_join, ← pairs,
      Connective.apply_eq_dominant_dual_iff isDual, ← exists_partsOf_iff junction x v,
      ← exists_partsOf_iff junction y v]
    simp only [pairings, List.mem_flatMap, List.mem_map]
    constructor
    · rintro ⟨_, ⟨a, isLeft, b, isRight, rfl⟩, isDominant⟩
      rw [Operand.eval_group, Bool.bne_false, eval_pair,
        Connective.apply_eq_dominant_dual_iff isDual] at isDominant
      exact ⟨⟨a, isLeft, isDominant.1⟩, b, isRight, isDominant.2⟩
    · rintro ⟨⟨a, isLeft, leftDominant⟩, b, isRight, rightDominant⟩
      refine ⟨_, ⟨a, isLeft, b, isRight, rfl⟩, ?_⟩
      rw [Operand.eval_group, Bool.bne_false, eval_pair,
        Connective.apply_eq_dominant_dual_iff isDual]
      exact ⟨leftDominant, rightDominant⟩

theorem names_of_mem_partsOf {dual : Connective} {x y : Operand} (isPart : y ∈ partsOf dual x) :
    y.names ⊆ x.names := by
  unfold partsOf operandsOf? at isPart
  split at isPart
  · next content =>
      split at isPart
      · exact names_subset_of_mem_operands isPart
      · rw [Option.getD_none, List.mem_singleton] at isPart
        exact isPart ▸ List.Subset.refl _
  · rw [Option.getD_none, List.mem_singleton] at isPart
    exact isPart ▸ List.Subset.refl _

/-- Distributing adds no names. -/
theorem names_distributeOver_subset (c dual : Connective) (x y : Operand) :
    (distributeOver c dual x y).names ⊆ x.names ++ y.names := by
  rcases distributeOver_cases c dual x y with ⟨_, _, same⟩ | ⟨first, rest, pairs, distributed⟩
  · rw [same]
    exact List.Subset.refl _
  · intro name isName
    rw [distributed, names_eq_flatMap, operands_join, ← pairs] at isName
    simp only [pairings, List.mem_flatMap, List.mem_map] at isName
    rcases isName with ⟨_, ⟨a, isLeft, b, isRight, rfl⟩, isName⟩
    rcases List.mem_append.1 isName with isName | isName
    · exact List.mem_append_left _ (names_of_mem_partsOf isLeft isName)
    · exact List.mem_append_right _ (names_of_mem_partsOf isRight isName)

end Rule

end Entail
