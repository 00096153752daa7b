import Mathlib.Data.List.Nodup
import Entail.NormalForm.Associate
import Entail.Proofs.Formula.Printing

/-!
# Simplified rows

Simplification keeps the value of a row: operands of one key have the same
value, or opposite ones where they differ in sign, so that a pair of
complements decides the row.  What is left is a single operand, or a row whose
operands have different keys and are no constants; on such a row simplification
has nothing to do.
-/

namespace Entail

namespace Operand

/-! ### Keys -/

theorem toList_key (x : Operand) : x.key.toList = x.body := by
  cases x <;> simp [key, body, Formula.text]

@[simp]
theorem key_toggle (x : Operand) : x.toggle.key = x.key := by
  cases x <;> rfl

@[simp]
theorem negated_toggle (x : Operand) : x.toggle.negated = !x.negated := by
  cases x <;> rfl

@[simp]
theorem toggle_toggle (x : Operand) : x.toggle.toggle = x := by
  cases x <;> simp [toggle]

theorem IsUnmarked.toggle {x : Operand} (unmarked : x.IsUnmarked) : x.toggle.IsUnmarked := by
  rwa [IsUnmarked, names_toggle]

/-- An operand is known from its key and its sign. -/
theorem eq_of_key_eq {x y : Operand} (unmarked : x.IsUnmarked) (unmarked' : y.IsUnmarked)
    (sameKey : x.key = y.key) (sameSign : x.negated = y.negated) : x = y := by
  have sameBody : x.body = y.body := by
    rw [← toList_key, sameKey, toList_key]
  have same : x.chars ++ [] = y.chars ++ [] := by
    rw [chars_eq, chars_eq, sameSign, sameBody]
  exact (chars_append_inj unmarked unmarked' (by simp [EndsOperand]) (by simp [EndsOperand]) same).1

/-- An operand of the same key and the other sign is the complement. -/
theorem eq_toggle_of_key_eq {x y : Operand} (unmarked : x.IsUnmarked) (unmarked' : y.IsUnmarked)
    (sameKey : x.key = y.key) (otherSign : x.negated ≠ y.negated) : x = y.toggle := by
  apply eq_of_key_eq unmarked unmarked'.toggle
  · rw [key_toggle, sameKey]
  · rw [negated_toggle, Bool.eq_not]
    exact otherSign

/-! ### Merging -/

/-- The operand that stands for those of one key decides a row exactly if one of them does. -/
theorem eval_merge {c : Connective} {first : Operand} {rest : List Operand}
    (unmarked : ∀ x ∈ first :: rest, x.IsUnmarked) (sameKey : ∀ x ∈ rest, x.key = first.key)
    (v : Valuation) : (merge c first rest).eval v = c.dominant ↔
      ∃ x ∈ first :: rest, x.eval v = c.dominant := by
  rcases List.forall_mem_cons.1 unmarked with ⟨firstUnmarked, restUnmarked⟩
  rw [merge]
  split
  · next sameSign =>
      have allSame : ∀ x ∈ rest, x = first := by
        intro x isRest
        have sign := List.all_eq_true.1 sameSign x isRest
        exact eq_of_key_eq (restUnmarked x isRest) firstUnmarked (sameKey x isRest)
          (by simpa using sign)
      simp only [List.mem_cons, exists_eq_or_imp]
      constructor
      · exact .inl
      · rintro (isDominant | ⟨x, isRest, isDominant⟩)
        · exact isDominant
        · rwa [← allSame x isRest]
  · next differs =>
      have complement : ∃ x ∈ rest, x = first.toggle := by
        simp only [List.all_eq_true, not_forall] at differs
        rcases differs with ⟨x, isRest, otherSign⟩
        exact ⟨x, isRest, eq_toggle_of_key_eq (restUnmarked x isRest) firstUnmarked
          (sameKey x isRest) (by simpa using otherSign)⟩
      rcases complement with ⟨_, isRest, rfl⟩
      refine iff_of_true (eval_constant v c.dominant) ?_
      by_cases isDominant : first.eval v = c.dominant
      · exact ⟨first, List.mem_cons_self, isDominant⟩
      · exact ⟨first.toggle, List.mem_cons_of_mem _ isRest,
          by rw [eval_toggle, Bool.not_eq.2 isDominant]⟩

/-- Merging keeps whether an operand decides the row. -/
theorem exists_mergeByKey_iff {c : Connective} {operands : List Operand}
    (unmarked : ∀ x ∈ operands, x.IsUnmarked) (v : Valuation) :
    (∃ x ∈ mergeByKey c operands, x.eval v = c.dominant) ↔
      ∃ x ∈ operands, x.eval v = c.dominant := by
  match operands with
  | [] => simp [mergeByKey]
  | first :: rest =>
      rcases List.forall_mem_cons.1 unmarked with ⟨firstUnmarked, restUnmarked⟩
      have shorter := List.length_filter_le (·.key != first.key) rest
      have sameUnmarked : ∀ x ∈ first :: rest.filter (·.key == first.key), x.IsUnmarked :=
        List.forall_mem_cons.2 ⟨firstUnmarked,
          fun x isSame => restUnmarked x (List.mem_of_mem_filter isSame)⟩
      have sameKey : ∀ x ∈ rest.filter (·.key == first.key), x.key = first.key := by
        intro x isSame
        simpa using (List.mem_filter.1 isSame).2
      have otherUnmarked : ∀ x ∈ rest.filter (·.key != first.key), x.IsUnmarked :=
        fun x isOther => restUnmarked x (List.mem_of_mem_filter isOther)
      have others := exists_mergeByKey_iff (c := c) otherUnmarked v
      rw [mergeByKey]
      simp only [List.mem_cons, exists_eq_or_imp, eval_merge sameUnmarked sameKey, others,
        List.mem_filter]
      grind
termination_by operands.length

/-- What is merged are operands of the list and constants. -/
theorem forall_mergeByKey {P : Operand → Prop} (constant : ∀ value, P (constant value))
    {c : Connective} {operands : List Operand} (all : ∀ x ∈ operands, P x) :
    ∀ x ∈ mergeByKey c operands, P x := by
  match operands with
  | [] => simp [mergeByKey]
  | first :: rest =>
      rcases List.forall_mem_cons.1 all with ⟨firstHolds, restHolds⟩
      have shorter := List.length_filter_le (·.key != first.key) rest
      rw [mergeByKey, List.forall_mem_cons]
      constructor
      · rw [merge]
        split
        · exact firstHolds
        · exact constant _
      · exact forall_mergeByKey constant
          fun x isOther => restHolds x (List.mem_of_mem_filter isOther)
termination_by operands.length

/-- The operands of a merged list that are no constants have different keys. -/
theorem nodup_key_mergeByKey (c : Connective) (operands : List Operand) :
    (((mergeByKey c operands).filter (·.truth?.isNone)).map key).Nodup := by
  match operands with
  | [] => simp [mergeByKey]
  | first :: rest =>
      have shorter := List.length_filter_le (·.key != first.key) rest
      have others := nodup_key_mergeByKey c (rest.filter (·.key != first.key))
      rw [mergeByKey, List.filter_cons]
      split
      · next variable' =>
          have isFirst : merge c first (rest.filter (·.key == first.key)) = first := by
            rw [merge] at variable' ⊢
            split
            · rfl
            · next differs =>
                rw [if_neg differs] at variable'
                simp at variable'
          rw [isFirst, List.map_cons, List.nodup_cons]
          refine ⟨?_, others⟩
          rw [List.mem_map]
          rintro ⟨x, isMerged, sameKey⟩
          have otherKeys : ∀ x ∈ rest.filter (·.key != first.key),
              x.truth? = none → x.key ≠ first.key :=
            fun x isOther _ => by simpa using (List.mem_filter.1 isOther).2
          have fresh := forall_mergeByKey (c := c) (by simp) otherKeys
          rcases List.mem_filter.1 isMerged with ⟨isMerged, isVariable⟩
          exact fresh x isMerged (by simpa using isVariable) sameKey
      · exact others
termination_by operands.length

/-- A list of operands with different keys is left as it is. -/
theorem mergeByKey_of_nodup {c : Connective} {operands : List Operand}
    (distinct : (operands.map key).Nodup) : mergeByKey c operands = operands := by
  match operands with
  | [] => simp [mergeByKey]
  | first :: rest =>
      rw [List.map_cons, List.nodup_cons] at distinct
      rcases distinct with ⟨fresh, restDistinct⟩
      have others : ∀ x ∈ rest, x.key ≠ first.key := by
        rintro x isRest sameKey
        exact fresh (List.mem_map.2 ⟨x, isRest, sameKey⟩)
      have noneSame : rest.filter (·.key == first.key) = [] := by
        simpa [List.filter_eq_nil_iff] using others
      have allOther : rest.filter (·.key != first.key) = rest := by
        simpa [List.filter_eq_self] using others
      rw [mergeByKey, noneSame, allOther, mergeByKey_of_nodup restDistinct]
      rfl

end Operand

namespace Formula

/-! ### Simplifying -/

/-- A row of `c` with several operands that have the property, are no constants and have different
keys. -/
structure IsReduced (c : Connective) (P : Operand → Prop) (f : Formula) : Prop where
  several : f.isSingle = false
  row : f.IsRowOf c
  operands : ∀ x ∈ f.operands, P x ∧ x.truth? = none
  distinct : (f.operands.map Operand.key).Nodup

variable {c : Connective} {operands : List Operand} {P : Operand → Prop}

/-- A simplified row is decided exactly if one of the operands decides it. -/
theorem eval_simplify (junction : c.isJunction = true)
    (unmarked : ∀ x ∈ operands, x.IsUnmarked) (v : Valuation) :
    (simplify c operands).eval v = c.dominant ↔ ∃ x ∈ operands, x.eval v = c.dominant := by
  rw [← Operand.exists_mergeByKey_iff unmarked, simplify]
  generalize Operand.mergeByKey c operands = merged
  split
  · next decided =>
      rcases List.any_eq_true.1 decided with ⟨x, isMerged, isDominant⟩
      exact iff_of_true (by simp)
        ⟨x, isMerged, Operand.eval_of_truth? (by simpa using isDominant) v⟩
  · next undecided =>
      have kept : (∃ x ∈ merged, x.eval v = c.dominant) ↔
          ∃ x ∈ merged.filter (·.truth?.isNone), x.eval v = c.dominant := by
        refine ⟨?_, fun ⟨x, isKept, isDominant⟩ => ⟨x, List.mem_of_mem_filter isKept, isDominant⟩⟩
        rintro ⟨x, isMerged, isDominant⟩
        refine ⟨x, List.mem_filter.2 ⟨isMerged, ?_⟩, isDominant⟩
        cases isConstant : x.truth? with
        | none => rfl
        | some value =>
            have decides : value = c.dominant := by
              rw [← Operand.eval_of_truth? isConstant v, isDominant]
            exact absurd (List.any_eq_true.2 ⟨x, isMerged, by simp [isConstant, decides]⟩) undecided
      rw [kept]
      split
      · next noneLeft => simp [noneLeft]
      · next first rest left =>
          rw [left, eval_eq_dominant_iff junction (isRowOf_join c first rest), operands_join]

/-- What a simplified row is: a constant, an operand, or a reduced row. -/
theorem simplify_cases (all : ∀ x ∈ operands, P x) (constant : ∀ value, P (.constant value)) :
    (∃ x, P x ∧ simplify c operands = single x) ∨ (simplify c operands).IsReduced c P := by
  have merged := Operand.forall_mergeByKey constant (c := c) all
  have distinct := Operand.nodup_key_mergeByKey c operands
  rw [simplify]
  generalize Operand.mergeByKey c operands = merged' at merged distinct
  split
  · exact .inl ⟨_, constant _, rfl⟩
  · split
    · exact .inl ⟨_, constant _, rfl⟩
    · next first rest left =>
        have kept : ∀ x ∈ first :: rest, P x ∧ x.truth? = none := by
          intro x isKept
          rw [← left, List.mem_filter] at isKept
          exact ⟨merged x isKept.1, by simpa using isKept.2⟩
        cases rest with
        | nil => exact .inl ⟨first, (kept first List.mem_cons_self).1, rfl⟩
        | cons second rest =>
            refine .inr ⟨rfl, isRowOf_join _ _ _, by rwa [operands_join], ?_⟩
            rwa [operands_join, ← left]

theorem forall_operands_simplify (all : ∀ x ∈ operands, P x)
    (constant : ∀ value, P (.constant value)) : ∀ x ∈ (simplify c operands).operands, P x := by
  rcases simplify_cases all constant with ⟨x, holds, simplified⟩ | reduced
  · rw [simplified]
    exact List.forall_mem_singleton.2 holds
  · exact fun x isOperand => (reduced.operands x isOperand).1

/-- Nothing is simplified among operands of different keys that are no constants. -/
theorem simplify_of_distinct {first : Operand} {rest : List Operand}
    (distinct : ((first :: rest).map Operand.key).Nodup)
    (noConstant : ∀ x ∈ first :: rest, x.truth? = none) :
    simplify c (first :: rest) = join c first rest := by
  have undecided : (first :: rest).any (·.truth? == some c.dominant) = false := by
    rw [List.any_eq_false]
    intro x isOperand
    simp [noConstant x isOperand]
  have allKept : (first :: rest).filter (·.truth?.isNone) = first :: rest := by
    rw [List.filter_eq_self]
    intro x isOperand
    simp [noConstant x isOperand]
  rw [simplify, Operand.mergeByKey_of_nodup distinct]
  simp only [undecided, allKept, Bool.false_eq_true, if_false]

/-- A row of one connective is known from its operands. -/
theorem join_operands {f : Formula} (row : f.IsRowOf c) {first : Operand} {rest : List Operand}
    (listed : f.operands = first :: rest) : join c first rest = f := by
  induction f using Formula.rec (motive_1 := fun _ => True) generalizing first rest with
  | symbol | group => trivial
  | single x =>
      cases listed
      rfl
  | chain x d f _ ih =>
      rcases isRowOf_chain.1 row with ⟨rfl, row⟩
      rw [operands, List.cons.injEq] at listed
      rcases listed with ⟨rfl, listed⟩
      cases rest with
      | nil => exact absurd listed f.operands_ne_nil
      | cons second rest => rw [join, ih row listed]

end Formula

/-! ### Gathering -/

theorem Formula.gather_eq_flatMap (c : Connective) (f : Formula) :
    f.gather c = f.operands.flatMap (Operand.gather c) := by
  cases f with
  | single x => simp [gather, operands]
  | chain x d rest =>
      rw [gather, operands, List.flatMap_cons, gather_eq_flatMap c rest]

mutual

/-- Gathering keeps whether an operand decides the row. -/
theorem Operand.exists_gather_iff {c : Connective} (junction : c.isJunction = true) (x : Operand)
    (v : Valuation) : (∃ y ∈ x.gather c, y.eval v = c.dominant) ↔ x.eval v = c.dominant := by
  match x with
  | .symbol negated name => simp [Operand.gather]
  | .group negated content =>
      rw [Operand.gather]
      split
      · next opened =>
          simp only [Bool.and_eq_true, Bool.not_eq_true', Formula.all_links_iff] at opened
          rcases opened with ⟨rfl, row⟩
          rw [Formula.exists_gather_iff junction content v, Operand.eval_group, Bool.bne_false,
            Formula.eval_eq_dominant_iff junction row]
      · simp

theorem Formula.exists_gather_iff {c : Connective} (junction : c.isJunction = true) (f : Formula)
    (v : Valuation) : (∃ y ∈ f.gather c, y.eval v = c.dominant) ↔
      ∃ x ∈ f.operands, x.eval v = c.dominant := by
  match f with
  | .single x =>
      rw [Formula.gather, Operand.exists_gather_iff junction x v]
      simp [Formula.operands]
  | .chain x d rest =>
      simp only [Formula.gather, Formula.operands, List.mem_append, or_and_right, exists_or,
        List.mem_cons, exists_eq_left, Operand.exists_gather_iff junction x v,
        Formula.exists_gather_iff junction rest v]

end

mutual

theorem Operand.names_of_mem_gather {c : Connective} {x y : Operand} (gathered : y ∈ x.gather c) :
    y.names ⊆ x.names := by
  match x with
  | .symbol negated name =>
      rw [Operand.gather, List.mem_singleton] at gathered
      exact gathered ▸ List.Subset.refl _
  | .group negated content =>
      rw [Operand.gather] at gathered
      split at gathered
      · exact Formula.names_of_mem_gather gathered
      · rw [List.mem_singleton] at gathered
        exact gathered ▸ List.Subset.refl _

theorem Formula.names_of_mem_gather {c : Connective} {f : Formula} {y : Operand}
    (gathered : y ∈ f.gather c) : y.names ⊆ f.names := by
  match f with
  | .single x => exact Operand.names_of_mem_gather (x := x) gathered
  | .chain x d rest =>
      rcases List.mem_append.1 gathered with gathered | gathered
      · exact List.subset_append_of_subset_left _ (Operand.names_of_mem_gather gathered)
      · exact List.subset_append_of_subset_right _ (Formula.names_of_mem_gather gathered)

end

/-! ### Associating -/

namespace Formula

/-- A row is left as it is, or is a row of a conjunction or disjunction that is simplified. -/
theorem associate_cases (f : Formula) : f.associate = f ∨
    ∃ c, c.isJunction = true ∧ f.isSingle = false ∧ f.IsRowOf c ∧
      f.associate = simplify c (f.gather c) := by
  cases f with
  | single x => exact .inl rfl
  | chain x c rest =>
      rw [associate]
      split
      · next uniform =>
          rw [Bool.and_eq_true, all_links_iff] at uniform
          exact .inr ⟨c, uniform.1, rfl, isRowOf_chain.2 ⟨rfl, uniform.2⟩, rfl⟩
      · exact .inl rfl

theorem associate_of_isRowOf {c : Connective} {f : Formula} (junction : c.isJunction = true)
    (several : f.isSingle = false) (row : f.IsRowOf c) :
    f.associate = simplify c (f.gather c) := by
  cases f with
  | single => contradiction
  | chain x d rest =>
      rcases isRowOf_chain.1 row with ⟨rfl, restRow⟩
      rw [associate, if_pos]
      rw [Bool.and_eq_true, all_links_iff]
      exact ⟨junction, restRow⟩

/-- Simplification keeps the value of a formula whose names hold no marks. -/
theorem eval_associate {f : Formula} (unmarked : f.IsUnmarked) (v : Valuation) :
    f.associate.eval v = f.eval v := by
  rcases f.associate_cases with same | ⟨c, junction, _, row, simplified⟩
  · rw [same]
  · have gathered : ∀ x ∈ f.gather c, x.IsUnmarked :=
      fun x isGathered name isName => unmarked name (names_of_mem_gather isGathered isName)
    apply Connective.eq_of_dominant_iff (c := c)
    rw [simplified, eval_simplify junction gathered, exists_gather_iff junction,
      eval_eq_dominant_iff junction row]

/-- Simplification adds no names but those of constants. -/
theorem names_associate {f : Formula} {isKnown : String → Prop}
    (constants : ∀ value, ∀ name ∈ (Operand.constant value).names, isKnown name)
    (known : ∀ name ∈ f.names, isKnown name) : ∀ name ∈ f.associate.names, isKnown name := by
  rcases f.associate_cases with same | ⟨c, _, _, _, simplified⟩
  · rwa [same]
  · rw [simplified, names_eq_flatMap]
    intro name isName
    rcases List.mem_flatMap.1 isName with ⟨x, isOperand, isName⟩
    refine forall_operands_simplify (P := fun x => ∀ name ∈ x.names, isKnown name) ?_ constants x
      isOperand name isName
    exact fun y isGathered name isName => known name (names_of_mem_gather isGathered isName)

/-- A reduced row is left as it is, if none of its operands can be opened. -/
theorem IsReduced.associate_eq {c : Connective} {P : Operand → Prop} {f : Formula}
    (reduced : f.IsReduced c P) (junction : c.isJunction = true)
    (unopened : ∀ x, P x → x.gather c = [x]) : f.associate = f := by
  have gathered : f.gather c = f.operands := by
    rw [gather_eq_flatMap]
    have each : ∀ x ∈ f.operands, x.gather c = [x] :=
      fun x isOperand => unopened x (reduced.operands x isOperand).1
    rw [List.flatMap_congr each, List.flatMap_singleton']
  rw [associate_of_isRowOf junction reduced.several reduced.row, gathered]
  cases listed : f.operands with
  | nil => exact absurd listed f.operands_ne_nil
  | cons first rest =>
      have distinct := reduced.distinct
      have noConstant := fun x isOperand => (reduced.operands x isOperand).2
      rw [listed] at distinct noConstant
      rw [simplify_of_distinct distinct noConstant, join_operands reduced.row listed]

end Formula

end Entail
