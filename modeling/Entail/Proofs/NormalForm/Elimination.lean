import Entail.NormalForm.Elimination
import Entail.Proofs.NormalForm.Rule

/-!
# Elimination keeps the meaning

In a uniform formula a row has arrows only or none at all.  A row of arrows is
merged from the left, which is how it is evaluated, so that the result means
the same; a row without arrows is left as it is.
-/

namespace Entail

/-- Every row of the operand is a row of conjunctions or of disjunctions. -/
abbrev Operand.IsArrowFree (x : Operand) : Prop :=
  x.IsUniform fun c => c.isJunction = true

/-- Every row of the formula is a row of conjunctions or of disjunctions. -/
abbrev Formula.IsArrowFree (f : Formula) : Prop :=
  f.IsUniform fun c => c.isJunction = true

theorem append_subset_append {names names' more more' : List String} (subset : names ⊆ names')
    (subset' : more ⊆ more') : names ++ more ⊆ names' ++ more' :=
  List.append_subset.2 ⟨List.Subset.trans subset (List.subset_append_left ..),
    List.Subset.trans subset' (List.subset_append_right ..)⟩

namespace Rule

/-- The operand that replaces an arrow means what the arrow means. -/
theorem eval_replaceArrow (x : Operand) (c : Connective) (y : Operand) (v : Valuation) :
    (replaceArrow x c y).eval v = c.apply (x.eval v) (y.eval v) := by
  rw [replaceArrow, Operand.eval_group, Bool.bne_false]
  split
  · exact eval_implication x c y v
  · exact eval_biconditional x c y v

theorem isArrowFree_replaceArrow {c : Connective} (isArrow : c.isArrow = true) {x y : Operand}
    (first : x.IsArrowFree) (second : y.IsArrowFree) : (replaceArrow x c y).IsArrowFree := by
  have joined {x y : Operand} {d : Connective} (junction : d.isJunction = true)
      (first : x.IsArrowFree) (second : y.IsArrowFree) :
      (Operand.group false (.pair x d y)).IsArrowFree :=
    Formula.isUniform_pair.2 ⟨junction, first, second⟩
  have toggled {x : Operand} (arrowFree : x.IsArrowFree) : x.toggle.IsArrowFree :=
    Operand.isUniform_toggle.2 arrowFree
  cases c with
  | conj | disj => contradiction
  | impl => exact joined rfl (toggled first) second
  | iff =>
      exact joined rfl (joined rfl (toggled first) (toggled second)) (joined rfl first second)

theorem names_replaceArrow_subset (x : Operand) (c : Connective) (y : Operand) :
    (replaceArrow x c y).names ⊆ x.names ++ y.names := by
  cases c <;>
    simp [replaceArrow, implication, biconditional, Operand.names, Formula.pair, Formula.names]

end Rule

namespace Formula

/-! ### Merging the links of a row -/

section Merge

variable {selected : Connective → Bool} {merge : Operand → Connective → Operand → Operand}

theorem mergeLinksAfter_of_not_selected {x : Operand} {c : Connective} {f : Formula}
    (unselected : selected c = false) (rest : ∀ d ∈ f.links, selected d = false) :
    mergeLinksAfter selected merge x c f = chain x c f := by
  induction f using Formula.rec (motive_1 := fun _ => True) generalizing x c with
  | symbol | group => trivial
  | single y => simp [mergeLinksAfter, unselected, pair]
  | chain y d f _ ih =>
      rcases List.forall_mem_cons.1 rest with ⟨unselected', rest⟩
      simp [mergeLinksAfter, unselected, ih unselected' rest]

/-- A row whose links are all merged comes down to one operand, which has every property that
merging keeps. -/
theorem exists_mergeLinksAfter_eq_single {P : Operand → Prop}
    (keeps : ∀ x c y, selected c = true → P x → P y → P (merge x c y)) {x : Operand}
    {c : Connective} {f : Formula} (isSelected : selected c = true)
    (rest : ∀ d ∈ f.links, selected d = true) (first : P x) (operands : ∀ y ∈ f.operands, P y) :
    ∃ y, mergeLinksAfter selected merge x c f = single y ∧ P y := by
  induction f using Formula.rec (motive_1 := fun _ => True) generalizing x c with
  | symbol | group => trivial
  | single y =>
      refine ⟨merge x c y, by rw [mergeLinksAfter, if_pos isSelected], ?_⟩
      exact keeps x c y isSelected first (operands y List.mem_cons_self)
  | chain y d f _ ih =>
      rcases List.forall_mem_cons.1 rest with ⟨isSelected', rest⟩
      rcases List.forall_mem_cons.1 operands with ⟨second, operands⟩
      rw [mergeLinksAfter, if_pos isSelected]
      exact ih isSelected' rest (keeps x c y isSelected first second) operands

/-- A row whose links are all merged is merged from the left, as it is evaluated. -/
theorem eval_mergeLinksAfter_of_selected {v : Valuation}
    (means : ∀ x c y, selected c = true → (merge x c y).eval v = c.apply (x.eval v) (y.eval v))
    {x : Operand} {c : Connective} {f : Formula} (isSelected : selected c = true)
    (rest : ∀ d ∈ f.links, selected d = true) :
    (mergeLinksAfter selected merge x c f).eval v = f.evalWith v (c.apply (x.eval v)) := by
  induction f using Formula.rec (motive_1 := fun _ => True) generalizing x c with
  | symbol | group => trivial
  | single y =>
      rw [mergeLinksAfter, if_pos isSelected]
      exact means x c y isSelected
  | chain y d f _ ih =>
      rcases List.forall_mem_cons.1 rest with ⟨isSelected', rest⟩
      rw [mergeLinksAfter, if_pos isSelected, ih isSelected' rest, means x c y isSelected]
      rfl

end Merge

theorem replaceArrows_of_isJunction {f : Formula} (junctions : ∀ c ∈ f.links, c.isJunction = true) :
    f.replaceArrows = f := by
  cases f with
  | single x => rfl
  | chain x c rest =>
      rcases List.forall_mem_cons.1 junctions with ⟨junction, junctions⟩
      exact mergeLinksAfter_of_not_selected (by simp [Connective.isArrow, junction])
        fun d isLink => by simp [Connective.isArrow, junctions d isLink]

/-- A uniform row with an arrow is a row of arrows. -/
theorem isArrow_of_mem_links {f : Formula} (row : ∀ c ∈ f.links, f.IsRowOf c) {c : Connective}
    (isLink : c ∈ f.links) (isArrow : c.isArrow = true) : ∀ d ∈ f.links, d.isArrow = true :=
  fun d isLink' => row c isLink d isLink' ▸ isArrow

theorem eval_replaceArrows {f : Formula} (row : ∀ c ∈ f.links, f.IsRowOf c) (v : Valuation) :
    f.replaceArrows.eval v = f.eval v := by
  cases f with
  | single x => rfl
  | chain x c rest =>
      by_cases isArrow : c.isArrow = true
      · have arrows := isArrow_of_mem_links row List.mem_cons_self isArrow
        exact eval_mergeLinksAfter_of_selected
          (fun x c y _ => Rule.eval_replaceArrow x c y v) isArrow
          (List.forall_mem_cons.1 arrows).2
      · have junction : c.isJunction = true := by simpa [Connective.isArrow] using isArrow
        rw [replaceArrows_of_isJunction]
        exact fun d isLink => row c List.mem_cons_self d isLink ▸ junction

theorem isArrowFree_replaceArrows {f : Formula} (row : ∀ c ∈ f.links, f.IsRowOf c)
    (operands : ∀ x ∈ f.operands, x.IsArrowFree) : f.replaceArrows.IsArrowFree := by
  cases f with
  | single x => exact operands x List.mem_cons_self
  | chain x c rest =>
      by_cases isArrow : c.isArrow = true
      · have arrows := isArrow_of_mem_links row List.mem_cons_self isArrow
        rcases List.forall_mem_cons.1 operands with ⟨first, operands⟩
        rcases exists_mergeLinksAfter_eq_single
          (fun x d y (isArrow : d.isArrow = true) => Rule.isArrowFree_replaceArrow isArrow) isArrow
          (List.forall_mem_cons.1 arrows).2 first operands with ⟨y, merged, arrowFree⟩
        rw [replaceArrows, mergeLinks, merged]
        exact arrowFree
      · have junction : c.isJunction = true := by simpa [Connective.isArrow] using isArrow
        have junctions : ∀ d ∈ (chain x c rest).links, d.isJunction = true :=
          fun d isLink => row c List.mem_cons_self d isLink ▸ junction
        rw [replaceArrows_of_isJunction junctions]
        exact isUniform_iff.2 ⟨fun d isLink => ⟨junctions d isLink, row d isLink⟩, operands⟩

theorem names_mergeLinksAfter_subset {selected : Connective → Bool}
    {merge : Operand → Connective → Operand → Operand}
    (names : ∀ x c y, (merge x c y).names ⊆ x.names ++ y.names) (x : Operand) (c : Connective)
    (f : Formula) : (mergeLinksAfter selected merge x c f).names ⊆ x.names ++ f.names := by
  match f with
  | single y =>
      rw [mergeLinksAfter]
      split
      · exact names x c y
      · exact List.Subset.refl _
  | chain y d rest =>
      rw [mergeLinksAfter]
      split
      · refine List.Subset.trans (names_mergeLinksAfter_subset names (merge x c y) d rest) ?_
        rw [Formula.names, ← List.append_assoc]
        exact append_subset_append (names x c y) (List.Subset.refl _)
      · exact append_subset_append (List.Subset.refl _)
          (names_mergeLinksAfter_subset names y d rest)

theorem names_replaceArrows_subset (f : Formula) : f.replaceArrows.names ⊆ f.names := by
  cases f with
  | single x => exact List.Subset.refl _
  | chain x c rest => exact names_mergeLinksAfter_subset Rule.names_replaceArrow_subset x c rest

/-! ### Eliminating the arrows of groups -/

@[simp]
theorem links_eliminateInGroups (f : Formula) : f.eliminateInGroups.links = f.links := by
  match f with
  | single x => rfl
  | chain x c rest => simp [eliminateInGroups, links, links_eliminateInGroups rest]

theorem IsUniform.isRowOf_eliminateInGroups {allowed : Connective → Prop} {f : Formula}
    (uniform : f.IsUniform allowed) :
    ∀ c ∈ f.eliminateInGroups.links, f.eliminateInGroups.IsRowOf c := by
  intro c isLink
  rw [links_eliminateInGroups] at isLink
  rw [IsRowOf, links_eliminateInGroups]
  exact ((isUniform_iff.1 uniform).1 c isLink).2

end Formula

mutual

theorem Operand.IsUniform.eval_eliminate {allowed : Connective → Prop} {x : Operand}
    (uniform : x.IsUniform allowed) (v : Valuation) : x.eliminate.eval v = x.eval v := by
  match x with
  | .symbol negated name => rfl
  | .group negated content =>
      have inner : content.eliminateInGroups.eval v = content.eval v :=
        Formula.IsUniform.evalWith_eliminateInGroups uniform v id
      have row := Formula.IsUniform.isRowOf_eliminateInGroups uniform
      rw [Operand.eliminate, Operand.eval_group, Formula.eval_replaceArrows row, inner]
      rfl

theorem Formula.IsUniform.evalWith_eliminateInGroups {allowed : Connective → Prop} {f : Formula}
    (uniform : f.IsUniform allowed) (v : Valuation) (combine : Bool → Bool) :
    f.eliminateInGroups.evalWith v combine = f.evalWith v combine := by
  match f with
  | .single x =>
      simp only [Formula.eliminateInGroups, Formula.evalWith,
        Operand.IsUniform.eval_eliminate uniform v]
  | .chain x c rest =>
      rcases uniform with ⟨_, _, first, restUniform⟩
      simp only [Formula.eliminateInGroups, Formula.evalWith, first.eval_eliminate v,
        restUniform.evalWith_eliminateInGroups v]

end

mutual

theorem Operand.IsUniform.isArrowFree_eliminate {allowed : Connective → Prop} {x : Operand}
    (uniform : x.IsUniform allowed) : x.eliminate.IsArrowFree := by
  match x with
  | .symbol negated name => trivial
  | .group negated content =>
      exact Formula.isArrowFree_replaceArrows
        (Formula.IsUniform.isRowOf_eliminateInGroups uniform)
        (Formula.IsUniform.isArrowFree_operands uniform)

theorem Formula.IsUniform.isArrowFree_operands {allowed : Connective → Prop} {f : Formula}
    (uniform : f.IsUniform allowed) : ∀ x ∈ f.eliminateInGroups.operands, x.IsArrowFree := by
  match f with
  | .single x =>
      exact List.forall_mem_singleton.2 (Operand.IsUniform.isArrowFree_eliminate uniform)
  | .chain x c rest =>
      rcases uniform with ⟨_, _, first, restUniform⟩
      exact List.forall_mem_cons.2 ⟨first.isArrowFree_eliminate, restUniform.isArrowFree_operands⟩

end

mutual

theorem Operand.names_eliminate_subset (x : Operand) : x.eliminate.names ⊆ x.names := by
  match x with
  | .symbol negated name => exact List.Subset.refl _
  | .group negated content =>
      exact List.Subset.trans (Formula.names_replaceArrows_subset _)
        (Formula.names_eliminateInGroups_subset content)

theorem Formula.names_eliminateInGroups_subset (f : Formula) :
    f.eliminateInGroups.names ⊆ f.names := by
  match f with
  | .single x => exact Operand.names_eliminate_subset x
  | .chain x c rest =>
      exact append_subset_append x.names_eliminate_subset rest.names_eliminateInGroups_subset

end

mutual

theorem Operand.eliminate_of_isArrowFree {x : Operand} (arrowFree : x.IsArrowFree) :
    x.eliminate = x := by
  match x with
  | .symbol negated name => rfl
  | .group negated content =>
      rw [Operand.eliminate, Formula.eliminateInGroups_of_isArrowFree arrowFree,
        Formula.replaceArrows_of_isJunction fun c isLink =>
          ((Formula.isUniform_iff.1 arrowFree).1 c isLink).1]

theorem Formula.eliminateInGroups_of_isArrowFree {f : Formula} (arrowFree : f.IsArrowFree) :
    f.eliminateInGroups = f := by
  match f with
  | .single x => rw [Formula.eliminateInGroups, Operand.eliminate_of_isArrowFree arrowFree]
  | .chain x c rest =>
      rcases arrowFree with ⟨_, _, first, restFree⟩
      rw [Formula.eliminateInGroups, Operand.eliminate_of_isArrowFree first,
        Formula.eliminateInGroups_of_isArrowFree restFree]

end

namespace Formula

variable {allowed : Connective → Prop} {f : Formula}

/-- Where there are no arrows, there is nothing to eliminate. -/
theorem eliminate_of_isArrowFree (arrowFree : f.IsArrowFree) : f.eliminate = f := by
  rw [eliminate, eliminateInGroups_of_isArrowFree arrowFree,
    replaceArrows_of_isJunction fun c isLink => ((isUniform_iff.1 arrowFree).1 c isLink).1]

/-- The formula without arrows means the same. -/
theorem IsUniform.eval_eliminate (uniform : f.IsUniform allowed) (v : Valuation) :
    f.eliminate.eval v = f.eval v := by
  rw [eliminate, eval_replaceArrows uniform.isRowOf_eliminateInGroups]
  exact uniform.evalWith_eliminateInGroups v id

theorem IsUniform.isArrowFree_eliminate (uniform : f.IsUniform allowed) :
    f.eliminate.IsArrowFree :=
  isArrowFree_replaceArrows uniform.isRowOf_eliminateInGroups uniform.isArrowFree_operands

theorem names_eliminate_subset (f : Formula) : f.eliminate.names ⊆ f.names :=
  List.Subset.trans (names_replaceArrows_subset _) f.names_eliminateInGroups_subset

end Formula

/-! ### Rows of several connectives -/

mutual

/-- No row of the operand uses an arrow; it may use both other connectives. -/
def Operand.HasDuals : Operand → Prop
  | .symbol _ _ => True
  | .group _ content => content.HasDuals

/-- No row of the formula uses an arrow; it may use both other connectives. -/
def Formula.HasDuals : Formula → Prop
  | .single x => x.HasDuals
  | .chain x c rest => x.HasDuals ∧ c.isJunction = true ∧ rest.HasDuals

end

mutual

theorem Operand.IsArrowFree.hasDuals {x : Operand} (arrowFree : x.IsArrowFree) : x.HasDuals := by
  match x with
  | .symbol _ _ => trivial
  | .group _ content => exact Formula.IsArrowFree.hasDuals arrowFree

theorem Formula.IsArrowFree.hasDuals {f : Formula} (arrowFree : f.IsArrowFree) : f.HasDuals := by
  match f with
  | .single x => exact Operand.IsArrowFree.hasDuals arrowFree
  | .chain x c rest =>
      rcases arrowFree with ⟨junction, _, first, restFree⟩
      exact ⟨Operand.IsArrowFree.hasDuals first, junction, Formula.IsArrowFree.hasDuals restFree⟩

end

theorem Operand.hasDuals_toggle {x : Operand} : x.toggle.HasDuals ↔ x.HasDuals := by
  cases x <;> exact Iff.rfl

theorem Rule.hasDuals_replaceArrow {c : Connective} (isArrow : c.isArrow = true) {x y : Operand}
    (first : x.HasDuals) (second : y.HasDuals) : (replaceArrow x c y).HasDuals := by
  have joined {x y : Operand} {d : Connective} (junction : d.isJunction = true)
      (first : x.HasDuals) (second : y.HasDuals) : (Operand.group false (.pair x d y)).HasDuals :=
    ⟨first, junction, second⟩
  have toggled {x : Operand} (duals : x.HasDuals) : x.toggle.HasDuals :=
    Operand.hasDuals_toggle.2 duals
  cases c with
  | conj | disj => contradiction
  | impl => exact joined rfl (toggled first) second
  | iff =>
      exact joined rfl (joined rfl (toggled first) (toggled second)) (joined rfl first second)

namespace Formula

theorem hasDuals_mergeLinksAfter {x : Operand} {c : Connective} {f : Formula}
    (first : x.HasDuals) (operands : ∀ y ∈ f.operands, y.HasDuals) :
    (mergeLinksAfter Connective.isArrow Rule.replaceArrow x c f).HasDuals := by
  induction f using Formula.rec (motive_1 := fun _ => True) generalizing x c with
  | symbol | group => trivial
  | single y =>
      have last := operands y List.mem_cons_self
      rw [mergeLinksAfter]
      split
      · next isArrow => exact Rule.hasDuals_replaceArrow isArrow first last
      · next notArrow => exact ⟨first, by simpa [Connective.isArrow] using notArrow, last⟩
  | chain y d f _ ih =>
      rcases List.forall_mem_cons.1 operands with ⟨second, rest⟩
      rw [mergeLinksAfter]
      split
      · next isArrow => exact ih (Rule.hasDuals_replaceArrow isArrow first second) rest
      · next notArrow =>
          exact ⟨first, by simpa [Connective.isArrow] using notArrow, ih second rest⟩

theorem hasDuals_replaceArrows {f : Formula} (operands : ∀ x ∈ f.operands, x.HasDuals) :
    f.replaceArrows.HasDuals := by
  cases f with
  | single x => exact operands x List.mem_cons_self
  | chain x c rest =>
      rcases List.forall_mem_cons.1 operands with ⟨first, operands⟩
      exact hasDuals_mergeLinksAfter first operands

end Formula

mutual

theorem Operand.hasDuals_eliminate (x : Operand) : x.eliminate.HasDuals := by
  match x with
  | .symbol _ _ => trivial
  | .group _ content =>
      exact Formula.hasDuals_replaceArrows content.hasDuals_eliminateInGroups

theorem Formula.hasDuals_eliminateInGroups (f : Formula) :
    ∀ x ∈ f.eliminateInGroups.operands, x.HasDuals := by
  match f with
  | .single x => exact List.forall_mem_singleton.2 x.hasDuals_eliminate
  | .chain x c rest =>
      exact List.forall_mem_cons.2 ⟨x.hasDuals_eliminate, rest.hasDuals_eliminateInGroups⟩

end

/-- Whatever connectives its rows mix, a formula is left without arrows. -/
theorem Formula.hasDuals_eliminate (f : Formula) : f.eliminate.HasDuals :=
  hasDuals_replaceArrows f.hasDuals_eliminateInGroups

end Entail
