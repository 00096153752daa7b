import Entail.Proofs.NormalForm.Horn

/-!
# Which formulas have a Horn form

The literals and the connectives of a negation normal form, at any depth, are
those of the row that the formula flattens to.  So a formula that is no clause
yet has a Horn form unless its negation normal form holds a conjunction or
several positive literals; several implications in a row give a conjunction.
-/

namespace Entail

mutual

/-- The symbols of an operand with their negations, at any depth. -/
def Operand.literals : Operand → List Operand
  | .symbol negated name => [.symbol negated name]
  | .group _ content => content.literals

/-- The symbols of a formula with their negations, at any depth. -/
def Formula.literals : Formula → List Operand
  | .single x => x.literals
  | .chain x _ rest => x.literals ++ rest.literals

end

mutual

/-- The connectives of an operand, at any depth. -/
def Operand.allLinks : Operand → List Connective
  | .symbol _ _ => []
  | .group _ content => content.allLinks

/-- The connectives of a formula, at any depth. -/
def Formula.allLinks : Formula → List Connective
  | .single x => x.allLinks
  | .chain x c rest => x.allLinks ++ c :: rest.allLinks

end

/-- The formula holds a conjunction, or several literals that are not negated. -/
def Formula.HoldsTooMuch (f : Formula) : Prop :=
  .conj ∈ f.allLinks ∨ 1 < (f.literals.filter (!·.negated)).length

/-- Inside of its outer parentheses the formula is neither a literal nor a definite implication, and
its negation normal form holds a conjunction or several positive literals. -/
def Formula.IsBeyondHorn (f : Formula) : Prop :=
  f.unwrap.isLiteral = false ∧ f.unwrap.isDefinite = false ∧
    ∃ g, f.unwrap.eliminate.negationNormal = .ok g ∧ g.HoldsTooMuch

/-- The error says that a formula has no Horn form. -/
def Error.IsHornRefusal : Error → Prop
  | severalImplications _ | notDisjunctive _ | severalPositives _ _ => True
  | _ => False

/-! ### Flattening a negation normal form -/

mutual

theorem Operand.IsArrowFree.isJunction_of_mem_allLinks {x : Operand} (arrowFree : x.IsArrowFree) :
    ∀ c ∈ x.allLinks, c.isJunction = true := by
  match x with
  | .symbol _ _ => exact List.forall_mem_nil _
  | .group _ content => exact Formula.IsArrowFree.isJunction_of_mem_allLinks (f := content) arrowFree

theorem Formula.IsArrowFree.isJunction_of_mem_allLinks {f : Formula} (arrowFree : f.IsArrowFree) :
    ∀ c ∈ f.allLinks, c.isJunction = true := by
  match f with
  | .single x => exact Operand.IsArrowFree.isJunction_of_mem_allLinks (x := x) arrowFree
  | .chain x c rest =>
      rcases arrowFree with ⟨junction, _, first, restFree⟩
      exact List.forall_mem_append.2 ⟨Operand.IsArrowFree.isJunction_of_mem_allLinks first,
        List.forall_mem_cons.2
          ⟨junction, Formula.IsArrowFree.isJunction_of_mem_allLinks restFree⟩⟩

end

mutual

/-- An operand flattens to the literals and connectives of its negation normal form. -/
theorem Operand.exists_literalRow {flip : Bool} {x y : Operand}
    (pushed : x.pushNegation flip = .ok y) :
    ∃ row, x.literalRow flip = .ok row ∧ row.operands = y.literals ∧ row.links = y.allLinks := by
  match x with
  | .symbol negated name =>
      cases pushed
      exact ⟨_, rfl, rfl, rfl⟩
  | .group negated content =>
      rcases Operand.exists_of_pushNegation_group pushed with ⟨inner, pushedInner, rfl⟩
      rcases Formula.exists_literalRow pushedInner with ⟨row, flat, operands, links⟩
      refine ⟨row, ?_, operands, links⟩
      rw [Operand.pushNegation] at pushed
      rw [Operand.literalRow]
      split at pushed
      · next negates =>
          rcases bind_eq_ok_iff.1 pushed with ⟨_, hasDuals, _⟩
          rw [if_pos negates, hasDuals]
          exact flat
      · next keeps =>
          rw [if_neg keeps]
          exact flat

/-- A formula flattens to the literals and connectives of its negation normal form. -/
theorem Formula.exists_literalRow {flip : Bool} {f g : Formula}
    (pushed : f.pushNegation flip = .ok g) :
    ∃ row, f.literalRow flip = .ok row ∧ row.operands = g.literals ∧ row.links = g.allLinks := by
  match f with
  | .single x =>
      rcases Formula.exists_of_pushNegation_single pushed with ⟨y, pushedOperand, rfl⟩
      exact Operand.exists_literalRow pushedOperand
  | .chain x c rest =>
      rcases Formula.exists_of_pushNegation_chain pushed with ⟨y, tail, first, restPushed, rfl⟩
      rcases Operand.exists_literalRow first with ⟨row, flat, operands, links⟩
      rcases Formula.exists_literalRow restPushed with ⟨row', flat', operands', links'⟩
      refine ⟨row.append (c.dualIf flip) row', ?_, ?_, ?_⟩
      · rw [Formula.literalRow, flat, flat']
        rfl
      · rw [Formula.operands_append, operands, operands', Formula.literals]
      · rw [Formula.links_append, links, links', Formula.allLinks]

end

/-! ### Several implications -/

namespace Formula

/-- Merging goes on from a disjunction to one whose first part is negated. -/
theorem exists_mergeLinksAfter_implications {a b : Operand} {f : Formula}
    (arrows : ∀ c ∈ f.links, c = .impl) :
    ∃ left right last,
      mergeLinksAfter Connective.isArrow Rule.replaceArrow (.group false (pair a .disj b)) .impl f =
        single (.group false (pair (.group true (pair left .disj right)) .disj last)) := by
  induction f using Formula.rec (motive_1 := fun _ => True) generalizing a b with
  | symbol | group => trivial
  | single y => exact ⟨a, b, y, rfl⟩
  | chain y c f _ ih =>
      rcases List.forall_mem_cons.1 arrows with ⟨isImpl, others⟩
      subst isImpl
      exact @ih (.group true (pair a .disj b)) y others

/-- The negation normal form of a row of several implications holds a conjunction. -/
theorem conj_mem_allLinks_of_implications {f g : Formula} (arrows : ∀ c ∈ f.links, c = .impl)
    (several : 1 < f.links.length) (normal : f.eliminate.negationNormal = .ok g) :
    .conj ∈ g.allLinks := by
  cases f with
  | single x => exact absurd several (Nat.not_lt_zero 1)
  | chain x c f =>
      cases f with
      | single y => exact absurd several (Nat.lt_irrefl 1)
      | chain y d rest =>
          rcases List.forall_mem_cons.1 arrows with ⟨isImpl, arrows⟩
          rcases List.forall_mem_cons.1 arrows with ⟨isImpl', arrows⟩
          subst isImpl isImpl'
          have inner : ∀ c ∈ rest.eliminateInGroups.links, c = .impl := by
            rwa [links_eliminateInGroups]
          rcases exists_mergeLinksAfter_implications (a := x.eliminate.toggle) (b := y.eliminate)
            inner with ⟨left, right, last, merged⟩
          have eliminated : (chain x .impl (chain y .impl rest)).eliminate =
              single (.group false (pair (.group true (pair left .disj right)) .disj last)) :=
            merged
          rw [eliminated] at normal
          rcases exists_of_pushNegation_single normal with ⟨_, whole, rfl⟩
          rcases Operand.exists_of_pushNegation_group whole with ⟨_, inside, rfl⟩
          rcases exists_of_pushNegation_chain inside with ⟨_, _, negated, _, rfl⟩
          rcases Operand.exists_of_pushNegation_group negated with ⟨_, dualized, rfl⟩
          rcases exists_of_pushNegation_chain dualized with ⟨_, _, _, _, rfl⟩
          simp [allLinks, Operand.allLinks, Connective.dualIf, Connective.dual?]

/-! ### Outcomes -/

section Row

variable {source row g : Formula}

theorem any_ne_disj_iff (links : row.links = g.allLinks) (arrowFree : g.IsArrowFree) :
    row.links.any (· != .disj) = true ↔ .conj ∈ g.allLinks := by
  rw [links, List.any_eq_true]
  constructor
  · rintro ⟨c, isLink, different⟩
    have junction := arrowFree.isJunction_of_mem_allLinks c isLink
    cases c with
    | conj => exact isLink
    | disj | impl | iff => contradiction
  · exact fun isLink => ⟨.conj, isLink, rfl⟩

/-- The row of a negation normal form has no Horn form if the normal form holds too much. -/
theorem HoldsTooMuch.exists_refusal (tooMuch : g.HoldsTooMuch) (operands : row.operands = g.literals)
    (links : row.links = g.allLinks) (arrowFree : g.IsArrowFree) :
    ∃ error, hornOfRow source row = .error error ∧ error.IsHornRefusal := by
  rw [hornOfRow]
  split
  · exact ⟨_, rfl, trivial⟩
  · next disjunctive =>
      rw [any_ne_disj_iff links arrowFree] at disjunctive
      have several := tooMuch.resolve_left disjunctive
      rw [operands]
      split
      · next none => simp [none] at several
      · next one => simp [one] at several
      · exact ⟨_, rfl, trivial⟩

theorem exists_hornOfRow (notTooMuch : ¬g.HoldsTooMuch) (operands : row.operands = g.literals)
    (links : row.links = g.allLinks) (arrowFree : g.IsArrowFree) :
    ∃ clause, hornOfRow source row = .ok clause := by
  rw [HoldsTooMuch, not_or, Nat.not_lt] at notTooMuch
  rw [hornOfRow, if_neg (mt (any_ne_disj_iff links arrowFree).1 notTooMuch.1), operands]
  split
  · exact ⟨_, rfl⟩
  · exact ⟨_, rfl⟩
  · next positives several one =>
      rcases Nat.le_one_iff_eq_zero_or_eq_one.1 notTooMuch.2 with empty | single
      · exact absurd (List.eq_nil_of_length_eq_zero empty) several
      · rcases List.length_eq_one_iff.1 single with ⟨positive, same⟩
        exact absurd same (one positive)

end Row

/-- A uniform formula has no Horn form exactly if its negation normal form holds too much; the error
says that it has none. -/
theorem IsUniform.horn_outcome {f : Formula} (uniform : f.IsUniform fun _ => True) :
    (∃ clause, f.horn = .ok clause ∧ ¬f.IsBeyondHorn) ∨
      ∃ error, f.horn = .error error ∧ error.IsHornRefusal ∧ f.IsBeyondHorn := by
  rcases exists_negationNormal uniform.unwrap.isArrowFree_eliminate with
    ⟨g, normal, arrowFree, _, _, _⟩
  rcases exists_literalRow normal with ⟨row, flat, operands, links⟩
  simp only [Formula.horn]
  split
  · next kept =>
      left
      refine ⟨_, rfl, fun isBeyond => ?_⟩
      simp [isBeyond.1, isBeyond.2.1] at kept
  · next changed =>
      rw [Bool.or_eq_true, not_or, Bool.not_eq_true, Bool.not_eq_true] at changed
      rcases changed with ⟨isNoLiteral, indefinite⟩
      split
      · next several =>
          right
          have isLink : Connective.impl ∈ f.unwrap.links :=
            List.count_pos_iff.1 (Nat.lt_trans Nat.zero_lt_one several)
          have arrows := ((isUniform_iff.1 uniform.unwrap).1 _ isLink).2
          have length := Nat.lt_of_lt_of_le several List.count_le_length
          have conjunctive := conj_mem_allLinks_of_implications arrows length normal
          exact ⟨_, rfl, trivial, isNoLiteral, indefinite, g, normal, .inl conjunctive⟩
      · rw [flatten, flat]
        by_cases tooMuch : g.HoldsTooMuch
        · right
          rcases tooMuch.exists_refusal operands links arrowFree with ⟨error, failed, refusal⟩
          exact ⟨error, failed, refusal, isNoLiteral, indefinite, g, normal, tooMuch⟩
        · left
          rcases exists_hornOfRow tooMuch operands links arrowFree with ⟨clause, made⟩
          refine ⟨clause, made, ?_⟩
          rintro ⟨_, _, g', normal', tooMuch'⟩
          cases normal.symm.trans normal'
          exact tooMuch tooMuch'

end Formula

end Entail
