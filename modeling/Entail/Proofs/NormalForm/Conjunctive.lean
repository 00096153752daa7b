import Entail.Proofs.NormalForm.Shape

/-!
# Conjunctive normal forms

Rows are brought into conjunctive form from the inside to the outside: a row of
conjunctions is simplified, and a row of disjunctions is distributed over the
conjunctions among its operands, one operand after the other, with an
accumulator that is in conjunctive form itself.
-/

namespace Entail

namespace Formula

/-! ### Combining rows -/

theorem isWrapped_of_isLiteralOr {P : Formula → Prop} (weaker : ∀ f, P f → f.IsConjunctive)
    {x : Operand} (shape : x.IsLiteralOr P) : (single x).IsWrapped := by
  cases shape with
  | literal negated name => exact .literal negated name
  | group holds => exact .wrapped (.plain (weaker _ holds))

theorem IsConjunctiveRow.isConjunctive (f : Formula) (row : f.IsConjunctiveRow) :
    f.IsConjunctive :=
  row.elim .clause .conjunction

/-- The formula that an operand stands for: the content of a plain group, or the operand itself. -/
def ofOperand : Operand → Formula
  | .group false content => content
  | x => single x

theorem isWrapped_ofOperand {x : Operand} (shape : x.IsLiteralOr IsConjunctiveRow) :
    (ofOperand x).IsWrapped := by
  cases shape with
  | literal negated name => exact .literal negated name
  | group row => exact .plain row.isConjunctive

/-- A row of conjunctions or of disjunctions whose groups are in conjunctive form. -/
structure IsCombinable (f : Formula) : Prop where
  junctions : ∀ c ∈ f.links, c.isJunction = true
  row : ∀ c ∈ f.links, f.IsRowOf c
  operands : ∀ x ∈ f.operands, x.IsLiteralOr IsWrapped

/-- A row is combined by simplification, unless that leaves a row of disjunctions: its operands are
joined one after the other. -/
theorem combine_cases {f : Formula} (combinable : f.IsCombinable) :
    (f.associate.IsWrapped ∧ f.combine = f.associate) ∨
      ∃ first rest, f.associate = chain first .disj rest ∧ rest.IsRowOf .disj ∧
        (∀ x ∈ first :: rest.operands, x.IsLiteralOr IsConjunctionRow) ∧
        f.combine = ofOperand (rest.operands.foldl disjoin first) := by
  rcases combinable with ⟨junctions, row, operands⟩
  match f with
  | single x =>
      refine .inl ⟨?_, rfl⟩
      cases operands x List.mem_cons_self with
      | literal negated name => exact .literal negated name
      | group wrapped => exact .wrapped wrapped
  | chain x .conj rest =>
      have gathered := forall_mem_gather operands fun g => gather_conj_group (f := g)
      rw [combine, associate_of_isRowOf rfl rfl (row .conj List.mem_cons_self)]
      rcases simplify_cases gathered Operand.isLiteralOr_constant with
        ⟨y, shape, simplified⟩ | reduced
      · rw [simplified]
        exact .inl ⟨isWrapped_of_isLiteralOr (fun _ => .clause) shape, rfl⟩
      · refine .inl ⟨.plain (.conjunction reduced), ?_⟩
        split
        · next isChain =>
            have link := reduced.row .disj (by rw [isChain]; exact List.mem_cons_self)
            contradiction
        · rfl
  | chain x .disj rest =>
      have gathered := forall_mem_gather operands fun g => gather_disj_group (f := g)
      rw [combine, associate_of_isRowOf rfl rfl (row .disj List.mem_cons_self)]
      rcases simplify_cases gathered Operand.isLiteralOr_constant with
        ⟨y, shape, simplified⟩ | reduced
      · rw [simplified]
        exact .inl ⟨isWrapped_of_isLiteralOr (fun _ => .conjunction) shape, rfl⟩
      · cases isChain : simplify .disj ((chain x .disj rest).gather .disj) with
        | single y =>
            have several := reduced.several
            rw [isChain] at several
            contradiction
        | chain y d tail =>
            rw [isChain] at reduced
            rcases isRowOf_chain.1 reduced.row with ⟨rfl, tailRow⟩
            exact .inr ⟨y, tail, rfl, tailRow, fun z isOperand => (reduced.operands z isOperand).1,
              rfl⟩
  | chain x .impl rest | chain x .iff rest =>
      have junction := junctions _ List.mem_cons_self
      contradiction

/-- A row of operands in conjunctive form is brought into conjunctive form. -/
theorem IsCombinable.isWrapped_combine {f : Formula} (combinable : f.IsCombinable) :
    f.combine.IsWrapped := by
  rcases combine_cases combinable with
    ⟨wrapped, simplified⟩ | ⟨first, rest, _, _, shapes, folded⟩
  · rwa [simplified]
  · rw [folded]
    exact isWrapped_ofOperand
      (isLiteralOr_foldl_disjoin fun x isOperand => (shapes x isOperand).mono fun _ => .inr)

/-! ### Combining groups first -/

theorem links_combineInGroups (f : Formula) : f.combineInGroups.links = f.links := by
  cases f with
  | single x => rfl
  | chain x c rest => rw [combineInGroups, links, links, links_combineInGroups]

theorem IsUniform.isRowOf_combineInGroups {allowed : Connective → Prop} {f : Formula}
    (uniform : f.IsUniform allowed) :
    ∀ c ∈ f.combineInGroups.links, f.combineInGroups.IsRowOf c := by
  intro c isLink
  rw [links_combineInGroups] at isLink
  rw [IsRowOf, links_combineInGroups]
  exact ((isUniform_iff.1 uniform).1 c isLink).2

theorem isCombinable_combineInGroups {f : Formula} (arrowFree : f.IsArrowFree)
    (operands : ∀ x ∈ f.combineInGroups.operands, x.IsLiteralOr IsWrapped) :
    f.combineInGroups.IsCombinable := by
  refine ⟨fun c isLink => ?_, arrowFree.isRowOf_combineInGroups, operands⟩
  rw [links_combineInGroups] at isLink
  exact ((isUniform_iff.1 arrowFree).1 c isLink).1

end Formula

mutual

/-- Without arrows and negated groups, every group is brought into conjunctive form. -/
theorem Operand.isLiteralOr_combineInside {x : Operand} (arrowFree : x.IsArrowFree)
    (normal : x.IsNegationNormal) : x.combineInside.IsLiteralOr Formula.IsWrapped := by
  match x with
  | .symbol negated name => exact .literal negated name
  | .group negated content =>
      rcases normal with ⟨rfl, contentNormal⟩
      have operands := Formula.isLiteralOr_combineInGroups arrowFree contentNormal
      exact .group (Formula.isCombinable_combineInGroups arrowFree operands).isWrapped_combine

theorem Formula.isLiteralOr_combineInGroups {f : Formula} (arrowFree : f.IsArrowFree)
    (normal : f.IsNegationNormal) :
    ∀ x ∈ f.combineInGroups.operands, x.IsLiteralOr Formula.IsWrapped := by
  match f with
  | .single x =>
      exact List.forall_mem_singleton.2 (Operand.isLiteralOr_combineInside arrowFree normal)
  | .chain x c rest =>
      rcases arrowFree with ⟨_, _, first, restFree⟩
      exact List.forall_mem_cons.2 ⟨Operand.isLiteralOr_combineInside first normal.1,
        Formula.isLiteralOr_combineInGroups restFree normal.2⟩

end

/-! ### Names -/

theorem Formula.names_mapOperands {isKnown : String → Prop} {change : Operand → Operand}
    (keeps : ∀ x : Operand, (∀ name ∈ x.names, isKnown name) →
      ∀ name ∈ (change x).names, isKnown name) {f : Formula}
    (known : ∀ name ∈ f.names, isKnown name) :
    ∀ name ∈ (f.mapOperands change).names, isKnown name := by
  simp only [names_eq_flatMap, operands_mapOperands, List.mem_flatMap, List.mem_map] at known ⊢
  rintro name ⟨_, ⟨x, isOperand, rfl⟩, isName⟩
  exact keeps x (fun name isName => known name ⟨x, isOperand, isName⟩) name isName

section Names

variable {isKnown : String → Prop}
  (constants : ∀ value, ∀ name ∈ (Operand.constant value).names, isKnown name)
include constants

theorem Operand.names_associateInside {x : Operand} (known : ∀ name ∈ x.names, isKnown name) :
    ∀ name ∈ x.associateInside.names, isKnown name := by
  cases x with
  | symbol negated name => exact known
  | group negated content =>
      have inner := Formula.names_associate constants (f := content) known
      rw [associateInside]
      split
      · next isLiteral => rwa [isLiteral] at inner
      · exact inner

namespace Formula

theorem names_disjoin {x y : Operand} (left : ∀ name ∈ x.names, isKnown name)
    (right : ∀ name ∈ y.names, isKnown name) : ∀ name ∈ (disjoin x y).names, isKnown name := by
  rw [disjoin, names_toOperand]
  apply names_associate constants
  apply names_mapOperands fun x => Operand.names_associateInside constants
  intro name isName
  rcases List.mem_append.1 (Rule.names_distributeOver_subset _ _ _ _ isName) with isName | isName
  · exact left name isName
  · exact right name isName

theorem names_foldl_disjoin {first : Operand} {rest : List Operand}
    (known : ∀ x ∈ first :: rest, ∀ name ∈ x.names, isKnown name) :
    ∀ name ∈ (rest.foldl disjoin first).names, isKnown name := by
  induction rest generalizing first with
  | nil => exact known first List.mem_cons_self
  | cons second rest ih =>
      rcases List.forall_mem_cons.1 known with ⟨firstKnown, restKnown⟩
      rcases List.forall_mem_cons.1 restKnown with ⟨secondKnown, restKnown⟩
      exact ih (List.forall_mem_cons.2 ⟨names_disjoin constants firstKnown secondKnown, restKnown⟩)

theorem names_combine {f : Formula} (known : ∀ name ∈ f.names, isKnown name) :
    ∀ name ∈ f.combine.names, isKnown name := by
  have simplified := names_associate constants known
  rw [combine]
  split
  · next first rest isChain =>
      rw [isChain] at simplified
      have folded := names_foldl_disjoin constants fun x isOperand name isName =>
        simplified name (names_subset_of_mem_operands isOperand isName)
      split
      · next isGroup =>
          rw [isGroup] at folded
          exact folded
      · exact folded
  · exact simplified

end Formula

end Names

mutual

theorem Operand.names_combineInside {isKnown : String → Prop}
    (constants : ∀ value, ∀ name ∈ (Operand.constant value).names, isKnown name) {x : Operand}
    (known : ∀ name ∈ x.names, isKnown name) : ∀ name ∈ x.combineInside.names, isKnown name := by
  match x with
  | .symbol negated name => exact known
  | .group negated content =>
      exact Formula.names_combine constants (Formula.names_combineInGroups constants known)

theorem Formula.names_combineInGroups {isKnown : String → Prop}
    (constants : ∀ value, ∀ name ∈ (Operand.constant value).names, isKnown name) {f : Formula}
    (known : ∀ name ∈ f.names, isKnown name) : ∀ name ∈ f.combineInGroups.names, isKnown name := by
  match f with
  | .single x => exact Operand.names_combineInside constants known
  | .chain x c rest =>
      rcases List.forall_mem_append.1 known with ⟨first, restKnown⟩
      exact List.forall_mem_append.2 ⟨Operand.names_combineInside constants first,
        Formula.names_combineInGroups constants restKnown⟩

end

theorem isName_of_all {text : String} (nonempty : text.toList ≠ [])
    (plain : text.toList.all Token.isNameChar = true) : IsName text :=
  ⟨⟨text.toList, nonempty, List.all_eq_true.1 plain⟩, by simp⟩

theorem isName_constant (value : Bool) : ∀ name ∈ (Operand.constant value).names, IsName name := by
  cases value
  · exact List.forall_mem_singleton.2 (isName_of_all (by decide) (by decide))
  · exact List.forall_mem_singleton.2 (isName_of_all (by decide) (by decide))

/-! ### Values -/

namespace Formula

theorem eval_associateInside {P : Formula → Prop} {x : Operand} (shape : x.IsLiteralOr P)
    (writable : x.IsWritable) (v : Valuation) : x.associateInside.eval v = x.eval v := by
  cases shape with
  | literal negated name => rfl
  | @group content holds =>
      have inner : content.associate.eval v = content.eval v := eval_associate (Formula.IsWritable.isUnmarked writable) v
      rw [Operand.eval_group, Bool.bne_false, ← inner, Operand.associateInside]
      split
      · next isLiteral => rw [isLiteral, eval_single]
      · rw [Operand.eval_group, Bool.bne_false]

theorem evalWith_mapOperands {change : Operand → Operand} {f : Formula} {v : Valuation}
    (keeps : ∀ x ∈ f.operands, (change x).eval v = x.eval v) (combine : Bool → Bool) :
    (f.mapOperands change).evalWith v combine = f.evalWith v combine := by
  match f with
  | single x => rw [mapOperands, evalWith, evalWith, keeps x List.mem_cons_self]
  | chain x c rest =>
      rcases List.forall_mem_cons.1 keeps with ⟨first, restKeeps⟩
      rw [mapOperands, evalWith, evalWith, first, evalWith_mapOperands restKeeps]

theorem isLiteralOr_of_mem_distributeOver {P : Formula → Prop} {x y : Operand}
    (left : x.IsLiteralOr P) (right : y.IsLiteralOr P) :
    ∀ z ∈ (Rule.distributeOver .disj .conj x y).operands, z.IsLiteralOr fun _ => True := by
  rcases Rule.distributeOver_cases .disj .conj x y with
    ⟨_, _, same⟩ | ⟨first, rest, pairs, distributed⟩
  · rw [same]
    exact List.forall_mem_cons.2 ⟨left.mono fun _ _ => trivial,
      List.forall_mem_singleton.2 (right.mono fun _ _ => trivial)⟩
  · rw [distributed, operands_join, ← pairs]
    intro z isPair
    simp only [Rule.pairings, List.mem_flatMap, List.mem_map] at isPair
    rcases isPair with ⟨a, _, b, _, rfl⟩
    exact .group trivial

theorem eval_disjoin {P : Formula → Prop} {x y : Operand} (left : x.IsLiteralOr P)
    (right : y.IsLiteralOr P) (leftWritable : x.IsWritable) (rightWritable : y.IsWritable)
    (v : Valuation) : (disjoin x y).eval v = (x.eval v || y.eval v) := by
  have distributed : (Rule.distributeOver .disj .conj x y).IsWritable := by
    intro name isName
    rcases List.mem_append.1 (Rule.names_distributeOver_subset _ _ _ _ isName) with isName | isName
    · exact leftWritable name isName
    · exact rightWritable name isName
  have mapped : ((Rule.distributeOver .disj .conj x y).mapOperands
      Operand.associateInside).IsWritable :=
    names_mapOperands (fun x => Operand.names_associateInside isName_constant) distributed
  have shapes := isLiteralOr_of_mem_distributeOver left right
  rw [disjoin, eval_toOperand, eval_associate mapped.isUnmarked, eval, evalWith_mapOperands]
  · exact Rule.eval_distributeOver rfl x y v
  · intro z isOperand
    exact eval_associateInside (shapes z isOperand) (isWritable_iff.1 distributed z isOperand) v

/-- Joining operands in conjunctive form one after the other gives their disjunction. -/
theorem eval_foldl_disjoin {first : Operand} {rest : List Operand}
    (shapes : ∀ x ∈ first :: rest, x.IsLiteralOr IsConjunctiveRow)
    (writable : ∀ x ∈ first :: rest, x.IsWritable) (v : Valuation) :
    (rest.foldl disjoin first).eval v = true ↔ ∃ x ∈ first :: rest, x.eval v = true := by
  induction rest generalizing first with
  | nil => simp
  | cons second rest ih =>
      rcases List.forall_mem_cons.1 shapes with ⟨firstShape, restShapes⟩
      rcases List.forall_mem_cons.1 restShapes with ⟨secondShape, restShapes⟩
      rcases List.forall_mem_cons.1 writable with ⟨firstWritable, restWritable⟩
      rcases List.forall_mem_cons.1 restWritable with ⟨secondWritable, restWritable⟩
      have joinedShape := isLiteralOr_disjoin firstShape secondShape
      have joinedWritable := names_disjoin isName_constant firstWritable secondWritable
      rw [List.foldl_cons, ih (List.forall_mem_cons.2 ⟨joinedShape, restShapes⟩)
        (List.forall_mem_cons.2 ⟨joinedWritable, restWritable⟩)]
      simp only [List.mem_cons, exists_eq_or_imp, Bool.or_eq_true,
        eval_disjoin firstShape secondShape firstWritable secondWritable, or_assoc]

theorem eval_ofOperand (x : Operand) (v : Valuation) : (ofOperand x).eval v = x.eval v := by
  rcases x with ⟨negated, name⟩ | ⟨_ | _, content⟩ <;> simp [ofOperand]

theorem IsCombinable.eval_combine {f : Formula} (combinable : f.IsCombinable)
    (writable : f.IsWritable) (v : Valuation) : f.combine.eval v = f.eval v := by
  rcases combine_cases combinable with
    ⟨_, simplified⟩ | ⟨first, rest, isChain, restRow, shapes, folded⟩
  · rw [simplified, eval_associate writable.isUnmarked]
  · have disjunctive : (chain first .disj rest).IsRowOf .disj := isRowOf_chain.2 ⟨rfl, restRow⟩
    have simplifiedWritable : (chain first .disj rest).IsWritable := by
      rw [← isChain]
      exact names_associate isName_constant writable
    rw [folded, eval_ofOperand, ← eval_associate writable.isUnmarked, isChain, Bool.eq_iff_iff,
      eval_disj_iff disjunctive]
    exact eval_foldl_disjoin (fun x isOperand => (shapes x isOperand).mono fun _ => .inr)
      (isWritable_iff.1 simplifiedWritable) v

end Formula

mutual

theorem Operand.eval_combineInside {x : Operand} (arrowFree : x.IsArrowFree)
    (normal : x.IsNegationNormal) (writable : x.IsWritable) (v : Valuation) :
    x.combineInside.eval v = x.eval v := by
  match x with
  | .symbol negated name => rfl
  | .group negated content =>
      rcases normal with ⟨rfl, contentNormal⟩
      have combinable := Formula.isCombinable_combineInGroups arrowFree
        (Formula.isLiteralOr_combineInGroups arrowFree contentNormal)
      have inner : content.combineInGroups.eval v = content.eval v :=
        Formula.evalWith_combineInGroups arrowFree contentNormal writable v id
      rw [Operand.combineInside, Operand.eval_group, Operand.eval_group, combinable.eval_combine
        (Formula.names_combineInGroups isName_constant writable), inner]

theorem Formula.evalWith_combineInGroups {f : Formula} (arrowFree : f.IsArrowFree)
    (normal : f.IsNegationNormal) (writable : f.IsWritable) (v : Valuation)
    (combine : Bool → Bool) : f.combineInGroups.evalWith v combine = f.evalWith v combine := by
  match f with
  | .single x =>
      rw [Formula.combineInGroups, Formula.evalWith, Formula.evalWith,
        Operand.eval_combineInside arrowFree normal writable v]
  | .chain x c rest =>
      rcases arrowFree with ⟨_, _, first, restFree⟩
      rcases List.forall_mem_append.1 writable with ⟨firstWritable, restWritable⟩
      rw [Formula.combineInGroups, Formula.evalWith, Formula.evalWith,
        Operand.eval_combineInside first normal.1 firstWritable v,
        Formula.evalWith_combineInGroups restFree normal.2 restWritable v]

end

/-! ### The normal form -/

namespace Formula

/-- A uniform formula whose names can be written has a conjunctive normal form, which means the
same and speaks of no other names but those of constants. -/
theorem IsUniform.exists_conjunctive {f : Formula} {allowed : Connective → Prop}
    (uniform : f.IsUniform allowed) (writable : f.IsWritable) :
    ∃ g, f.conjunctive = .ok g ∧ g.IsConjunctive ∧ (∀ v, g.eval v = f.eval v) ∧
      ∀ name ∈ g.names, name ∈ f.names ∨ ∃ value, constantValue? name = some value := by
  have eliminated : ∀ name ∈ f.eliminate.names, name ∈ f.names := f.names_eliminate_subset
  rcases exists_negationNormal uniform.isArrowFree_eliminate with
    ⟨g, normalized, arrowFree, normal, sameNames, same⟩
  have gWritable : g.IsWritable := by
    intro name isName
    rw [sameNames] at isName
    exact writable name (eliminated name isName)
  have combinable := isCombinable_combineInGroups arrowFree
    (isLiteralOr_combineInGroups arrowFree normal)
  have combinedWritable := names_combineInGroups isName_constant gWritable
  refine ⟨g.combineInGroups.combine.unwrap, by rw [conjunctive, normalized]; rfl,
    combinable.isWrapped_combine.isConjunctive_unwrap, fun v => ?_, ?_⟩
  · calc g.combineInGroups.combine.unwrap.eval v
      _ = g.combineInGroups.combine.eval v := eval_unwrap _ v
      _ = g.combineInGroups.eval v := combinable.eval_combine combinedWritable v
      _ = g.eval v := evalWith_combineInGroups arrowFree normal gWritable v id
      _ = f.eliminate.eval v := same v
      _ = f.eval v := uniform.eval_eliminate v
  · rw [names_unwrap]
    have constants : ∀ value, ∀ name ∈ (Operand.constant value).names,
        name ∈ f.names ∨ ∃ value, constantValue? name = some value := by
      intro value
      cases value
      · exact List.forall_mem_singleton.2 (.inr ⟨false, rfl⟩)
      · exact List.forall_mem_singleton.2 (.inr ⟨true, rfl⟩)
    refine names_combine constants (names_combineInGroups constants fun name isName => .inl ?_)
    rw [sameNames] at isName
    exact eliminated name isName

end Formula

end Entail
