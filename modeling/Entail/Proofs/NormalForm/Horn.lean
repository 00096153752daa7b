import Entail.NormalForm.Horn
import Entail.Proofs.NormalForm.Conjunctive

/-!
# Horn forms keep the meaning

A formula that has a Horn form means what that form means: a literal, or an
implication of a symbol from positive symbols.  A form speaks of the names of
its formula only, except that a constraint implies the constant `false`.
-/

namespace Entail

namespace Formula

/-! ### Horn clauses -/

/-- A Horn clause in which only names with the property occur: a literal, or an implication from
positive symbols of a symbol, which may also be the constant `false`. -/
inductive IsClauseOver (isVariable : String → Prop) : Formula → Prop
  | literal (negated : Bool) {name : String} : isVariable name →
      IsClauseOver isVariable (single (.symbol negated name))
  | implication {antecedent : Operand} {name : String} : antecedent.isPositive = true →
      (∀ other ∈ antecedent.names, isVariable other) → isVariable name ∨ name = falseName →
      IsClauseOver isVariable (pair antecedent .impl (.symbol false name))

theorem isPositive_iff {f : Formula} : f.isPositive = true ↔
    (∀ c ∈ f.links, c.isJunction = true) ∧ ∀ x ∈ f.operands, x.isPositive = true := by
  cases f with
  | single x => simp [isPositive, links, operands]
  | chain x c rest =>
      simp only [isPositive, Bool.and_eq_true, isPositive_iff (f := rest), links, operands,
        List.forall_mem_cons]
      grind

theorem isPositive_toOperand (f : Formula) : f.toOperand.isPositive = f.isPositive := by
  cases f <;> rfl

section Antecedent

variable (first : Operand) (rest : List Operand)

theorem eval_antecedentOf (v : Valuation) :
    (antecedentOf first rest).eval v = true ↔ ∀ x ∈ first :: rest, x.eval v = false := by
  rw [antecedentOf, eval_toOperand, eval_conj_iff (isRowOf_join _ _ _), operands_join]
  simp

theorem names_antecedentOf :
    (antecedentOf first rest).names = (first :: rest).flatMap Operand.names := by
  rw [antecedentOf, names_toOperand, names_eq_flatMap, operands_join]
  simp [List.flatMap_map]

theorem isPositive_antecedentOf
    (negative : ∀ x ∈ first :: rest, x.isSymbol = true ∧ x.negated = true) :
    (antecedentOf first rest).isPositive = true := by
  have toggled : ∀ x ∈ first :: rest, x.toggle.isPositive = true := by
    intro x isLiteral
    rcases negative x isLiteral with ⟨isSymbol, isNegated⟩
    cases x with
    | symbol negated name =>
        simpa [Operand.toggle, Operand.isPositive, Operand.negated] using isNegated
    | group => contradiction
  rw [antecedentOf, isPositive_toOperand, isPositive_iff, operands_join]
  refine ⟨fun c isLink => isRowOf_join _ _ _ c isLink ▸ rfl, ?_⟩
  rw [← List.map_cons, List.forall_mem_map]
  exact toggled

end Antecedent

theorem eval_implicationFrom (literals : List Operand) (consequent : Operand) (v : Valuation) :
    (implicationFrom literals consequent).eval v = true ↔
      (∃ x ∈ literals, x.eval v = true) ∨ consequent.eval v = true := by
  cases literals with
  | nil => simp [implicationFrom]
  | cons first rest =>
      have means := eval_antecedentOf first rest v
      rw [implicationFrom, eval_pair, Connective.apply, Bool.or_eq_true, Bool.not_eq_true',
        ← Bool.not_eq_true, means]
      push Not
      simp only [ne_eq, Bool.not_eq_false]

/-- An implication from negative literals is a Horn clause. -/
theorem isClauseOver_implicationFrom {isVariable : String → Prop} {literals : List Operand}
    {name : String}
    (negative : ∀ x ∈ literals, x.isSymbol = true ∧ x.negated = true)
    (named : ∀ x ∈ literals, ∀ other ∈ x.names, isVariable other)
    (consequent : isVariable name ∨ name = falseName ∧ literals ≠ []) :
    (implicationFrom literals (.symbol false name)).IsClauseOver isVariable := by
  cases literals with
  | nil => exact .literal false (by simpa using consequent)
  | cons first rest =>
      refine .implication (isPositive_antecedentOf _ _ negative) ?_ (consequent.imp id And.left)
      simpa only [names_antecedentOf, List.mem_flatMap, forall_exists_index, and_imp,
        forall_comm (α := String)] using named

theorem exists_name_of_not_negated {x : Operand} (isSymbol : x.isSymbol = true)
    (positive : x.negated = false) : ∃ name, x = .symbol false name := by
  cases x with
  | symbol negated name => exact ⟨name, by simpa [Operand.negated] using positive⟩
  | group => contradiction

/-- The Horn form of a row of literals is a Horn clause that means the row. -/
theorem hornOfRow_means {source row clause : Formula} {isVariable : String → Prop}
    (made : hornOfRow source row = .ok clause) (literals : ∀ x ∈ row.operands, x.isSymbol = true)
    (named : ∀ name ∈ row.names, isVariable name) :
    row.IsRowOf .disj ∧ clause.IsClauseOver isVariable ∧ ∀ v, clause.eval v = row.eval v := by
  rw [hornOfRow] at made
  split at made
  · contradiction
  next disjunctive =>
  have row' : row.IsRowOf .disj := by simpa [IsRowOf] using disjunctive
  have listed : ∀ x ∈ row.operands, ∀ name ∈ x.names, isVariable name :=
    fun x isOperand name isName => named name (names_subset_of_mem_operands isOperand isName)
  have negatives : ∀ x ∈ row.operands.filter (·.negated),
      x.isSymbol = true ∧ x.negated = true := by
    intro x isNegative
    rcases List.mem_filter.1 isNegative with ⟨isOperand, isNegated⟩
    exact ⟨literals x isOperand, isNegated⟩
  refine ⟨row', ?_⟩
  split at made
  · next noPositive =>
      cases made
      have allNegative : row.operands.filter (·.negated) = row.operands := by
        rw [List.filter_eq_self]
        simpa using List.filter_eq_nil_iff.1 noPositive
      constructor
      · exact isClauseOver_implicationFrom (allNegative ▸ negatives) listed
          (.inr ⟨rfl, row.operands_ne_nil⟩)
      · intro v
        rw [Bool.eq_iff_iff, eval_implicationFrom, eval_disj_iff row']
        simp [Operand.constant, Operand.eval, Valuation.value, constantValue?, falseName, trueName]
  · next positive onlyPositive =>
      cases made
      have isOnly : positive ∈ row.operands ∧ positive.negated = false := by
        have isPositive : positive ∈ row.operands.filter (!·.negated) := by
          simp [onlyPositive]
        simpa using List.mem_filter.1 isPositive
      rcases exists_name_of_not_negated (literals positive isOnly.1) isOnly.2 with ⟨name, rfl⟩
      constructor
      · refine isClauseOver_implicationFrom negatives ?_ (.inl ?_)
        · exact fun x isNegative => listed x (List.mem_of_mem_filter isNegative)
        · exact listed _ isOnly.1 name List.mem_cons_self
      · intro v
        have parts : (∃ x ∈ row.operands, x.eval v = true) ↔
            (∃ x ∈ row.operands.filter (·.negated), x.eval v = true) ∨
              ∃ x ∈ row.operands.filter (!·.negated), x.eval v = true := by
          simp only [List.mem_filter]
          grind
        rw [Bool.eq_iff_iff, eval_implicationFrom, eval_disj_iff row', parts, onlyPositive]
        simp
  · contradiction

theorem isClauseOver_of_isLiteral {f : Formula} {isVariable : String → Prop}
    (isLiteral : f.isLiteral = true) (named : ∀ name ∈ f.names, isVariable name) :
    f.IsClauseOver isVariable := by
  match f with
  | single (.symbol negated name) => exact .literal negated (named name List.mem_cons_self)
  | single (.group _ _) => contradiction
  | chain _ _ _ => contradiction

theorem isClauseOver_of_isDefinite {f : Formula} {isVariable : String → Prop}
    (isDefinite : f.isDefinite = true) (named : ∀ name ∈ f.names, isVariable name) :
    f.IsClauseOver isVariable := by
  unfold Formula.isDefinite at isDefinite
  split at isDefinite
  · next antecedent name =>
      rcases List.forall_mem_append.1 named with ⟨antecedentNamed, consequentNamed⟩
      exact .implication isDefinite antecedentNamed (.inl (consequentNamed name List.mem_cons_self))
  · contradiction

/-- The Horn form of a uniform formula is a Horn clause that means the formula. -/
theorem horn_means {f clause : Formula} {allowed : Connective → Prop} {isVariable : String → Prop}
    (uniform : f.IsUniform allowed) (made : f.horn = .ok clause)
    (named : ∀ name ∈ f.names, isVariable name) :
    clause.IsClauseOver isVariable ∧ ∀ v, clause.eval v = f.eval v := by
  simp only [horn] at made
  have named' : ∀ name ∈ f.unwrap.names, isVariable name := by rwa [names_unwrap]
  split at made
  · next kept =>
      cases made
      refine ⟨?_, eval_unwrap f⟩
      rcases (Bool.or_eq_true ..).mp kept with isLiteral | isDefinite
      · exact isClauseOver_of_isLiteral isLiteral named'
      · exact isClauseOver_of_isDefinite isDefinite named'
  · split at made
    · contradiction
    · split at made
      · next row flat =>
          have rowNamed : ∀ name ∈ row.names, isVariable name := by
            rw [names_literalRow flat]
            exact fun name isName => named' name (names_eliminate_subset _ isName)
          rcases hornOfRow_means made (isSymbol_of_literalRow flat) rowNamed with
            ⟨disjunctive, isClause, means⟩
          refine ⟨isClause, fun v => ?_⟩
          calc clause.eval v
            _ = row.eval v := means v
            _ = f.unwrap.eliminate.eval v := eval_flatten flat rfl disjunctive v
            _ = f.unwrap.eval v := uniform.unwrap.eval_eliminate v
            _ = f.eval v := eval_unwrap f v
      · contradiction

theorem IsClauseOver.forall_names {isVariable : String → Prop} {f : Formula}
    (isClause : f.IsClauseOver isVariable) :
    ∀ name ∈ f.names, isVariable name ∨ name = falseName := by
  cases isClause with
  | literal negated named => exact List.forall_mem_singleton.2 (.inl named)
  | implication positive named concluded =>
      exact List.forall_mem_append.2
        ⟨fun name isName => .inl (named name isName), List.forall_mem_singleton.2 concluded⟩

theorem isUniform_of_isSymbol {allowed : Connective → Prop} {x : Operand}
    (isSymbol : x.isSymbol = true) : x.IsUniform allowed := by
  cases x with
  | symbol => trivial
  | group => contradiction

theorem isUniform_implicationFrom {literals : List Operand} {consequent : Operand}
    (symbols : ∀ x ∈ literals, x.isSymbol = true) (isSymbol : consequent.isSymbol = true) :
    (implicationFrom literals consequent).IsUniform fun _ => True := by
  cases literals with
  | nil => exact isUniform_of_isSymbol isSymbol
  | cons first rest =>
      refine isUniform_pair.2 ⟨trivial, IsUniform.toOperand (isUniform_join trivial ?_),
        isUniform_of_isSymbol isSymbol⟩
      rw [← List.map_cons, List.forall_mem_map]
      exact fun x isLiteral =>
        Operand.isUniform_toggle.2 (isUniform_of_isSymbol (symbols x isLiteral))

/-- The Horn form of a uniform formula is uniform. -/
theorem IsUniform.horn {f clause : Formula} (uniform : f.IsUniform fun _ => True)
    (made : f.horn = .ok clause) : clause.IsUniform fun _ => True := by
  simp only [Formula.horn] at made
  split at made
  · cases made
    exact uniform.unwrap
  · split at made
    · contradiction
    · split at made
      · next row flat =>
          have symbols := isSymbol_of_literalRow flat
          rw [hornOfRow] at made
          split at made
          · contradiction
          · split at made
            · cases made
              exact isUniform_implicationFrom symbols rfl
            · next positive onlyPositive =>
                cases made
                have isOperand : positive ∈ row.operands :=
                  List.mem_of_mem_filter (onlyPositive ▸ List.mem_singleton_self positive)
                exact isUniform_implicationFrom
                  (fun x isNegative => symbols x (List.mem_of_mem_filter isNegative))
                  (symbols positive isOperand)
            · contradiction
      · contradiction

end Formula

end Entail
