import Entail.Proofs.Formula.Parsed
import Entail.Proofs.Formula.Parser

/-!
# Reading what was written

The written form of a formula whose names can be written is that of an
expression, and so it is read again: each of its rows comes back with its
connectives grouped by strength.  Where every row has at most one connective
nothing is left to group, and what comes back is the formula itself.
-/

namespace Entail

/-! ### Canonical formulas -/

mutual

/-- The names of the operand can be written, and its rows have one connective at most. -/
def Operand.IsCanonical : Operand → Prop
  | .symbol _ name => IsName name
  | .group _ content => content.IsCanonical

/-- The formula is an operand, or two operands with a connective between them; so are the contents
of its groups, and all names can be written. -/
def Formula.IsCanonical : Formula → Prop
  | .single x => x.IsCanonical
  | .chain x _ (.single y) => x.IsCanonical ∧ y.IsCanonical
  | .chain _ _ (.chain _ _ _) => False

end

@[simp]
theorem Formula.isCanonical_single (x : Operand) : (single x).IsCanonical ↔ x.IsCanonical := by
  rw [IsCanonical]

@[simp]
theorem Formula.isCanonical_pair (x : Operand) (c : Connective) (y : Operand) :
    (pair x c y).IsCanonical ↔ x.IsCanonical ∧ y.IsCanonical := by
  rw [pair, IsCanonical]

theorem Formula.IsCanonical.toOperand {f : Formula} (canonical : f.IsCanonical) :
    f.toOperand.IsCanonical := by
  cases f with
  | single x => exact (isCanonical_single x).1 canonical
  | chain x c rest =>
      change (Operand.group false (chain x c rest)).IsCanonical
      rw [Operand.IsCanonical]
      exact canonical

theorem Grouped.isCanonical {row : Row Operand} {f : Formula} (grouped : Grouped row f)
    (operands : row.Forall Operand.IsCanonical) : f.IsCanonical := by
  induction grouped with
  | single x => exact (Formula.isCanonical_single x).2 operands.1
  | split c _ _ _ _ ih ih' =>
      rcases Row.forall_append.1 operands with ⟨left, right⟩
      exact (Formula.isCanonical_pair _ c _).2 ⟨(ih left).toOperand, (ih' right).toOperand⟩

/-- What is parsed is canonical. -/
theorem Formula.isCanonical_of_parse {text : String} {f : Formula} (parsed : parse text = .ok f) :
    f.IsCanonical := by
  refine of_parse (Q := fun _ => True) (fun _ _ => trivial)
    (fun grouped operands => grouped.isCanonical ?_) (fun _ _ => trivial) parsed
  have canonical (x : Operand) (isOver : x.Over (fun _ => True) IsCanonical) : x.IsCanonical := by
    cases x with
    | symbol negated name =>
        rw [Operand.IsCanonical]
        exact isOver.1
    | group negated content =>
        rw [Operand.IsCanonical]
        exact isOver
  exact ⟨canonical _ operands.1, fun pair isPair => canonical _ (operands.2 pair isPair)⟩

mutual

theorem Operand.IsCanonical.isWritable {x : Operand} (canonical : x.IsCanonical) :
    x.IsWritable := by
  match x with
  | .symbol negated name =>
      rw [Operand.IsCanonical] at canonical
      exact List.forall_mem_singleton.2 canonical
  | .group negated content =>
      rw [Operand.IsCanonical] at canonical
      exact Formula.IsCanonical.isWritable canonical

theorem Formula.IsCanonical.isWritable {f : Formula} (canonical : f.IsCanonical) :
    f.IsWritable := by
  match f with
  | .single x =>
      rw [Formula.IsCanonical] at canonical
      exact Operand.IsCanonical.isWritable canonical
  | .chain x c (.single y) =>
      rw [Formula.IsCanonical] at canonical
      exact List.forall_mem_append.2 ⟨Operand.IsCanonical.isWritable canonical.1,
        Operand.IsCanonical.isWritable canonical.2⟩
  | .chain _ _ (.chain _ _ _) =>
      rw [Formula.IsCanonical] at canonical
      contradiction

end

/-! ### Written forms are expressions -/

mutual

/-- The operand with the connectives of its rows grouped by strength. -/
def Operand.regroup : Operand → Operand
  | .symbol negated name => .symbol negated name
  | .group negated content => .group negated content.regroupedRow.byPrecedence

/-- The operands of the formula with the connectives of their rows grouped by strength. -/
def Formula.regroupedRow : Formula → Row Operand
  | .single x => ⟨x.regroup, []⟩
  | .chain x c rest => rest.regroupedRow.cons x.regroup c

end

/-- The formula with the connectives of all its rows grouped by strength. -/
def Formula.regroup (f : Formula) : Formula :=
  f.regroupedRow.byPrecedence

/-- The number of signs that a negation is written with. -/
def signsOf (negated : Bool) : Nat :=
  if negated then 1 else 0

theorem signChars_signsOf (negated : Bool) : signChars (signsOf negated) = signOf negated := by
  cases negated <;> rfl

theorem isOdd_signsOf (negated : Bool) : isOdd (signsOf negated) = negated := by
  cases negated <;> rfl

mutual

/-- An operand is written like a factor that is read as the operand regrouped. -/
theorem Operand.exists_factor {x : Operand} (writable : x.IsWritable) :
    ∃ factor : Factor, factor.chars = x.chars ∧ factor.Reads x.regroup := by
  match x with
  | .symbol negated name =>
      rcases writable name List.mem_cons_self with ⟨word, rfl⟩
      have reads := Factor.Reads.name (signsOf negated) word
      rw [isOdd_signsOf] at reads
      refine ⟨.name (signsOf negated) word, ?_, ?_⟩
      · rw [Factor.chars, Operand.chars, signChars_signsOf, String.toList_ofList]
      · rw [Operand.regroup]
        exact reads
  | .group negated content =>
      rcases Formula.exists_expression (f := content) writable with ⟨inner, chars, operands⟩
      have reads := Factor.Reads.nested (signsOf negated) operands (Row.grouped_byPrecedence _)
      rw [isOdd_signsOf] at reads
      refine ⟨.nested (signsOf negated) inner, ?_, ?_⟩
      · rw [Factor.chars, Operand.chars, signChars_signsOf, chars]
      · rw [Operand.regroup]
        exact reads

/-- A formula is written like an expression that is the row of the formula's operands regrouped. -/
theorem Formula.exists_expression {f : Formula} (writable : f.IsWritable) :
    ∃ e : Expression, e.chars = f.chars ∧ e.Operands f.regroupedRow := by
  match f with
  | .single x =>
      rcases Operand.exists_factor (x := x) writable with ⟨factor, chars, reads⟩
      refine ⟨.single factor, ?_, ?_⟩
      · rw [Expression.chars, Formula.chars, chars]
      · rw [Formula.regroupedRow]
        exact .single reads
  | .chain x c rest =>
      rcases List.forall_mem_append.1 writable with ⟨firstWritable, restWritable⟩
      rcases Operand.exists_factor firstWritable with ⟨factor, chars, reads⟩
      rcases Formula.exists_expression restWritable with ⟨tail, tailChars, operands⟩
      refine ⟨.chain factor c tail, ?_, ?_⟩
      · rw [Expression.chars, Formula.chars, chars, tailChars]
      · rw [Formula.regroupedRow]
        exact .chain reads operands

end

/-- The text of a formula is that of an expression that is read as the formula regrouped. -/
theorem Formula.exists_expression_text {f : Formula} (writable : f.IsWritable) :
    ∃ e : Expression, e.text = f.text ∧ e.Reads f.regroup := by
  rcases exists_expression writable with ⟨e, chars, operands⟩
  exact ⟨e, congrArg String.ofList chars, _, operands, Row.grouped_byPrecedence _⟩

/-- The text of a formula is parsed to the formula regrouped. -/
theorem Formula.parse_text {f : Formula} (writable : f.IsWritable) :
    parse f.text = .ok f.regroup := by
  rcases exists_expression_text writable with ⟨e, text, reads⟩
  rcases e.parse_text with ⟨g, parsed, reads'⟩
  rw [← text, parsed, reads'.unique reads]

/-! ### Canonical formulas come back -/

theorem Row.byPrecedence_of_short {row : Row Operand} (short : row.rest.length < 2) :
    row.byPrecedence = row.formula := by
  rw [byPrecedence, groupLinks_of_short short]

mutual

theorem Operand.IsCanonical.regroup {x : Operand} (canonical : x.IsCanonical) :
    x.regroup = x := by
  match x with
  | .symbol negated name => rw [Operand.regroup]
  | .group negated content =>
      rw [Operand.IsCanonical] at canonical
      have same := Formula.IsCanonical.regroup canonical
      rw [Formula.regroup] at same
      rw [Operand.regroup, same]

theorem Formula.IsCanonical.regroup {f : Formula} (canonical : f.IsCanonical) :
    f.regroup = f := by
  match f with
  | .single x =>
      rw [Formula.IsCanonical] at canonical
      rw [Formula.regroup, Row.byPrecedence_of_short] <;> rw [Formula.regroupedRow]
      · rw [Operand.IsCanonical.regroup canonical]
        rfl
      · exact Nat.zero_lt_two
  | .chain x c (.single y) =>
      rw [Formula.IsCanonical] at canonical
      rw [Formula.regroup, Row.byPrecedence_of_short] <;>
        rw [Formula.regroupedRow, Formula.regroupedRow]
      · rw [Operand.IsCanonical.regroup canonical.1, Operand.IsCanonical.regroup canonical.2]
        rfl
      · exact Nat.one_lt_two
  | .chain _ _ (.chain _ _ _) =>
      rw [Formula.IsCanonical] at canonical
      contradiction

end

/-- The text of a canonical formula is parsed to the formula. -/
theorem Formula.IsCanonical.parse_text {f : Formula} (canonical : f.IsCanonical) :
    parse f.text = .ok f := by
  rw [Formula.parse_text canonical.isWritable, canonical.regroup]

end Entail
