import Entail.Formula.Parser

/-!
# The grammar of formulas

An expression is a row of factors with a connective between neighbours; a
factor is a name or a parenthesized expression behind any number of negation
signs.  An expression is read by splitting its row at the last of its weakest
connectives, again and again.
-/

namespace Entail

/-! ### Written expressions -/

/-- A name as it can be written. -/
structure Name where
  chars : List Char
  nonempty : chars ≠ []
  plain : ∀ c ∈ chars, Token.isNameChar c = true

mutual

/-- The ways to write a factor. -/
inductive Factor
  | name (signs : Nat) (name : Name)
  | nested (signs : Nat) (inner : Expression)

/-- The ways to write an expression. -/
inductive Expression
  | single (factor : Factor)
  | chain (first : Factor) (link : Connective) (rest : Expression)

end

/-- A number of negation signs. -/
def signChars (signs : Nat) : List Char :=
  List.replicate signs '~'

mutual

/-- The text of a factor. -/
def Factor.chars : Factor → List Char
  | .name signs name => signChars signs ++ name.chars
  | .nested signs inner => signChars signs ++ '(' :: inner.chars ++ [')']

/-- The text of an expression. -/
def Expression.chars : Expression → List Char
  | .single x => x.chars
  | .chain x c rest => x.chars ++ c.spelling.toList ++ rest.chars

end

/-- The text of an expression. -/
def Expression.text (e : Expression) : String :=
  String.ofList e.chars

/-! ### Their meaning -/

namespace Connective

/-- The place of a connective in the order of strength, the strongest first. -/
def rank : Connective → Nat
  | conj => 0
  | disj => 1
  | impl => 2
  | iff => 3

theorem rank_injective {c d : Connective} (same : c.rank = d.rank) : c = d := by
  cases c <;> cases d <;> first | rfl | contradiction

end Connective

namespace Row

variable {α : Type}

/-- The connectives of a row. -/
def links (row : Row α) : List Connective :=
  row.rest.map Prod.fst

/-- Two rows joined by a connective. -/
def append (left : Row α) (c : Connective) (right : Row α) : Row α :=
  ⟨left.first, left.rest ++ (c, right.first) :: right.rest⟩

end Row

/-- The formula of a row of operands: one operand stands for itself, and a longer row is split at a
connective that binds no tighter than those on its left and less tight than those on its right. -/
inductive Grouped : Row Operand → Formula → Prop
  | single (x : Operand) : Grouped ⟨x, []⟩ (.single x)
  | split {left right : Row Operand} {f g : Formula} (c : Connective) :
      (∀ d ∈ left.links, d.rank ≤ c.rank) → (∀ d ∈ right.links, d.rank < c.rank) →
      Grouped left f → Grouped right g →
      Grouped (left.append c right) (.pair f.toOperand c g.toOperand)

/-- Whether a number of negation signs negates. -/
def isOdd (signs : Nat) : Bool :=
  signs % 2 = 1

mutual

/-- The operand that a factor is: a name, or the group of what is in its parentheses; it is negated
if the number of its signs is odd. -/
inductive Factor.Reads : Factor → Operand → Prop
  | name (signs : Nat) (name : Name) :
      Factor.Reads (.name signs name) (.symbol (isOdd signs) (String.ofList name.chars))
  | nested (signs : Nat) {inner : Expression} {row : Row Operand} {content : Formula} :
      Expression.Operands inner row → Grouped row content →
      Factor.Reads (.nested signs inner) (.group (isOdd signs) content)

/-- The row of operands that an expression is. -/
inductive Expression.Operands : Expression → Row Operand → Prop
  | single {factor : Factor} {x : Operand} : Factor.Reads factor x →
      Expression.Operands (.single factor) ⟨x, []⟩
  | chain {first : Factor} {x : Operand} {c : Connective} {rest : Expression}
      {row : Row Operand} : Factor.Reads first x → Expression.Operands rest row →
      Expression.Operands (.chain first c rest) (row.cons x c)

end

/-- The formula that an expression is. -/
def Expression.Reads (e : Expression) (f : Formula) : Prop :=
  ∃ row, e.Operands row ∧ Grouped row f

/-! ### There is one reading at most -/

/-- A row is split at one place at most. -/
theorem Row.append_inj {α : Type} {left right left' right' : Row α} {c c' : Connective}
    (same : left.append c right = left'.append c' right')
    (leftBound : ∀ d ∈ left.links, d.rank ≤ c.rank)
    (rightBound : ∀ d ∈ right.links, d.rank < c.rank)
    (leftBound' : ∀ d ∈ left'.links, d.rank ≤ c'.rank)
    (rightBound' : ∀ d ∈ right'.links, d.rank < c'.rank) :
    left = left' ∧ c = c' ∧ right = right' := by
  rcases left with ⟨x, rest⟩
  rcases left' with ⟨x', rest'⟩
  rcases right with ⟨y, after⟩
  rcases right' with ⟨y', after'⟩
  simp only [append, links, Row.mk.injEq] at *
  rcases same with ⟨rfl, same⟩
  rcases List.append_eq_append_iff.1 same with ⟨between, longer, tail⟩ | ⟨between, longer, tail⟩
  · cases between with
    | nil => simp_all
    | cons pair between =>
        rw [List.cons_append, List.cons.injEq] at tail
        rcases tail with ⟨rfl, tail⟩
        have weaker := leftBound' c (by simp [longer])
        have stronger := rightBound c' (by simp [tail])
        exact absurd weaker (Nat.not_le.2 stronger)
  · cases between with
    | nil => simp_all
    | cons pair between =>
        rw [List.cons_append, List.cons.injEq] at tail
        rcases tail with ⟨rfl, tail⟩
        have weaker := leftBound c' (by simp [longer])
        have stronger := rightBound' c (by simp [tail])
        exact absurd weaker (Nat.not_le.2 stronger)

theorem Grouped.unique {row : Row Operand} {f g : Formula} (first : Grouped row f)
    (second : Grouped row g) : f = g := by
  induction first generalizing g with
  | single x =>
      generalize isSingle : (⟨x, []⟩ : Row Operand) = row at second
      cases second with
      | single => cases isSingle; rfl
      | split => simp [Row.append] at isSingle
  | @split left right f f' c leftBound rightBound _ _ ih ih' =>
      generalize same : left.append c right = row at second
      cases second with
      | single => simp [Row.append] at same
      | split c' leftBound' rightBound' second second' =>
          rcases Row.append_inj same leftBound rightBound leftBound' rightBound' with
            ⟨rfl, rfl, rfl⟩
          rw [ih second, ih' second']

mutual

theorem Factor.Reads.unique {factor : Factor} {x y : Operand} (first : factor.Reads x)
    (second : factor.Reads y) : x = y := by
  cases first with
  | name => cases second; rfl
  | nested _ operands grouped =>
      cases second with
      | nested _ operands' grouped' =>
          rcases Expression.Operands.unique operands operands' with rfl
          rw [grouped.unique grouped']

theorem Expression.Operands.unique {e : Expression} {row row' : Row Operand}
    (first : e.Operands row) (second : e.Operands row') : row = row' := by
  cases first with
  | single reads =>
      cases second with
      | single reads' => rw [Factor.Reads.unique reads reads']
  | chain reads operands =>
      cases second with
      | chain reads' operands' =>
          rw [Factor.Reads.unique reads reads', Expression.Operands.unique operands operands']

end

/-- An expression has one reading at most. -/
theorem Expression.Reads.unique {e : Expression} {f g : Formula} (first : e.Reads f)
    (second : e.Reads g) : f = g := by
  rcases first with ⟨row, operands, grouped⟩
  rcases second with ⟨row', operands', grouped'⟩
  rcases operands.unique operands' with rfl
  exact grouped.unique grouped'

end Entail
