import Entail.Formula.Valuation

/-!
# Clauses

A clause is a disjunction of literals, given as their list; the list may hold a
literal repeatedly or together with its complement.  The empty clause is false
under every assignment.  In clauses every name is an ordinary variable, also
the names of the truth constants.
-/

namespace Entail

/-- A symbol or its negation. -/
structure Literal where
  name : String
  negated : Bool
  deriving DecidableEq, Repr

/-- A disjunction of literals. -/
abbrev Clause := List Literal

namespace Literal

/-- How a literal is written. -/
def text (l : Literal) : String :=
  (if l.negated then "~" else "") ++ l.name

/-- The literal of a written form. -/
def ofText (text : String) : Literal :=
  match text.toList with
  | '~' :: name => ⟨String.ofList name, true⟩
  | name => ⟨String.ofList name, false⟩

def complement (l : Literal) : Literal :=
  { l with negated := !l.negated }

/-- The truth value of a literal. -/
def eval (v : Valuation) (l : Literal) : Bool :=
  v l.name != l.negated

/-- The literal as an operand of a formula. -/
def toOperand (l : Literal) : Operand :=
  .symbol l.negated l.name

end Literal

namespace Clause

/-- How a clause is written. -/
def text : Clause → String
  | [] => "\x7b\x7d"
  | literals => "||".intercalate (literals.map Literal.text)

/-- The truth value of a clause. -/
def eval (v : Valuation) (clause : Clause) : Bool :=
  clause.any (·.eval v)

/-- The literal of a clause that holds no other. -/
def unit? : Clause → Option Literal
  | [l] => some l
  | _ => none

end Clause

/-- The clauses that are left to satisfy once a literal is true: those without it, each without
the complement of the literal. -/
def assume (l : Literal) (clauses : List Clause) : List Clause :=
  clauses.filterMap fun clause =>
    if clause.contains l then none else some (clause.filter (·.name != l.name))

/-- The names of the literals in a list of clauses, repetitions included. -/
def clauseNames (clauses : List Clause) : List String :=
  clauses.flatMap fun clause => clause.map Literal.name

/-- The number of distinct symbols in a list of clauses. -/
def symbolCount (clauses : List Clause) : Nat :=
  (clauseNames clauses).eraseDups.length

@[simp]
theorem assume_nil (l : Literal) : assume l [] = [] := rfl

theorem assume_cons (l : Literal) (clause : Clause) (clauses : List Clause) :
    assume l (clause :: clauses) =
      if clause.contains l then assume l clauses
      else clause.filter (·.name != l.name) :: assume l clauses := by
  rw [assume, List.filterMap_cons]
  split <;> simp_all [assume]

theorem mem_clauseNames {clauses : List Clause} {name : String} :
    name ∈ clauseNames clauses ↔ ∃ clause ∈ clauses, ∃ l ∈ clause, l.name = name := by
  simp [clauseNames]

/-- The symbol of an assumed literal does not occur any more, and no symbol is new. -/
theorem mem_clauseNames_of_assume {l : Literal} {clauses : List Clause} {name : String}
    (occurs : name ∈ clauseNames (assume l clauses)) :
    name ∈ clauseNames clauses ∧ name ≠ l.name := by
  obtain ⟨clause, isLeft, m, occurs, rfl⟩ := mem_clauseNames.1 occurs
  obtain ⟨whole, isClause, shortened⟩ := List.mem_filterMap.1 isLeft
  split at shortened
  · simp at shortened
  · cases shortened
    obtain ⟨isLiteral, differs⟩ := List.mem_filter.1 occurs
    exact ⟨mem_clauseNames.2 ⟨whole, isClause, m, isLiteral, rfl⟩, by simpa using differs⟩

theorem length_eraseDups_eq_of_mem {name : String} {names : List String} (occurs : name ∈ names) :
    names.eraseDups.length = (names.filter (!· == name)).eraseDups.length + 1 := by
  match names with
  | [] => simp at occurs
  | first :: rest =>
    have shorter := List.length_filter_le (!· == first) rest
    rw [List.eraseDups_cons, List.length_cons]
    by_cases isFirst : first = name
    · subst isFirst
      simp
    · have differs : ¬ name = first := fun same => isFirst same.symm
      have inRest : name ∈ rest.filter (!· == first) := by simpa [differs] using occurs
      have ih := length_eraseDups_eq_of_mem inRest
      have commuted : (rest.filter (!· == first)).filter (!· == name) =
          (rest.filter (!· == name)).filter (!· == first) := by
        simp only [List.filter_filter]
        exact congrArg (rest.filter ·) (funext fun _ => Bool.and_comm _ _)
      rw [List.filter_cons_of_pos (by simpa using isFirst), List.eraseDups_cons, List.length_cons,
        ← commuted, ih]
termination_by names.length
decreasing_by simp only [List.length_cons]; omega

theorem length_eraseDups_le_of_subset {left right : List String} (subset : left ⊆ right) :
    left.eraseDups.length ≤ right.eraseDups.length := by
  match left with
  | [] => simp
  | first :: rest =>
    have shorter := List.length_filter_le (!· == first) rest
    have smaller : rest.filter (!· == first) ⊆ right.filter (!· == first) := by
      intro name isLeft
      obtain ⟨inRest, differs⟩ := List.mem_filter.1 isLeft
      exact List.mem_filter.2 ⟨subset (List.mem_cons_of_mem _ inRest), differs⟩
    have ih := length_eraseDups_le_of_subset smaller
    rw [length_eraseDups_eq_of_mem (subset List.mem_cons_self), List.eraseDups_cons]
    simpa using ih
termination_by left.length
decreasing_by simp only [List.length_cons]; omega

/-- Assuming a literal whose symbol occurs takes that symbol away. -/
theorem symbolCount_assume_lt {l : Literal} {clauses : List Clause}
    (occurs : l.name ∈ clauseNames clauses) :
    symbolCount (assume l clauses) < symbolCount clauses := by
  have subset : clauseNames (assume l clauses) ⊆ (clauseNames clauses).filter (!· == l.name) := by
    intro name isLeft
    obtain ⟨isName, differs⟩ := mem_clauseNames_of_assume isLeft
    exact List.mem_filter.2 ⟨isName, by simpa using differs⟩
  have fewer := length_eraseDups_le_of_subset subset
  have removed := length_eraseDups_eq_of_mem occurs
  simp only [symbolCount]
  omega

/-- Adding a literal whose symbol occurs already adds no symbol. -/
theorem symbolCount_append_unit_le {l : Literal} {clauses : List Clause}
    (occurs : l.name ∈ clauseNames clauses) :
    symbolCount (clauses ++ [[l]]) ≤ symbolCount clauses := by
  refine length_eraseDups_le_of_subset fun name isName => ?_
  have : name ∈ clauseNames clauses ∨ name = l.name := by simpa [clauseNames] using isName
  exact this.elim id fun same => same ▸ occurs

end Entail
