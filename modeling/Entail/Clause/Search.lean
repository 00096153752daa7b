import Entail.Clause.Basic

/-!
# Searching for a satisfying assignment

The search of Davis, Putnam, Logemann and Loveland: literals that stand alone
in a clause are assumed as long as there are any, then the first symbol of the
first clause is tried with both values.  The search keeps the path of literals
assumed so far; symbols that are not on it in the end may have any value.
-/

namespace Entail

theorem Clause.eq_of_unit? {clause : Clause} {l : Literal} (unit : clause.unit? = some l) :
    clause = [l] := by
  unfold Clause.unit? at unit
  split at unit <;> simp_all

/-- The number of steps that a search takes at most on a branch: a symbol takes one step to be
tried and one to be assumed, and it is tried only if no literal stands alone. -/
def searchBound (clauses : List Clause) : Nat :=
  2 * symbolCount clauses + if (clauses.findSome? Clause.unit?).isSome then 0 else 1

theorem searchBound_assume_lt {l : Literal} {clauses : List Clause}
    (unit : clauses.findSome? Clause.unit? = some l) :
    searchBound (assume l clauses) < searchBound clauses := by
  obtain ⟨clause, isClause, isUnit⟩ := List.exists_of_findSome?_eq_some unit
  rw [Clause.eq_of_unit? isUnit] at isClause
  have := symbolCount_assume_lt (mem_clauseNames.2 ⟨_, isClause, l, List.mem_singleton.2 rfl, rfl⟩)
  simp only [searchBound, unit]
  split <;> simp <;> omega

theorem searchBound_append_unit_lt {l : Literal} {clauses : List Clause}
    (noUnit : clauses.findSome? Clause.unit? = none) (occurs : l.name ∈ clauseNames clauses) :
    searchBound (clauses ++ [[l]]) < searchBound clauses := by
  have := symbolCount_append_unit_le occurs
  have unit : (clauses ++ [[l]]).findSome? Clause.unit? = some l := by
    simp [List.findSome?_append, noUnit, Clause.unit?]
  simp only [searchBound, noUnit, unit]
  simp
  omega

/-- Searches for literals that satisfy all clauses, and appends them to the path. -/
def search (clauses : List Clause) (path : List Literal) : Option (List Literal) :=
  if clauses.any List.isEmpty then none
  else
    match unit : clauses.findSome? Clause.unit? with
    | some l =>
      have := searchBound_assume_lt unit
      search (assume l clauses) (path ++ [l])
    | none =>
      match clauses with
      | [] => some path
      | [] :: _ => none
      | (first :: others) :: rest =>
        have branch (negated : Bool) :=
          searchBound_append_unit_lt (l := ⟨first.name, negated⟩) unit (by simp [clauseNames])
        have := branch false
        have := branch true
        match search (((first :: others) :: rest) ++ [[⟨first.name, false⟩]]) path with
        | some found => some found
        | none => search (((first :: others) :: rest) ++ [[⟨first.name, true⟩]]) path
termination_by searchBound clauses

end Entail
