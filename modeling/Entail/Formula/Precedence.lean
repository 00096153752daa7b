import Entail.Formula.Row

/-!
# Precedence

A row that mixes connectives is read by their strength: the connectives are
taken from the strongest to the weakest, and each of them is put into a group
with its two neighbours, from left to right, until one connective is left.
-/

namespace Entail

namespace Formula

/-- Merges each connective that `selected` holds of with its two neighbours, from left to right;
`x` and `c` are the operand and the connective in front of the row. -/
def mergeLinksAfter (selected : Connective → Bool)
    (merge : Operand → Connective → Operand → Operand) (x : Operand) (c : Connective) :
    Formula → Formula
  | single y => if selected c then single (merge x c y) else pair x c y
  | chain y d rest =>
    if selected c then mergeLinksAfter selected merge (merge x c y) d rest
    else chain x c (mergeLinksAfter selected merge y d rest)

/-- The row in which every connective that `selected` holds of is merged with its neighbours. -/
def mergeLinks (selected : Connective → Bool)
    (merge : Operand → Connective → Operand → Operand) : Formula → Formula
  | single x => single x
  | chain x c rest => mergeLinksAfter selected merge x c rest

end Formula

namespace Row

/-- Merges the leftmost link of the given connective with its two neighbours, if there is one. -/
def mergeFirst? {α : Type} (merge : α → Connective → α → α) (c : Connective) (x : α) :
    List (Connective × α) → Option (Row α)
  | [] => none
  | (d, y) :: rest =>
    if d = c then some ⟨merge x d y, rest⟩ else (mergeFirst? merge c y rest).map (cons x d)

theorem length_mergeFirst? {α : Type} {merge : α → Connective → α → α} {c : Connective} {x : α}
    {rest : List (Connective × α)} {row : Row α}
    (merged : mergeFirst? merge c x rest = some row) : row.rest.length + 1 = rest.length := by
  induction rest generalizing x row with
  | nil => contradiction
  | cons pair rest ih =>
    obtain ⟨d, y⟩ := pair
    simp only [mergeFirst?] at merged
    split at merged
    · cases merged
      rfl
    · obtain ⟨tail, mergedTail, rfl⟩ := Option.map_eq_some_iff.1 merged
      simp [cons, ← ih mergedTail]

/-- Merges the links of the given connectives, those of the first one first, and each one's from
left to right, as long as there are several links. -/
def groupLinks {α : Type} (merge : α → Connective → α → α) :
    List Connective → Row α → Row α
  | [], row => row
  | c :: weaker, row =>
    if row.rest.length < 2 then row
    else
      match merged : mergeFirst? merge c row.first row.rest with
      | some shorter =>
        have := length_mergeFirst? merged
        groupLinks merge (c :: weaker) shorter
      | none => groupLinks merge weaker row
termination_by levels row => levels.length + row.rest.length

/-- Two operands and their connective as one operand. -/
def enclose (x : Operand) (c : Connective) (y : Operand) : Operand :=
  .group false (.pair x c y)

/-- The formula of a row, its connectives grouped by strength. -/
def byPrecedence (row : Row Operand) : Formula :=
  (row.groupLinks enclose Connective.byStrength).formula

end Row

end Entail
