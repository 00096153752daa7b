/-!
# Tab stops

A tab stands for the blanks up to the next column that is a multiple of eight.
Columns are counted anew after a line feed or a carriage return.
-/

namespace Entail.Text

/-- The distance between two tab stops. -/
def tabWidth : Nat := 8

/-- Replaces the tabs of a text that begins in the given column. -/
def expandTabsFrom (column : Nat) : List Char → List Char
  | [] => []
  | c :: rest =>
    if c = '\t' then
      let gap := tabWidth - column % tabWidth
      List.replicate gap ' ' ++ expandTabsFrom (column + gap) rest
    else if c = '\n' ∨ c = '\r' then c :: expandTabsFrom 0 rest
    else c :: expandTabsFrom (column + 1) rest

/-- The text with every tab replaced by spaces. -/
def expandTabs (cs : List Char) : List Char :=
  expandTabsFrom 0 cs

/-- A text without tabs is not changed. -/
theorem expandTabsFrom_eq_self {cs : List Char} (noTab : '\t' ∉ cs) (column : Nat) :
    expandTabsFrom column cs = cs := by
  induction cs generalizing column with
  | nil => rfl
  | cons c rest ih =>
    have notTab : c ≠ '\t' := fun h => noTab (by simp [h])
    have noTabRest : '\t' ∉ rest := fun h => noTab (by simp [h])
    simp [expandTabsFrom, notTab, ih noTabRest]

end Entail.Text
