import Mathlib.Data.Fintype.Card
import Mathlib.Data.Fintype.Pi
import Mathlib.Data.Fintype.List
import Entail.Proofs.Truth.Columns

/-!
# Assignments to the symbols of a table

There are as many rows in the whole table over distinct symbols as there are
choices of truth values for them, and each choice is made in one row.
-/

namespace Entail

/-- A truth value for each of the given symbols. -/
abbrev Assignment (symbols : List String) : Type :=
  { name // name ∈ symbols } → Bool

namespace Assignment

variable {symbols : List String}

/-- The valuation with the given values, under which all other names are false. -/
def valuation (a : Assignment symbols) : Valuation := fun name =>
  if listed : name ∈ symbols then a ⟨name, listed⟩ else false

theorem valuation_of_mem (a : Assignment symbols) {name : String} (listed : name ∈ symbols) :
    a.valuation name = a ⟨name, listed⟩ :=
  dif_pos listed

/-- The assignment of a row of the whole table. -/
def ofRow (symbols : List String) (row : Nat) : Assignment symbols := fun name =>
  (Table.full symbols).valuation row name

theorem exists_ofRow_eq (distinct : symbols.Nodup) (a : Assignment symbols) :
    ∃ row < 2 ^ symbols.length, ofRow symbols row = a := by
  obtain ⟨row, inRange, agree⟩ := Table.exists_valuation_eq distinct a.valuation
  refine ⟨row, inRange, funext fun name => ?_⟩
  exact (agree name name.2).trans (a.valuation_of_mem name.2)

theorem ofRow_injOn (distinct : symbols.Nodup) {row other : Nat}
    (inRange : row < 2 ^ symbols.length) (inRange' : other < 2 ^ symbols.length)
    (same : ofRow symbols row = ofRow symbols other) : row = other := by
  apply eq_of_rowBit inRange inRange'
  intro i position
  have values : (Table.full symbols).valuation row symbols[i] =
      (Table.full symbols).valuation other symbols[i] :=
    congrFun same ⟨symbols[i], List.getElem_mem position⟩
  rwa [Table.valuation_full_getElem distinct row position,
    Table.valuation_full_getElem distinct other position] at values

/-- What depends on the symbols alone holds under as many assignments as in rows of the table. -/
theorem card_filter_eq_countP (distinct : symbols.Nodup) {holds : Valuation → Bool}
    (depends : ∀ v w : Valuation, (∀ name ∈ symbols, v name = w name) → holds v = holds w) :
    (Finset.univ.filter fun a : Assignment symbols => holds a.valuation = true).card =
      (List.range (2 ^ symbols.length)).countP fun row =>
        holds ((Table.full symbols).valuation row) := by
  have rows : (List.range (2 ^ symbols.length)).countP
      (fun row => holds ((Table.full symbols).valuation row)) =
      ((Finset.range (2 ^ symbols.length)).filter fun row =>
        holds ((Table.full symbols).valuation row) = true).card := by
    simp only [Finset.card_def, Finset.filter_val, Finset.range_val, Multiset.range,
      Multiset.filter_coe, Multiset.coe_card, List.countP_eq_length_filter, Bool.decide_eq_true]
  have valued (row : Nat) :
      holds (ofRow symbols row).valuation = holds ((Table.full symbols).valuation row) :=
    depends _ _ fun name listed => (ofRow symbols row).valuation_of_mem listed
  rw [rows]
  symm
  apply Finset.card_bij fun row _ => ofRow symbols row
  · intro row isRow
    rw [Finset.mem_filter, valued]
    exact ⟨Finset.mem_univ _, (Finset.mem_filter.1 isRow).2⟩
  · intro row isRow other isOther same
    exact ofRow_injOn distinct (Finset.mem_range.1 (Finset.mem_filter.1 isRow).1)
      (Finset.mem_range.1 (Finset.mem_filter.1 isOther).1) same
  · intro a isModel
    obtain ⟨row, inRange, rfl⟩ := exists_ofRow_eq distinct a
    rw [Finset.mem_filter, valued] at isModel
    exact ⟨row, Finset.mem_filter.2 ⟨Finset.mem_range.2 inRange, isModel.2⟩, rfl⟩

end Assignment

end Entail
