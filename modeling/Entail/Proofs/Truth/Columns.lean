import Entail.Proofs.Formula.Evaluation
import Entail.Proofs.Truth.Rows

/-!
# Columns of truth tables

Each row of a truth table over distinct symbols is an assignment, and each
assignment agrees with a row of the whole table on the symbols of the table.
A formula over the symbols has in each row the value that this assignment gives
it.
-/

namespace Entail.Table

/-- The assignment that a row of a table makes, rows being counted from its first one. -/
def valuation (table : Table) (k : Nat) : Valuation := fun name =>
  rowBit table.symbols.length (table.start + k) (table.symbols.idxOf name)

theorem valuation_getElem {table : Table} (distinct : table.symbols.Nodup) (k : Nat) {i : Nat}
    (inRange : i < table.symbols.length) :
    table.valuation k table.symbols[i] = rowBit table.symbols.length (table.start + k) i := by
  rw [valuation, distinct.idxOf_getElem i inRange]

/-- The rows of a table list the values of its symbols under the assignments of the rows. -/
theorem rows_eq {table : Table} (distinct : table.symbols.Nodup) :
    table.rows = (List.range table.size).map fun k => table.symbols.map (table.valuation k) := by
  refine List.map_congr_left fun k _ => List.ext_getElem (by simp) fun i _ inRange => ?_
  rw [List.length_map] at inRange
  simp [truthRow, valuation_getElem distinct k inRange]

/-- The last entry of a symbol among distinct ones is at its place. -/
theorem find?_zipIdx_of_mem {symbols : List String} (distinct : symbols.Nodup) {name : String}
    (listed : name ∈ symbols) :
    symbols.zipIdx.reverse.find? (fun entry => entry.1 == name) =
      some (name, symbols.idxOf name) := by
  have position := List.idxOf_lt_length_of_mem listed
  have isEntry : (name, symbols.idxOf name) ∈ symbols.zipIdx := by
    rw [List.mem_zipIdx_iff_getElem?, List.getElem?_eq_getElem position, List.getElem_idxOf]
  cases found : symbols.zipIdx.reverse.find? (fun entry => entry.1 == name) with
  | none =>
      have absent := List.find?_eq_none.1 found _ (List.mem_reverse.2 isEntry)
      simp at absent
  | some entry =>
      rcases entry with ⟨other, i⟩
      have sameName : other = name := by simpa using List.find?_some found
      have isOther := List.mem_reverse.1 (List.mem_of_find?_eq_some found)
      rw [List.mem_zipIdx_iff_getElem?] at isOther
      rcases List.getElem?_eq_some_iff.1 isOther with ⟨inRange, isName⟩
      have samePlace : symbols.idxOf name = i := by
        rw [← sameName, ← show symbols[i] = other from isName]
        exact distinct.idxOf_getElem i inRange
      rw [sameName, samePlace]

theorem find?_zipIdx_of_notMem {symbols : List String} {name : String} (missing : name ∉ symbols) :
    symbols.zipIdx.reverse.find? (fun entry => entry.1 == name) = none := by
  rw [List.find?_eq_none]
  rintro ⟨other, i⟩ isEntry
  obtain ⟨_, isOther⟩ := List.getElem?_eq_some_iff.1
    (List.mem_zipIdx_iff_getElem?.1 (List.mem_reverse.1 isEntry))
  rw [beq_iff_eq]
  rintro rfl
  exact missing (isOther ▸ List.getElem_mem _)

/-- The column of a listed symbol holds its value in each row. -/
theorem column?_eq_some {table : Table} (distinct : table.symbols.Nodup) {name : String}
    (listed : name ∈ table.symbols) :
    table.column? name = some ((List.range table.size).map fun k => table.valuation k name) := by
  simp [column?, find?_zipIdx_of_mem distinct listed, columnAt, valuation]

/-- A formula over the symbols of a table has in each row the value under the row's assignment. -/
theorem evaluate_eq_ok {table : Table} (distinct : table.symbols.Nodup) {f : Formula}
    (listed : ∀ name ∈ f.propositions, name ∈ table.symbols) :
    table.evaluate f = .ok ((List.range table.size).map fun k => f.eval (table.valuation k)) := by
  have noneMissing :
      f.propositions.find? (fun symbol => !table.symbols.contains symbol) = none :=
    List.find?_eq_none.2 fun name isProposition => by simp [listed name isProposition]
  have columns : ∀ name ∈ f.propositions, (table.column? name).getD [] =
      (List.range table.size).map fun k => table.valuation k name := by
    intro name isProposition
    rw [column?_eq_some distinct (listed name isProposition)]
    rfl
  rw [evaluate, noneMissing, Formula.column_eq_map columns]

/-- The table of all rows over the given symbols. -/
def full (symbols : List String) : Table :=
  ⟨symbols, 0, 2 ^ symbols.length⟩

theorem between_eq_ok {symbols : List String} (few : symbols.length ≤ maxTableSymbols)
    (start stop : Int) :
    between symbols start stop = .ok ⟨symbols, start, (stop - start).toNat⟩ := by
  rw [between, if_neg (Nat.not_lt.2 few)]

theorem ofSymbols_eq_ok {symbols : List String} (few : symbols.length ≤ maxTableSymbols) :
    ofSymbols symbols = .ok (full symbols) := by
  rw [ofSymbols, between_eq_ok few, Int.sub_zero, Int.toNat_natCast]
  rfl

/-- A row of a part of a table is a row of the whole table. -/
theorem valuation_part (symbols : List String) (start size k : Nat) :
    (⟨symbols, start, size⟩ : Table).valuation k = (full symbols).valuation (start + k) := by
  funext name
  simp [valuation, full]

theorem valuation_full_getElem {symbols : List String} (distinct : symbols.Nodup) (k : Nat)
    {i : Nat} (inRange : i < symbols.length) :
    (full symbols).valuation k symbols[i] = rowBit symbols.length k i := by
  have row : (full symbols).valuation k symbols[i] = rowBit symbols.length (0 + (k : Int)) i :=
    valuation_getElem distinct k inRange
  rw [row, Int.zero_add]

/-- A row of the whole table lists the values of the symbols under the assignment that it makes. -/
theorem map_valuation_full {symbols : List String} (distinct : symbols.Nodup) (k : Nat) :
    symbols.map ((full symbols).valuation k) = truthRow symbols.length k := by
  refine List.ext_getElem (by simp) fun i inRange _ => ?_
  rw [List.length_map] at inRange
  simp [truthRow, valuation_full_getElem distinct k inRange]

/-- Every assignment agrees with a row of the whole table on the symbols of the table. -/
theorem exists_valuation_eq {symbols : List String} (distinct : symbols.Nodup) (v : Valuation) :
    ∃ k < (full symbols).size, ∀ name ∈ symbols, (full symbols).valuation k name = v name := by
  rcases exists_rowBit symbols.length fun i => v (symbols.getD i "") with ⟨k, inRange, values⟩
  refine ⟨k, inRange, fun name listed => ?_⟩
  rcases List.getElem_of_mem listed with ⟨i, position, rfl⟩
  have value := values i position
  rw [List.getD_eq_getElem _ _ position] at value
  rw [valuation_full_getElem distinct k position, value]

end Entail.Table
