import Mathlib.Data.List.Nodup
import Mathlib.Tactic.Positivity
import Mathlib.Tactic.Ring
import Entail.Proofs.Outcome
import Entail.Proofs.Truth.Chunks
import Entail.Proofs.Truth.Columns

/-!
# All rows of a table, each once

The chunks of a truth table are its rows in order, and every choice of truth
values is made in one row.  A row is the lowest bits of its number, wherever in
the range of words of 64 bits the part of the table lies that it belongs to.
-/

namespace Entail

/-! ### Rows and the bits of their numbers -/

/-- The row of a truth table whose number ends in the given bits, the highest of which belongs to
the first symbol; a symbol is true if its bit is not set. -/
def bitRow {n : Nat} (word : BitVec n) : List Bool :=
  (List.range n).map fun i => !word.getMsbD i

/-- A lower digit of a number is one of its remainder. -/
theorem shiftRight_emod_two (row : Int) {n j : Nat} (low : j < n) :
    (row >>> j) % 2 = ((row % (2 ^ n : Nat)) >>> j) % 2 := by
  obtain ⟨k, rfl⟩ := Nat.exists_eq_add_of_lt low
  rw [Int.shiftRight_eq_div_pow, Int.shiftRight_eq_div_pow]
  have unit : ((2 ^ j : Nat) : Int) ≠ 0 := by positivity
  generalize same : ((2 ^ j : Nat) : Int) = a at unit
  have width : ((2 ^ (j + k + 1) : Nat) : Int) = a * (2 * 2 ^ k) := by
    rw [← same]
    push_cast
    ring
  -- the remainder leaves out a multiple of an even number of units
  have remainder : row % (a * (2 * 2 ^ k)) =
      row + a * (2 * -(2 ^ k * (row / (a * (2 * 2 ^ k))))) := by
    rw [Int.emod_def]
    ring
  rw [width, remainder, Int.add_mul_ediv_left _ _ unit, Int.add_mul_emod_self_left]

/-- The value in a column is the inverted bit at its place in the number of the row. -/
theorem rowBit_eq_not_getMsbD (row : Int) {n i : Nat} (inRange : i < n) :
    rowBit n row i = !(BitVec.ofInt n row).getMsbD i := by
  have low : n - 1 - i < n := by omega
  have reduced : rowBit n row i = rowBit n (row % (2 ^ n : Nat)) i := by
    rw [rowBit, rowBit, shiftRight_emod_two row low]
  have natural : ((row % (2 ^ n : Nat)).toNat : Int) = row % (2 ^ n : Nat) :=
    Int.toNat_of_nonneg (Int.emod_nonneg _ (by positivity))
  rw [reduced, ← natural, rowBit_eq_not_testBit, BitVec.getMsbD_eq_getLsbD, decide_eq_true inRange,
    Bool.true_and, ← BitVec.testBit_toNat, BitVec.toNat_ofInt]

theorem truthRow_eq_bitRow (n : Nat) (row : Int) : truthRow n row = bitRow (BitVec.ofInt n row) :=
  List.map_congr_left fun _ listed => rowBit_eq_not_getMsbD row (List.mem_range.1 listed)

/-- The lowest bits of a word that counts from another one are those of the sum. -/
theorem setWidth_toBitVec_add {n : Nat} (narrow : n ≤ 64) (start : Int64) (k : Nat) :
    (start + .ofNat k).toBitVec.setWidth n = BitVec.ofInt n (start.toInt + k) := by
  have word : (start + .ofNat k).toBitVec = BitVec.ofInt 64 (start.toInt + k) := by
    rw [BitVec.ofInt_add, Int64.toBitVec_add, Int64.toInt, BitVec.ofInt_toInt]
    rfl
  have divides : ((2 ^ n : Nat) : Int) ∣ (2 ^ 64 : Nat) := by
    exact_mod_cast Nat.pow_dvd_pow 2 narrow
  apply BitVec.eq_of_toNat_eq
  have natural : ((start.toInt + k) % (2 ^ 64 : Nat)).toNat = (start.toInt + k) % (2 ^ 64 : Nat) :=
    Int.toNat_of_nonneg (Int.emod_nonneg _ (by decide))
  rw [word, BitVec.toNat_setWidth, BitVec.toNat_ofInt, BitVec.toNat_ofInt]
  rw [← Int.emod_emod_of_dvd _ divides, ← natural]
  rfl

/-- The next row has another value in a column exactly where a multiple of the period begins. -/
theorem rowBit_succ_ne_iff (n k i : Nat) :
    rowBit n (k + 1 : Nat) i ≠ rowBit n k i ↔ 2 ^ (n - 1 - i) ∣ k + 1 := by
  rw [rowBit_eq_not_testBit, rowBit_eq_not_testBit, Nat.testBit_eq_decide_div_mod_eq,
    Nat.testBit_eq_decide_div_mod_eq, Nat.succ_div]
  by_cases atPeriod : 2 ^ (n - 1 - i) ∣ k + 1
  · simp [atPeriod]
    omega
  · simp [atPeriod]

/-- No two rows of a table make the same choice. -/
theorem nodup_map_truthRow (n : Nat) :
    ((List.range (2 ^ n)).map fun k : Nat => truthRow n k).Nodup := by
  apply List.Nodup.map_on _ List.nodup_range
  intro row isRow other isOther same
  apply eq_of_rowBit (List.mem_range.1 isRow) (List.mem_range.1 isOther)
  intro i inRange
  exact List.map_inj_left.1 same i (List.mem_range.2 inRange)

/-- Every choice of values is made in a row. -/
theorem mem_map_truthRow (values : List Bool) :
    values ∈ (List.range (2 ^ values.length)).map fun k : Nat => truthRow values.length k := by
  obtain ⟨row, inRange, agree⟩ := exists_rowBit values.length fun i => values.getD i false
  refine List.mem_map.2 ⟨row, List.mem_range.2 inRange, List.ext_getElem (by simp) ?_⟩
  intro i _ position
  simp only [truthRow, List.getElem_map, List.getElem_range]
  rw [agree i position, List.getD_eq_getElem _ _ position]

theorem truthRow_zero (n : Nat) : truthRow n (0 : Nat) = List.replicate n true := by
  apply List.ext_getElem (by simp)
  intro i _ _
  simp only [truthRow, List.getElem_map, List.getElem_replicate, rowBit_eq_not_testBit,
    Nat.zero_testBit, Bool.not_false]

namespace Table

variable {symbols : List String}

theorem rows_full (symbols : List String) :
    (full symbols).rows =
      (List.range (2 ^ symbols.length)).map fun k : Nat => truthRow symbols.length k := by
  simp only [rows, full, Int.zero_add]

theorem rows_chunk (symbols : List String) (bounds : Nat × Nat) :
    (⟨symbols, bounds.1, ((bounds.2 : Int) - bounds.1).toNat⟩ : Table).rows =
      (chunkRows bounds).map fun k : Nat => truthRow symbols.length k := by
  rw [rows, chunkRows, Int.toNat_sub, List.range'_eq_map_range, List.map_map]
  apply List.map_congr_left
  intro k _
  rw [Function.comp_apply, Nat.cast_add]

/-- The chunks of a table hold its rows in order. -/
theorem exists_chunks (few : symbols.length ≤ maxTableSymbols) :
    ∃ parts, (chunkBounds symbols.length).mapM (fun bounds => between symbols bounds.1 bounds.2) =
      .ok parts ∧ parts.flatMap rows = (full symbols).rows := by
  refine ⟨_, mapM_eq_ok_of_forall₂ (List.forall₂_map_right_iff.2 (List.forall₂_same.2
    fun bounds _ => between_eq_ok few bounds.1 bounds.2)), ?_⟩
  rw [List.flatMap_map]
  simp only [rows_chunk]
  rw [← List.map_flatMap, flatMap_chunkBounds, rows_full]

/-- The chunks of a table over no more symbols than it may have are its rows in order.  In these
every choice of values is made once, all symbols are true in the first one, and each symbol changes
its value where a multiple of its period begins.  A row of any part of the table, its numbers being
words of 64 bits with a sign, depends on the lowest bits of its number alone. -/
theorem chunks_enumerate_choices (few : symbols.length ≤ maxTableSymbols) :
    ∃ parts whole,
      (chunkBounds symbols.length).mapM (fun bounds => between symbols bounds.1 bounds.2) =
        .ok parts ∧
      between symbols 0 (2 ^ symbols.length : Nat) = .ok whole ∧
      parts.flatMap rows = whole.rows ∧
      (∀ row ∈ whole.rows, row.length = symbols.length) ∧
      (∀ values : List Bool, values.length = symbols.length → whole.rows.count values = 1) ∧
      whole.rows[0]? = some (List.replicate symbols.length true) ∧
      (∀ i < symbols.length, ∀ k, k + 1 < 2 ^ symbols.length → ∃ row next,
        whole.rows[k]? = some row ∧ whole.rows[k + 1]? = some next ∧
        (next[i]? ≠ row[i]? ↔ 2 ^ (symbols.length - 1 - i) ∣ k + 1)) ∧
      ∀ start stop : Int64, ∃ part, between symbols start.toInt stop.toInt = .ok part ∧
        part.rows = (List.range (stop.toInt - start.toInt).toNat).map fun k =>
          bitRow ((start + .ofNat k).toBitVec.setWidth symbols.length) := by
  obtain ⟨parts, made, together⟩ := exists_chunks few
  have rowAt {k : Nat} (inTable : k < 2 ^ symbols.length) :
      (full symbols).rows[k]? = some (truthRow symbols.length k) := by
    rw [rows_full, List.getElem?_map, List.getElem?_range inTable, Option.map_some]
  refine ⟨parts, full symbols, made, ofSymbols_eq_ok few, together, ?_, ?_, ?_, ?_, ?_⟩
  · rw [rows_full, List.forall_mem_map]
    exact fun k _ => length_truthRow symbols.length k
  · intro values sameLength
    rw [rows_full, ← sameLength]
    exact List.count_eq_one_of_mem (nodup_map_truthRow _) (mem_map_truthRow values)
  · rw [rowAt (by positivity), truthRow_zero]
  · intro i inRange k inTable
    refine ⟨_, _, rowAt (Nat.lt_of_succ_lt inTable), rowAt inTable, ?_⟩
    rw [← rowBit_succ_ne_iff]
    simp [truthRow, inRange]
  · intro start stop
    refine ⟨_, between_eq_ok few _ _, List.map_congr_left fun k _ => ?_⟩
    have narrow : symbols.length ≤ 64 := Nat.le_trans few (by decide)
    rw [setWidth_toBitVec_add narrow, truthRow_eq_bitRow]

/-- The table over 17 symbols has two chunks; a part may begin below the first row. -/
theorem chunks_enumerate_choices_of_two_chunks :
    let symbols := (List.range 17).map toString
    symbols.length ≤ maxTableSymbols ∧ chunkBounds symbols.length = [(0, 65536), (65536, 131072)] ∧
      ∃ first second whole, between symbols 0 65536 = .ok first ∧
        between symbols 65536 131072 = .ok second ∧ between symbols 0 131072 = .ok whole ∧
        first.rows ++ second.rows = whole.rows ∧
        whole.rows.count (List.replicate 17 false) = 1 ∧
        ∃ part, between symbols (-1) 2 = .ok part ∧ part.rows =
          [List.replicate 17 false, List.replicate 17 true, List.replicate 16 true ++ [false]] := by
  intro symbols
  have few : symbols.length ≤ maxTableSymbols := by decide
  have bounds : chunkBounds symbols.length = [(0, 65536), (65536, 131072)] := by decide
  obtain ⟨parts, whole, made, isWhole, together, _, once, _, _, low⟩ := chunks_enumerate_choices few
  have isFirst : between symbols (0 : Nat) (65536 : Nat) = .ok ⟨symbols, 0, 65536⟩ := by
    rw [between_eq_ok few, Int.toNat_sub]
    rfl
  have isSecond : between symbols (65536 : Nat) (131072 : Nat) = .ok ⟨symbols, 65536, 65536⟩ := by
    rw [between_eq_ok few, Int.toNat_sub]
    rfl
  rw [bounds, List.mapM_cons, isFirst, List.mapM_cons, isSecond] at made
  cases made
  rw [List.reverse_nil, List.flatMap_cons, List.flatMap_singleton] at together
  obtain ⟨part, isPart, rows⟩ := low (-1) 2
  exact ⟨few, bounds, _, _, whole, isFirst, isSecond, isWhole, together, once _ rfl, part, isPart,
    rows.trans (by decide)⟩

end Table

end Entail
