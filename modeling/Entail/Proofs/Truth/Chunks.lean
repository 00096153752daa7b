import Mathlib.Algebra.Group.Nat.Defs
import Entail.Truth.Table

/-!
# Chunks of truth tables

The chunks in which a truth table is evaluated cover its rows in order, each
row once.
-/

namespace Entail.Table

/-- The row numbers of a chunk. -/
def chunkRows (bounds : Nat × Nat) : List Nat :=
  List.range' bounds.1 (bounds.2 - bounds.1)

theorem chunkSize_pos : 0 < chunkSize := by
  decide

/-- A number of chunks reaches as many rows as they hold together, up to the end of the table. -/
theorem flatMap_chunkRows_range (rows count : Nat) :
    ((List.range count).map fun k =>
        (k * chunkSize, min (k * chunkSize + chunkSize) rows)).flatMap chunkRows =
      List.range (min (count * chunkSize) rows) := by
  induction count with
  | zero => simp
  | succ count ih =>
      rw [List.range_succ, List.map_append, List.flatMap_append, ih, Nat.succ_mul]
      simp only [List.map_cons, List.map_nil, List.flatMap_cons, List.flatMap_nil,
        List.append_nil, chunkRows]
      generalize count * chunkSize = first
      rcases Nat.le_total first rows with inside | outside
      · have start : min first rows = first := Nat.min_eq_left inside
        have split : min (first + chunkSize) rows =
            first + (min (first + chunkSize) rows - first) := by omega
        rw [start, split, List.range_add, Nat.add_sub_cancel_left, List.range'_eq_map_range]
      · have empty : min (first + chunkSize) rows - first = 0 := by omega
        have last : min (first + chunkSize) rows = min first rows := by omega
        rw [empty, last, List.range'_zero, List.append_nil]

/-- The chunks of the table over `n` symbols hold its rows. -/
theorem flatMap_chunkBounds (n : Nat) :
    (chunkBounds n).flatMap chunkRows = List.range (2 ^ n) := by
  have enough : 2 ^ n ≤ (2 ^ n + (chunkSize - 1)) / chunkSize * chunkSize := by
    have division := Nat.div_add_mod (2 ^ n + (chunkSize - 1)) chunkSize
    have remainder := Nat.mod_lt (2 ^ n + (chunkSize - 1)) chunkSize_pos
    rw [Nat.mul_comm] at division
    omega
  calc (chunkBounds n).flatMap chunkRows
    _ = List.range (min ((2 ^ n + (chunkSize - 1)) / chunkSize * chunkSize) (2 ^ n)) :=
      flatMap_chunkRows_range _ _
    _ = List.range (2 ^ n) := by rw [Nat.min_eq_right enough]

end Entail.Table
