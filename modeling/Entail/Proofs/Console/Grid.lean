import Entail.Console.Grid
import Entail.Proofs.Outcome

/-!
# Tables that can be written

The only cells that may be too large to be written are whole numbers in a column
of other numbers.  A table without such columns is written.
-/

namespace Entail.Console

/-- Cells of which all or none are whole numbers. -/
def IsPlain (cells : List Cell) : Prop :=
  (∀ cell ∈ cells, ∃ n, cell = .whole n) ∨ ∀ cell ∈ cells, ∀ n, cell ≠ .whole n

theorem IsPlain.mono {cells others : List Cell} (plain : IsPlain cells) (within : others ⊆ cells) :
    IsPlain others := by
  obtain all | none := plain
  · exact .inl fun cell isCell => all cell (within isCell)
  · exact .inr fun cell isCell => none cell (within isCell)

/-- Rows of a number and then texts have columns of whole numbers or without any. -/
theorem isPlain_of_numbered {rows : List (List Cell)}
    (numbered : ∀ cells ∈ rows, ∃ (number : Nat) (texts : List String),
      cells = .whole number :: texts.map .text) (i : Nat) :
    IsPlain (rows.map (·.getD i .missing)) := by
  cases i with
  | zero =>
      left
      intro cell isCell
      obtain ⟨cells, isRow, rfl⟩ := List.mem_map.1 isCell
      obtain ⟨number, texts, rfl⟩ := numbered cells isRow
      exact ⟨number, rfl⟩
  | succ i =>
      right
      intro cell isCell n
      obtain ⟨cells, isRow, rfl⟩ := List.mem_map.1 isCell
      obtain ⟨number, texts, rfl⟩ := numbered cells isRow
      rw [List.getD_cons_succ, List.getD_eq_getElem?_getD, List.getElem?_map]
      cases texts[i]? <;> exact Cell.noConfusion

/-- A column of whole numbers is not one of other numbers. -/
theorem Cell.columnKind_of_whole {cells : List Cell} (all : ∀ cell ∈ cells, ∃ n, cell = .whole n) :
    Cell.columnKind cells ≠ .number := by
  have keeps (kind : CellKind) (isSmall : kind = .boolean ∨ kind = .whole) :
      cells.foldl (fun kind cell => kind.join cell.kind) kind ≠ .number := by
    induction cells generalizing kind with
    | nil => obtain rfl | rfl := isSmall <;> exact CellKind.noConfusion
    | cons cell cells ih =>
        obtain ⟨⟨n, rfl⟩, rest⟩ := List.forall_mem_cons.1 all
        apply ih rest
        obtain rfl | rfl := isSmall <;> exact .inr rfl
  exact keeps .boolean (.inl rfl)

theorem Cell.exists_write {kind : CellKind} {cell : Cell}
    (writable : kind ≠ .number ∨ ∀ n, cell ≠ .whole n) (escapes : Bool) :
    ∃ text, cell.write kind escapes = .ok text := by
  cases kind with
  | number =>
      obtain other | other := writable
      · exact absurd rfl other
      · cases cell with
        | whole n => exact absurd rfl (other n)
        | missing | boolean | number | text => exact ⟨_, rfl⟩
  | missing | boolean | whole | text => cases cell <;> exact ⟨_, rfl⟩

theorem Column.exists_ofCells {cells : List Cell} (plain : IsPlain cells) (m : Measure)
    (header : List Char) : ∃ column, ofCells m header cells = .ok column := by
  have each : ∀ cell ∈ cells, ∃ text,
      cell.write (Cell.columnKind cells) m.escapes = .ok text := by
    intro cell isCell
    apply Cell.exists_write
    obtain all | none := plain
    · exact .inl (Cell.columnKind_of_whole all)
    · exact .inr (none cell isCell)
  obtain ⟨texts, written⟩ := exists_mapM_eq_ok each
  rw [ofCells, written]
  exact ⟨_, rfl⟩

/-- A table is written if in each column all cells or none are whole numbers. -/
theorem Grid.exists_write {grid : Grid}
    (plain : ∀ i, IsPlain (grid.rows.map (·.getD i .missing))) :
    ∃ text, grid.write = .ok text := by
  have each : ∀ header ∈ grid.headers.zipIdx, ∃ column,
      Column.ofCells grid.measure header.1.toList
        ((grid.rows.filter fun row => !isRule row).map (·.getD header.2 .missing)) =
          .ok column := by
    intro header _
    apply Column.exists_ofCells
    exact (plain header.2).mono (List.map_subset _ List.filter_sublist.subset)
  obtain ⟨columns, made⟩ := exists_mapM_eq_ok each
  have columns_eq : grid.columns = .ok columns := made
  rw [write, columns_eq]
  exact ⟨_, rfl⟩

end Entail.Console
