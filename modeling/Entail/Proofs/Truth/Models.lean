import Entail.Proofs.Truth.Fold
import Entail.Proofs.Truth.Columns
import Entail.Truth.Model

/-!
# Models and columns

A formula is checked in a model, and its column in a truth table is made, by the
same fold: with truth values in a model, and with columns in a table, or single
values where no symbol is involved.  Row by row, a table agrees with its models.
-/

namespace Entail

/-- What a fold over a truth table comes to: one value for all rows, or one for each of them. -/
inductive Spread
  | scalar (value : Bool)
  | column (values : List Bool)

namespace Spread

/-- The value in each of the given number of rows. -/
def rows (size : Nat) : Spread → List Bool
  | scalar value => List.replicate size value
  | column values => values

def map (g : Bool → Bool) : Spread → Spread
  | scalar value => scalar (g value)
  | column values => column (values.map g)

/-- Two columns combined row by row; a single value is combined with every row. -/
def combine (g : Bool → Bool → Bool) : Spread → Spread → Spread
  | scalar a, scalar b => scalar (g a b)
  | scalar a, column bs => column (bs.map (g a))
  | column as, scalar b => column (as.map (g · b))
  | column as, column bs => column (List.zipWith g as bs)

/-- Single values and columns as the values of a fold. -/
def kind : ValueKind Spread :=
  ⟨scalar, map not, fun c => combine c.apply⟩

/-- The values in a number of rows are those of a family. -/
def Represents (size : Nat) : Spread → (Nat → Bool) → Prop
  | scalar value, g => ∀ k < size, g k = value
  | column values, g => values = (List.range size).map g

variable {size : Nat} {value : Spread} {g h : Nat → Bool}

theorem Represents.rows_eq (represents : value.Represents size g) :
    value.rows size = (List.range size).map g := by
  cases value with
  | scalar b =>
      have constant : (List.range size).map g = (List.range size).map fun _ => b :=
        List.map_congr_left fun k inRange => represents k (List.mem_range.1 inRange)
      rw [constant, List.map_const', List.length_range, rows]
  | column values => exact represents

theorem Represents.combine {value' : Spread} (op : Bool → Bool → Bool)
    (represents : value.Represents size g) (represents' : value'.Represents size h) :
    (value.combine op value').Represents size fun k => op (g k) (h k) := by
  cases value with
  | scalar a =>
      cases value' with
      | scalar b =>
          exact fun k inRange => congrArg₂ op (represents k inRange) (represents' k inRange)
      | column bs =>
          cases represents'
          refine (List.map_map ..).trans (List.map_congr_left fun k inRange => ?_)
          rw [represents k (List.mem_range.1 inRange)]
          rfl
  | column as =>
      cases represents
      cases value' with
      | scalar b =>
          refine (List.map_map ..).trans (List.map_congr_left fun k inRange => ?_)
          rw [represents' k (List.mem_range.1 inRange)]
          rfl
      | column bs =>
          cases represents'
          refine (List.zipWith_map ..).trans ?_
          rw [List.zipWith_self]

/-- Columns are combined as families are, number by number. -/
theorem relates_kind (size : Nat) : kind.Relates (Represents size) .pointwise := by
  constructor
  · exact fun b k _ => rfl
  · intro value g represents
    cases value with
    | scalar a => exact fun k inRange => congrArg not (represents k inRange)
    | column as =>
        cases represents
        exact List.map_map ..
  · exact fun c _ _ _ _ represents represents' => represents.combine c.apply represents'

end Spread

/-! ### Tables -/

namespace Table

/-- The column of a symbol, which has to be listed. -/
def lookup (table : Table) (name : String) : Except Error Spread :=
  match table.column? name with
  | some values => .ok (.column values)
  | none => .error (.unlistedSymbol name)

variable {table : Table}

theorem lookup_of_mem (distinct : table.symbols.Nodup) {name : String}
    (listed : name ∈ table.symbols) :
    table.lookup name =
      .ok (.column ((List.range table.size).map fun k => table.valuation k name)) := by
  rw [lookup, column?_eq_some distinct listed]

theorem lookup_of_notMem {name : String} (missing : name ∉ table.symbols) :
    table.lookup name = .error (.unlistedSymbol name) := by
  rw [lookup, column?, find?_zipIdx_of_notMem missing]
  rfl

/-- A formula over the symbols of a table has a value that stands for its column. -/
theorem exists_fold_eq_ok (distinct : table.symbols.Nodup) {f : Formula}
    (listed : ∀ name ∈ f.propositions, name ∈ table.symbols) :
    ∃ value, f.fold Spread.kind table.lookup = .ok value ∧
      value.rows table.size = (List.range table.size).map fun k => f.eval (table.valuation k) := by
  have agree : Agree (Spread.Represents table.size) (f.fold Spread.kind table.lookup)
      (f.fold .pointwise fun name => .ok fun k => table.valuation k name) := by
    apply f.agree_fold (Spread.relates_kind table.size)
    intro name isProposition
    exact ⟨_, _, lookup_of_mem distinct (listed name isProposition), rfl, rfl⟩
  obtain ⟨value, g, folded, evaluated, represents⟩ := agree
  rw [Formula.fold_pointwise] at evaluated
  cases evaluated
  exact ⟨value, folded, represents.rows_eq⟩

/-- Looking up symbols one after the other fails at the first one that is not listed. -/
theorem forM_lookup (distinct : table.symbols.Nodup) (names : List String) :
    (forM names fun name => discard (table.lookup name)) =
      match names.find? fun name => !table.symbols.contains name with
      | some name => .error (.unlistedSymbol name)
      | none => .ok () := by
  induction names with
  | nil => rfl
  | cons name names ih =>
      rw [List.forM_cons, ih]
      by_cases listed : name ∈ table.symbols
      · rw [lookup_of_mem distinct listed, List.find?_cons_of_neg (by simp [listed])]
        rfl
      · rw [lookup_of_notMem listed, List.find?_cons_of_pos (by simp [listed])]
        rfl

/-- A formula is evaluated by folding it with columns. -/
theorem evaluate_eq_fold (distinct : table.symbols.Nodup) (f : Formula) :
    table.evaluate f = (f.fold Spread.kind table.lookup).map (Spread.rows table.size) := by
  have folded := (f.discard_fold Spread.kind table.lookup).trans (forM_lookup distinct _)
  cases found : f.propositions.find? fun name => !table.symbols.contains name with
  | none =>
      have listed : ∀ name ∈ f.propositions, name ∈ table.symbols := by
        simpa using List.find?_eq_none.1 found
      obtain ⟨value, folded, rows⟩ := exists_fold_eq_ok distinct listed
      rw [evaluate_eq_ok distinct listed, folded, ← rows]
      rfl
  | some name =>
      rw [found] at folded
      rw [evaluate, found, eq_error_of_discard folded]
      rfl

end Table

/-! ### Models -/

namespace Model

/-- A formula is checked by folding it with truth values. -/
theorem check_eq_fold (m : Model) (f : Formula) : m.check f = f.fold .truth m.value := by
  have folded := f.discard_fold .truth m.value
  rw [check, List.forM_eq_forM, ← folded]
  cases result : f.fold .truth m.value with
  | error error => rfl
  | ok value =>
      rw [result] at folded
      have valued := forM_eq_ok_iff.1 folded.symm
      have looked : ∀ name ∈ f.propositions, m.value name = .ok (m.valuation name) := by
        intro name isProposition
        obtain ⟨b, found⟩ := exists_eq_ok_of_discard (valued name isProposition)
        rw [valuation, found]
      exact (Formula.fold_truth_of_forall looked).symm.trans result

/-- The model of a row of the whole table. -/
def ofRow (symbols : List String) (row : Nat) : Model :=
  ⟨row, symbols, symbols.map ((Table.full symbols).valuation row)⟩

variable {symbols : List String}

theorem value_ofRow (distinct : symbols.Nodup) {name : String} (listed : name ∈ symbols)
    (isVariable : constantValue? name = none) (row : Nat) :
    (ofRow symbols row).value name = .ok ((Table.full symbols).valuation row name) := by
  have position := List.idxOf_lt_length_of_mem listed
  have placed : (ofRow symbols row).position? name = some (symbols.idxOf name) := by
    rw [position?, ofRow, Table.find?_zipIdx_of_mem distinct listed]
    rfl
  have valued : (ofRow symbols row).values[symbols.idxOf name]? =
      some ((Table.full symbols).valuation row name) := by
    rw [ofRow, List.getElem?_map, List.getElem?_eq_getElem position, List.getElem_idxOf]
    rfl
  rw [value, isVariable, placed]
  simp only [valued]

theorem value_of_notMem {m : Model} {name : String} (missing : name ∉ m.symbols)
    (isVariable : constantValue? name = none) :
    m.value name = .error (.unvaluedSymbol m.id name) := by
  have unplaced : m.position? name = none := by
    rw [position?, Table.find?_zipIdx_of_notMem missing]
    rfl
  rw [value, isVariable, unplaced]

/-- The models over distinct symbols are those of the rows of their table, in order. -/
theorem all_eq_ok (distinct : symbols.Nodup) (few : symbols.length ≤ maxTableSymbols) :
    all symbols = .ok ((List.range (2 ^ symbols.length)).map (ofRow symbols)) := by
  rw [all, Table.ofSymbols_eq_ok few, Except.map]
  have distinct' : (Table.full symbols).symbols.Nodup := distinct
  rw [Table.rows_eq distinct']
  congr 1
  apply List.ext_getElem
  · simp [Table.full]
  · intro row _ _
    simp [ofRow, Table.full]

/-- Models are made for as many symbols as a truth table may have. -/
theorem exists_eq_ofRow (distinct : symbols.Nodup) {models : List Model}
    (enumerated : all symbols = .ok models) {m : Model} (isModel : m ∈ models) :
    ∃ row, m = ofRow symbols row := by
  by_cases few : symbols.length ≤ maxTableSymbols
  · rw [all_eq_ok distinct few] at enumerated
    cases enumerated
    obtain ⟨row, _, rfl⟩ := List.mem_map.1 isModel
    exact ⟨row, rfl⟩
  · rw [all, Table.ofSymbols, Table.between, if_pos (Nat.lt_of_not_le few)] at enumerated
    cases enumerated

/-- In the model of a row, a formula over the symbols has the value that it has in the row. -/
theorem check_ofRow (distinct : symbols.Nodup) {f : Formula}
    (listed : ∀ name ∈ f.propositions, name ∈ symbols) (row : Nat) :
    (ofRow symbols row).check f = .ok (f.eval ((Table.full symbols).valuation row)) := by
  rw [check_eq_fold]
  apply Formula.fold_truth_of_forall
  intro name isProposition
  have isVariable := (Formula.mem_propositions.1 isProposition).2
  exact value_ofRow distinct (listed name isProposition) isVariable row

/-- A formula is checked in the model of a row unless it has a symbol that the model has no value
for; it does not matter whether its value depends on that. -/
theorem check_ofRow_eq_error_iff (distinct : symbols.Nodup) (f : Formula) (row : Nat) :
    (∃ name, (ofRow symbols row).check f = .error (.unvaluedSymbol row name)) ↔
      ∃ name ∈ f.propositions, name ∉ symbols := by
  constructor
  · rintro ⟨name, failed⟩
    by_contra known
    have listed : ∀ name ∈ f.propositions, name ∈ symbols := by simpa using known
    rw [check_ofRow distinct listed row] at failed
    cases failed
  · rintro ⟨name, isProposition, missing⟩
    have isVariable := (Formula.mem_propositions.1 isProposition).2
    have outcome := f.discard_fold .truth (ofRow symbols row).value
    rw [check_eq_fold]
    cases folded : f.fold .truth (ofRow symbols row).value with
    | ok value =>
        rw [folded] at outcome
        have looked := forM_eq_ok_iff.1 outcome.symm name isProposition
        rw [value_of_notMem missing isVariable] at looked
        cases looked
    | error error =>
        rw [folded] at outcome
        obtain ⟨first, isFirst, failed⟩ := exists_of_forM_eq_error outcome.symm
        have isVariable := (Formula.mem_propositions.1 isFirst).2
        by_cases listed : first ∈ symbols
        · rw [value_ofRow distinct listed isVariable] at failed
          cases failed
        · rw [value_of_notMem listed isVariable] at failed
          cases failed
          exact ⟨first, rfl⟩

end Model

namespace Table

/-- A part of the table gives a formula the values of the models of its rows. -/
theorem exists_part {symbols : List String} (distinct : symbols.Nodup)
    (few : symbols.length ≤ maxTableSymbols) {f : Formula}
    (listed : ∀ name ∈ f.propositions, name ∈ symbols) (start size : Nat) :
    ∃ table value, between symbols start (start + size : Nat) = .ok table ∧
      f.fold Spread.kind table.lookup = .ok value ∧ table.evaluate f = .ok (value.rows size) ∧
      value.rows size = (List.range size).map fun k =>
        f.eval ((full symbols).valuation (start + k)) := by
  let table : Table := ⟨symbols, start, size⟩
  have distinct' : table.symbols.Nodup := distinct
  have length : (((start + size : Nat) : Int) - (start : Int)).toNat = size := by omega
  obtain ⟨value, folded, rows⟩ := exists_fold_eq_ok distinct' listed
  have evaluated := evaluate_eq_fold distinct' f
  rw [folded] at evaluated
  refine ⟨table, value, ?_, folded, evaluated, ?_⟩
  · rw [between_eq_ok few, length]
  · simp only [← valuation_part symbols start size]
    exact rows

/-- Over distinct symbols, every part of the truth table gives a formula over the symbols the values
that checking it in the models of the same rows does.  In any model, a formula cannot be checked
exactly if it mentions a symbol that is not listed. -/
theorem evaluate_agrees_with_check {symbols : List String} (distinct : symbols.Nodup)
    (f : Formula) :
    (symbols.length ≤ maxTableSymbols →
      (∀ name ∈ f.names, constantValue? name = none → name ∈ symbols) →
      ∀ start size : Nat, start + size ≤ 2 ^ symbols.length →
      ∃ table value models, between symbols start (start + size : Nat) = .ok table ∧
        f.fold Spread.kind table.lookup = .ok value ∧
        table.evaluate f = .ok (value.rows size) ∧ (value.rows size).length = size ∧
        Model.all symbols = .ok models ∧ models.length = 2 ^ symbols.length ∧
        ∀ k < size, ∃ m b, models[start + k]? = some m ∧ m.check f = .ok b ∧
          (value.rows size)[k]? = some b) ∧
    ∀ models, Model.all symbols = .ok models → ∀ m ∈ models,
      ((∃ name, m.check f = .error (.unvaluedSymbol m.id name)) ↔
        ∃ name ∈ f.names, constantValue? name = none ∧ name ∉ symbols) ∧
      ((∃ b, m.check f = .ok b) ↔
        ∀ name ∈ f.names, constantValue? name = none → name ∈ symbols) := by
  constructor
  · intro few known start size inTable
    have listed : ∀ name ∈ f.propositions, name ∈ symbols := by
      simpa [Formula.mem_propositions] using known
    obtain ⟨table, value, part, folded, evaluated, rows⟩ :=
      exists_part distinct few listed start size
    refine ⟨table, value, _, part, folded, evaluated, ?_, Model.all_eq_ok distinct few, ?_, ?_⟩
    · rw [rows, List.length_map, List.length_range]
    · rw [List.length_map, List.length_range]
    · intro k inRange
      have inTable' : start + k < 2 ^ symbols.length := by omega
      refine ⟨Model.ofRow symbols (start + k), _, ?_, Model.check_ofRow distinct listed _, ?_⟩
      · rw [List.getElem?_map, List.getElem?_range inTable']
        rfl
      · rw [rows, List.getElem?_map, List.getElem?_range inRange]
        rfl
  · intro models enumerated m isModel
    obtain ⟨row, rfl⟩ := Model.exists_eq_ofRow distinct enumerated isModel
    have fails := Model.check_ofRow_eq_error_iff distinct f row
    have mentions : (∃ name ∈ f.names, constantValue? name = none ∧ name ∉ symbols) ↔
        ∃ name ∈ f.propositions, name ∉ symbols := by
      simp [Formula.mem_propositions, and_assoc]
    refine ⟨fails.trans mentions.symm, ?_⟩
    constructor
    · rintro ⟨b, checked⟩ name isName isVariable
      by_contra missing
      obtain ⟨first, failed⟩ := fails.2 (mentions.1 ⟨name, isName, isVariable, missing⟩)
      cases checked.symm.trans failed
    · intro known
      have listed : ∀ name ∈ f.propositions, name ∈ symbols := by
        simpa [Formula.mem_propositions] using known
      exact ⟨_, Model.check_ofRow distinct listed row⟩

/-- A formula with constants, in the last three rows of a table, and in models that lack a symbol of
no consequence. -/
theorem evaluate_agrees_with_check_of_constants :
    let f : Formula := .chain (.group true (.pair (.symbol false "a") .impl (.symbol true "true")))
      .disj (.single (.group false (.pair (.symbol false "b") .conj (.symbol false "false"))))
    ["a", "b"].Nodup ∧ ["a", "b"].length ≤ maxTableSymbols ∧
      (∀ name ∈ f.names, constantValue? name = none → name ∈ ["a", "b"]) ∧
      (⟨["a", "b"], 1, 3⟩ : Table).evaluate f = .ok [true, false, false] ∧
      (∃ models, Model.all ["a", "b"] = .ok models ∧ ∀ k < 3, ∃ m b, models[1 + k]? = some m ∧
        m.check f = .ok b ∧ [true, false, false][k]? = some b) ∧
      ["a"].Nodup ∧ (∀ models, Model.all ["a"] = .ok models → ∀ m ∈ models,
        ∃ name, m.check f = .error (.unvaluedSymbol m.id name)) := by
  intro f
  have distinct : ["a", "b"].Nodup := by decide
  have few : ["a", "b"].length ≤ maxTableSymbols := by decide
  have known : ∀ name ∈ f.names, constantValue? name = none → name ∈ ["a", "b"] := by decide
  have column : (⟨["a", "b"], 1, 3⟩ : Table).evaluate f = .ok [true, false, false] := by decide
  have single : ["a"].Nodup := by decide
  have missing : ∃ name ∈ f.names, constantValue? name = none ∧ name ∉ ["a"] := by decide
  obtain ⟨table, value, models, part, _, evaluated, _, enumerated, _, agree⟩ :=
    (evaluate_agrees_with_check distinct f).1 few known 1 3 (by decide)
  cases part
  rw [← Except.ok.inj (column.symm.trans evaluated)] at agree
  refine ⟨distinct, few, known, column, ⟨models, enumerated, agree⟩, single, ?_⟩
  intro models enumerated m isModel
  exact (((evaluate_agrees_with_check single f).2 models enumerated m isModel).1).2 missing

end Table

end Entail
