import Entail.Truth.Table

/-!
# Models

A model is a numbered row of a truth table.  A formula can be checked in a
model if the model has a value for each of its symbols, even for those on
which the value of the formula does not depend.
-/

namespace Entail

/-- An assignment of truth values to listed symbols. -/
structure Model where
  id : Int
  symbols : List String
  values : List Bool
  deriving DecidableEq, Repr

namespace Model

/-- The place of a symbol; the last one, if it is listed repeatedly. -/
def position? (m : Model) (symbol : String) : Option Nat :=
  (m.symbols.zipIdx.reverse.find? fun entry => entry.1 == symbol).map Prod.snd

/-- The value of a symbol. -/
def value (m : Model) (symbol : String) : Except Error Bool :=
  match constantValue? symbol with
  | some value => .ok value
  | none =>
    match m.position? symbol with
    | none => .error (.unvaluedSymbol m.id symbol)
    | some i =>
      match m.values[i]? with
      | some value => .ok value
      | none => .error .outOfRange

/-- The symbols with their values. -/
def entries (m : Model) : List (String × Bool) :=
  m.symbols.zip m.values

/-- The assignment that agrees with the model on the symbols it has values for. -/
def valuation (m : Model) : Valuation := fun symbol =>
  match m.value symbol with
  | .ok value => value
  | .error _ => false

/-- The truth value of a formula in a model. -/
def check (m : Model) (f : Formula) : Except Error Bool := do
  f.propositions.forM fun symbol => discard (m.value symbol)
  return f.eval m.valuation

def text (m : Model) : String :=
  "Model #" ++ toString m.id ++ ": " ++ String.join (m.values.map truthLetter)

/-- The models over the given symbols, one for each row of their truth table. -/
def all (symbols : List String) : Except Error (List Model) :=
  (Table.ofSymbols symbols).map fun table =>
    table.rows.zipIdx.map fun row => ⟨row.2, symbols, row.1⟩

end Model

end Entail
