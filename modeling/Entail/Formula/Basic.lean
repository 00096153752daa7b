import Entail.Connective

/-!
# Formulas

A formula is a nonempty row of operands with a connective between neighbours.
An operand is a symbol or a group, and may be negated; a group holds a formula.
Rows may be of any length and may mix connectives, so that every stage of a
transformation is a formula.
-/

namespace Entail

mutual

/-- A symbol or a parenthesized formula, possibly negated. -/
inductive Operand
  | symbol (negated : Bool) (name : String)
  | group (negated : Bool) (content : Formula)

/-- A row of operands separated by connectives. -/
inductive Formula
  | single (operand : Operand)
  | chain (first : Operand) (link : Connective) (rest : Formula)

end

deriving instance DecidableEq for Operand, Formula

instance : Inhabited Operand := ⟨.symbol false ""⟩
instance : Inhabited Formula := ⟨.single default⟩

/-- The name of the constant that is always true. -/
def trueName : String := "true"

/-- The name of the constant that is always false. -/
def falseName : String := "false"

/-- The truth value that a name denotes, if it is a constant. -/
def constantValue? (name : String) : Option Bool :=
  if name = trueName then some true
  else if name = falseName then some false
  else none

/-- The names of a list that are not truth constants. -/
def propositions (names : List String) : List String :=
  names.filter fun name => (constantValue? name).isNone

namespace Operand

/-- The literal that is written as a truth constant. -/
def constant (value : Bool) : Operand :=
  .symbol false (if value then trueName else falseName)

def negated : Operand → Bool
  | symbol negated _ => negated
  | group negated _ => negated

/-- The operand with its own negation flipped. -/
def toggle : Operand → Operand
  | symbol negated name => symbol (!negated) name
  | group negated content => group (!negated) content

def isSymbol : Operand → Bool
  | symbol _ _ => true
  | group _ _ => false

/-- The truth value of a constant literal, its negation taken into account. -/
def truth? : Operand → Option Bool
  | symbol negated name => (constantValue? name).map (· != negated)
  | group _ _ => none

end Operand

namespace Formula

/-- The first operand of a row. -/
def head : Formula → Operand
  | single x => x
  | chain x _ _ => x

/-- The row with its first operand replaced. -/
def mapHead (f : Operand → Operand) : Formula → Formula
  | single x => single (f x)
  | chain x c rest => chain (f x) c rest

/-- The operands of the row, groups unopened. -/
def operands : Formula → List Operand
  | single x => [x]
  | chain x _ rest => x :: rest.operands

/-- The connectives of the row, groups unopened. -/
def links : Formula → List Connective
  | single _ => []
  | chain _ c rest => c :: rest.links

/-- The number of operands and connectives of the row. -/
def length : Formula → Nat
  | single _ => 1
  | chain _ _ rest => rest.length + 2

def isSingle : Formula → Bool
  | single _ => true
  | chain _ _ _ => false

/-- A single symbol, possibly negated. -/
def isLiteral : Formula → Bool
  | single x => x.isSymbol
  | chain _ _ _ => false

/-- The row of the given operands, all joined by `c`. -/
def join (c : Connective) (first : Operand) : List Operand → Formula
  | [] => single first
  | next :: rest => chain first c (join c next rest)

/-- Two rows joined by a connective. -/
def append (c : Connective) : Formula → Formula → Formula
  | single x, g => chain x c g
  | chain x d rest, g => chain x d (rest.append c g)

/-- The formula of two operands. -/
def pair (left : Operand) (c : Connective) (right : Operand) : Formula :=
  chain left c (single right)

/-- The formula as an operand: a row of one stands for itself, a longer one is parenthesized. -/
def toOperand : Formula → Operand
  | single x => x
  | f => .group false f

/-- The negation: a single operand is toggled, a longer row becomes a negated group. -/
def negate : Formula → Formula
  | single x => single x.toggle
  | f => single (.group true f)

end Formula

mutual

/-- The symbol names of an operand in order of appearance, repetitions included. -/
def Operand.names : Operand → List String
  | .symbol _ name => [name]
  | .group _ content => content.names

/-- The symbol names of a formula in order of appearance, repetitions included. -/
def Formula.names : Formula → List String
  | .single x => x.names
  | .chain x _ rest => x.names ++ rest.names

end

/-- The distinct symbol names of a formula in order of first appearance. -/
def Formula.symbols (f : Formula) : List String :=
  f.names.eraseDups

/-- The distinct symbol names of a formula that are not truth constants. -/
def Formula.propositions (f : Formula) : List String :=
  Entail.propositions f.symbols

namespace Formula

@[simp]
theorem operands_join (c : Connective) (first : Operand) (rest : List Operand) :
    (join c first rest).operands = first :: rest := by
  induction rest generalizing first with
  | nil => rfl
  | cons next rest ih => simp [join, operands, ih]

theorem links_join (c : Connective) (first : Operand) (rest : List Operand) :
    (join c first rest).links = List.replicate rest.length c := by
  induction rest generalizing first with
  | nil => rfl
  | cons next rest ih => simp [join, links, ih, List.replicate_succ]

end Formula

end Entail
