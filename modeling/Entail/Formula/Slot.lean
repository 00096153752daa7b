import Entail.Error
import Entail.Formula.Row
import Entail.Formula.Token
import Entail.Text.TabStop

/-!
# Reading texts without parentheses

The lexemes of a text without parentheses alternate between operands and
connectives, and any number of negation signs may precede an operand.  A
back-reference stands for a group that was read before.  The first lexeme out
of place is reported; a character that belongs to no lexeme is reported only
if all lexemes before it are in place.
-/

namespace Entail

/-- An operand of a text without parentheses: a name, or a back-reference to what was read before,
possibly negated. -/
inductive Slot (ρ : Type)
  | symbol (negated : Bool) (name : String)
  | reference (negated : Bool) (target : ρ)
  deriving DecidableEq, Repr

/-- Whether a slot is negated. -/
def Slot.negated {ρ : Type} : Slot ρ → Bool
  | symbol negated _ => negated
  | reference negated _ => negated

/-- The operand that a slot is if the target of a back-reference is a formula. -/
def Slot.operand : Slot Formula → Operand
  | symbol negated name => .symbol negated name
  | reference negated content => .group negated content

/-- What the lexemes of a row are read against. -/
structure RowContext (ρ : Type) where
  /-- What back-references number. -/
  references : List ρ
  /-- The row as it was written. -/
  text : String
  /-- The row with its tabs expanded, in which positions count. -/
  expanded : String
  /-- What is wrong where the lexemes end, if they end early. -/
  stuck : Option Error

namespace RowContext

variable {ρ : Type}

/-- Whether the digits of a back-reference are too many to be read as a number.  This is never said
of a number as it is put in place of a nest: so many nests fit into no text. -/
def isOversize (row : RowContext ρ) (digits : List Char) : Bool :=
  Text.maxDigits < digits.length &&
    !(Text.numberOf digits < row.references.length &&
      digits == Text.digitsOf (Text.numberOf digits))

/-- The slot of a back-reference. -/
def resolve (row : RowContext ρ) (negated : Bool) (digits : List Char) :
    Except Error (Slot ρ) :=
  if row.isOversize digits then .error (.oversizeNumber digits.length)
  else
    match row.references[Text.numberOf digits]? with
    | some target => .ok (.reference negated target)
    | none =>
      .error (.unknownReference (String.ofList (Token.reference digits).chars) row.expanded)

mutual

/-- Reads a row that has to go on with an operand. -/
def readOperand (row : RowContext ρ) (isFirst negated : Bool) :
    List Lexeme → Except Error (Row (Slot ρ))
  | [] =>
    match row.stuck with
    | some error => .error error
    | none =>
      .error (if isFirst then .emptyFormula row.text else .missingOperand row.text)
  | ⟨.negation, _⟩ :: rest => row.readOperand isFirst (!negated) rest
  | ⟨.name chars, _⟩ :: rest => row.readLink (.symbol negated (String.ofList chars)) rest
  | ⟨.reference digits, _⟩ :: rest =>
    match row.resolve negated digits with
    | .ok x => row.readLink x rest
    | .error error => .error error
  | ⟨.connective c, position⟩ :: _ =>
    .error (.missingLeftOperand c position row.expanded)

/-- Reads the rest of a row behind the operand `x`. -/
def readLink (row : RowContext ρ) (x : Slot ρ) : List Lexeme → Except Error (Row (Slot ρ))
  | [] =>
    match row.stuck with
    | some error => .error error
    | none => .ok ⟨x, []⟩
  | ⟨.connective c, _⟩ :: rest => (row.readOperand false false rest).map (.cons x c)
  | ⟨.negation, position⟩ :: _ => .error (.misplacedNegation position row.expanded)
  | ⟨token, position⟩ :: _ =>
    .error (.misplacedOperand (String.ofList token.chars) position row.expanded)

end

end RowContext

/-- What is wrong with a text whose character at `position` begins no lexeme.  The position counts
in the expanded text, but the character is looked up in the text as it was written. -/
def stuckError (text : List Char) (position : Nat) : Error :=
  let run := (text.drop position).takeWhile Token.connectiveChars.contains
  if run.isEmpty then .unreadable position (String.ofList text)
  else .unsupportedRun (String.ofList run) position (String.ofList text)

/-- Reads a text without parentheses, given what its back-references number. -/
def Row.ofText {ρ : Type} (references : List ρ) (text : List Char) :
    Except Error (Row (Slot ρ)) :=
  let expanded := Text.expandTabs text
  let scan := Scan.ofChars expanded
  let row : RowContext ρ :=
    { references
      text := String.ofList text
      expanded := String.ofList expanded
      stuck := scan.stuck.map (stuckError text) }
  row.readOperand true false scan.lexemes

end Entail
