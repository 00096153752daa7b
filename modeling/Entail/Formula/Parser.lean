import Entail.Formula.Precedence
import Entail.Formula.Slot
import Entail.Text.Parenthesis

/-!
# Reading formulas

The parenthesized parts of a text are read from the inside to the outside.
Each one is replaced in the text by a back-reference to what was read, until a
row without parentheses is left.
-/

namespace Entail.Formula

/-- A text cut at a pair of parentheses with none between them. -/
structure Nest where
  before : List Char
  inner : List Char
  after : List Char

namespace Nest

/-- The text that was cut. -/
def whole (nest : Nest) : List Char :=
  nest.before ++ '(' :: nest.inner ++ ')' :: nest.after

/-- Cuts a text at its first closing parenthesis and the last opening one before it. -/
def find? (text : List Char) : Option Nest :=
  match text.dropWhile (· != ')') with
  | [] => none
  | _ :: after =>
    let front := text.takeWhile (· != ')')
    match front.reverse.dropWhile (· != '(') with
    | [] => none
    | _ :: before => some ⟨before.reverse, (front.reverse.takeWhile (· != '(')).reverse, after⟩

/-- The text with the nest replaced by the back-reference of the given number. -/
def replace (nest : Nest) (number : Nat) : List Char :=
  nest.before ++ Token.referenceMark ++ Text.digitsOf number ++ nest.after

private theorem eq_of_dropWhile_ne {c d : Char} {cs rest : List Char}
    (split : cs.dropWhile (· != c) = d :: rest) :
    d = c ∧ cs = cs.takeWhile (· != c) ++ c :: rest := by
  have first : d = c := by
    simpa [split] using List.head_dropWhile_not (· != c) (l := cs) (by simp [split])
  subst first
  exact ⟨rfl, by rw [← split, List.takeWhile_append_dropWhile]⟩

theorem whole_of_find? {text : List Char} {nest : Nest} (found : find? text = some nest) :
    text = nest.whole := by
  simp only [find?] at found
  split at found
  · simp at found
  next close after atClose =>
    split at found
    · simp at found
    next openMark before atOpen =>
      obtain ⟨_, outer⟩ := eq_of_dropWhile_ne atClose
      obtain ⟨_, inner⟩ := eq_of_dropWhile_ne atOpen
      cases found
      have front := congrArg List.reverse inner
      simp only [List.reverse_reverse, List.reverse_append, List.reverse_cons] at front
      calc text
        _ = text.takeWhile (· != ')') ++ ')' :: after := outer
        _ = _ := congrArg (· ++ ')' :: after) front
        _ = _ := by simp [whole]

theorem count_close_replace_lt {text : List Char} {nest : Nest} (found : find? text = some nest)
    (number : Nat) : (nest.replace number).count ')' < text.count ')' := by
  have noClose : (Text.digitsOf number).count ')' = 0 := by
    rw [List.count_eq_zero]
    intro member
    exact absurd (Nat.isDigit_of_mem_toDigits (by decide) (by decide) member) (by decide)
  rw [whole_of_find? found]
  simp only [replace, whole, Token.referenceMark, List.count_append, List.count_cons, noClose]
  simp
  omega

end Nest

/-- Reads the nests of a text by reading the texts without parentheses; `references` holds what
was read before. -/
def readNests {m : Type → Type} [Monad m] [MonadExceptOf Error m] {ρ : Type}
    (readRow : List ρ → List Char → m ρ) (source : List Char) (references : List ρ)
    (text : List Char) : m ρ :=
  match found : Nest.find? text with
  | none => readRow references text
  | some nest =>
    if nest.inner.all Text.isBlank then throw (.emptyParentheses (String.ofList source))
    else do
      let content ← readRow references nest.inner
      have := Nest.count_close_replace_lt found references.length
      readNests readRow source (references ++ [content]) (nest.replace references.length)
termination_by text.count ')'

/-- Reads a text by reading the texts without parentheses that it is made of. -/
def readText {m : Type → Type} [Monad m] [MonadExceptOf Error m] {ρ : Type}
    (readRow : List ρ → List Char → m ρ) (text : List Char) : m ρ :=
  match Text.firstUnmatched text with
  | some position => throw (.unbalanced position (String.ofList text))
  | none => readNests readRow text [] text

/-- Reads a formula without parentheses, given the sub-formulas that it may refer to. -/
def ofRow (references : List Formula) (text : List Char) : Except Error Formula :=
  (Row.ofText references text).map fun row => (row.map Slot.operand).byPrecedence

/-- Reads a formula. -/
def parse (text : String) : Except Error Formula :=
  readText ofRow text.toList

end Entail.Formula
