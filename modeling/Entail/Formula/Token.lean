import Entail.Connective
import Entail.Text.Blank
import Entail.Text.Digit

/-!
# Tokens of formula texts

A formula text without parentheses consists of names, negation signs,
connectives and back-references such as `@@3`, which stand for sub-formulas
read before.  Tokens may be separated by spaces, tabs and line ends.
-/

namespace Entail

inductive Token
  | reference (digits : List Char)
  | connective (c : Connective)
  | negation
  | name (chars : List Char)
  deriving DecidableEq, Repr

/-- A token and the position at which it begins. -/
structure Lexeme where
  token : Token
  position : Nat
  deriving DecidableEq, Repr

/-- The lexemes at the beginning of a text, and the position of the first character that belongs
to no token, if there is one. -/
structure Scan where
  lexemes : List Lexeme
  stuck : Option Nat
  deriving DecidableEq, Repr

namespace Token

/-- The mark before the number of a back-reference. -/
def referenceMark : List Char := ['@', '@']

/-- The characters that have a meaning in formula texts and so cannot occur in a name. -/
def reservedChars : List Char := ['&', '|', '<', '=', '>', '~', '(', ')', '@']

/-- The characters that connectives are made of. -/
def connectiveChars : List Char := ['&', '|', '<', '=', '>']

/-- The characters that names are made of. -/
def isNameChar (c : Char) : Bool :=
  !(reservedChars.contains c || Text.isBlank c)

/-- The blanks that may stand between tokens. -/
def isSeparator (c : Char) : Bool :=
  c = ' ' || c = '\n' || c = '\r' || c = '\t'

/-- How a token is written. -/
def chars : Token → List Char
  | reference digits => referenceMark ++ digits
  | connective c => c.spelling.toList
  | negation => ['~']
  | name cs => cs

/-- The reference with as many digits as possible. -/
def ofDigits? (cs : List Char) : Option (Token × List Char) :=
  match cs.takeWhile Text.isDigit with
  | [] => none
  | digits => some (reference digits, cs.dropWhile Text.isDigit)

/-- The name with as many characters as possible. -/
def ofName? (cs : List Char) : Option (Token × List Char) :=
  match cs.takeWhile isNameChar with
  | [] => none
  | chars => some (name chars, cs.dropWhile isNameChar)

/-- Reads the token at the beginning of a text, and returns the rest of the text with it. -/
def read? : List Char → Option (Token × List Char)
  | '@' :: '@' :: rest => ofDigits? rest
  | '<' :: '=' :: '>' :: rest => some (connective .iff, rest)
  | '=' :: '>' :: rest => some (connective .impl, rest)
  | '|' :: '|' :: rest => some (connective .disj, rest)
  | '&' :: rest => some (connective .conj, rest)
  | '~' :: rest => some (negation, rest)
  | cs => ofName? cs

theorem chars_append_of_ofDigits? {cs rest : List Char} {token : Token}
    (read : ofDigits? cs = some (token, rest)) :
    referenceMark ++ cs = token.chars ++ rest ∧ rest.length < cs.length := by
  have split := List.takeWhile_append_dropWhile (p := Text.isDigit) (l := cs)
  simp only [ofDigits?] at read
  generalize cs.takeWhile Text.isDigit = digits at read split
  cases digits with
  | nil => simp at read
  | cons digit digits =>
    simp only [Option.some.injEq, Prod.mk.injEq] at read
    obtain ⟨rfl, rfl⟩ := read
    refine ⟨by simpa [chars, referenceMark] using split.symm, ?_⟩
    have := congrArg List.length split
    simp only [List.length_append, List.length_cons] at this
    omega

theorem chars_append_of_ofName? {cs rest : List Char} {token : Token}
    (read : ofName? cs = some (token, rest)) :
    cs = token.chars ++ rest ∧ rest.length < cs.length := by
  have split := List.takeWhile_append_dropWhile (p := isNameChar) (l := cs)
  simp only [ofName?] at read
  generalize cs.takeWhile isNameChar = chars at read split
  cases chars with
  | nil => simp at read
  | cons first chars =>
    simp only [Option.some.injEq, Prod.mk.injEq] at read
    obtain ⟨rfl, rfl⟩ := read
    refine ⟨split.symm, ?_⟩
    have := congrArg List.length split
    simp only [List.length_append, List.length_cons] at this
    omega

/-- A token is read from the front of the text and takes at least one character. -/
theorem chars_append_of_read? {cs rest : List Char} {token : Token}
    (read : read? cs = some (token, rest)) :
    cs = token.chars ++ rest ∧ rest.length < cs.length := by
  unfold read? at read
  split at read
  case h_1 =>
    obtain ⟨whole, shorter⟩ := chars_append_of_ofDigits? read
    exact ⟨whole, by simp only [List.length_cons]; omega⟩
  case h_7 => exact chars_append_of_ofName? read
  all_goals
    simp only [Option.some.injEq, Prod.mk.injEq] at read
    obtain ⟨rfl, rfl⟩ := read
    exact ⟨rfl, by simp only [List.length_cons]; omega⟩

end Token

/-- Reads lexemes from a text that begins at the given position. -/
def Scan.startingAt (position : Nat) (cs : List Char) : Scan :=
  let body := cs.dropWhile Token.isSeparator
  let start := position + (cs.takeWhile Token.isSeparator).length
  match read : Token.read? body with
  | none => ⟨[], if body.isEmpty then none else some start⟩
  | some (token, rest) =>
    have : rest.length < cs.length :=
      Nat.lt_of_lt_of_le (Token.chars_append_of_read? read).2
        (List.dropWhile_sublist Token.isSeparator).length_le
    let tail := Scan.startingAt (start + token.chars.length) rest
    ⟨⟨token, start⟩ :: tail.lexemes, tail.stuck⟩
termination_by cs.length

/-- The lexemes of a text. -/
def Scan.ofChars (cs : List Char) : Scan :=
  Scan.startingAt 0 cs

end Entail
