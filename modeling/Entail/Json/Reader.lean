import Entail.Decimal.Spelling
import Entail.Json.Value
import Entail.Text.Hexadecimal

/-!
# Reading structured values

A reader takes the beginning of a text and returns what it read together with
the rest of the text, or the first error that it meets.  Of entries with the
same key, the last one counts.
-/

namespace Entail.Json

/-- The text behind the blanks at its beginning. -/
def skipBlanks (cs : List Char) : List Char :=
  cs.dropWhile fun c => c = ' ' || c = '\t' || c = '\n' || c = '\r'

/-- The text behind a word at its beginning. -/
def word (expected : List Char) (cs : List Char) : Option (List Char) :=
  if expected.isPrefixOf cs then some (cs.drop expected.length) else none

/-- Reads a 16-bit unit of four hexadecimal digits. -/
def readUnit : List Char → Except Error (Nat × List Char)
  | a :: b :: c :: d :: rest =>
    match [a, b, c, d].mapM Text.hexValue? with
    | some digits => .ok (digits.foldl (fun n digit => 16 * n + digit) 0, rest)
    | none => .error .malformedSettings
  | _ => .error .malformedSettings

/-- Reads an escaped code point behind its first unit; two units make up one character if they are
a pair. -/
def readPair (unit : Nat) (rest : List Char) : CodePoint × List Char :=
  match rest with
  | '\\' :: 'u' :: tail =>
    match readUnit tail with
    | .ok (second, tail) =>
      if isHigh unit && isLow second then (.char (pairChar unit second), tail)
      else (.ofUnit unit, rest)
    | .error _ => (.ofUnit unit, rest)
  | _ => (.ofUnit unit, rest)

/-- Reads an escaped code point behind its backslash. -/
def readEscape : List Char → Except Error (CodePoint × List Char)
  | '"' :: rest => .ok (.char '"', rest)
  | '\\' :: rest => .ok (.char '\\', rest)
  | '/' :: rest => .ok (.char '/', rest)
  | 'b' :: rest => .ok (.char (Char.ofNat 0x08), rest)
  | 'f' :: rest => .ok (.char (Char.ofNat 0x0c), rest)
  | 'n' :: rest => .ok (.char '\n', rest)
  | 'r' :: rest => .ok (.char '\r', rest)
  | 't' :: rest => .ok (.char '\t', rest)
  | 'u' :: rest => (readUnit rest).map fun read => readPair read.1 read.2
  | _ => .error .malformedSettings

/-- Reads the rest of a text value, in at most `bound` code points. -/
def readPoints : Nat → List Char → Except Error (List CodePoint × List Char)
  | 0, _ => .error .malformedSettings
  | _, [] => .error .malformedSettings
  | _, '"' :: rest => .ok ([], rest)
  | bound + 1, '\\' :: rest => do
    let (point, rest) ← readEscape rest
    let (points, rest) ← readPoints bound rest
    return (point :: points, rest)
  | bound + 1, c :: rest => do
    if c.toNat < 0x20 then throw .malformedSettings
    let (points, rest) ← readPoints bound rest
    return (.char c :: points, rest)

/-- Reads a text value behind its opening quote. -/
def readText (cs : List Char) : Except Error (RawText × List Char) :=
  (readPoints (cs.length + 1) cs).map fun read => (⟨read.1⟩, read.2)

/-- Reads the fraction of a number, if there is one. -/
def readFraction (cs : List Char) : List Char × List Char :=
  match cs with
  | '.' :: tail =>
    match tail.takeWhile Char.isDigit with
    | [] => ([], cs)
    | digits => (digits, tail.dropWhile Char.isDigit)
  | _ => ([], cs)

/-- Reads the exponent of a number, if there is one. -/
def readExponent (cs : List Char) : Option Int × List Char :=
  match cs with
  | e :: tail =>
    if e = 'e' ∨ e = 'E' then
      let (negative, tail) := match tail with
        | '-' :: tail => (true, tail)
        | '+' :: tail => (false, tail)
        | tail => (false, tail)
      match tail.takeWhile Char.isDigit with
      | [] => (none, cs)
      | digits =>
        let n : Int := Text.numberOf digits
        (some (if negative then -n else n), tail.dropWhile Char.isDigit)
    else (none, cs)
  | [] => (none, cs)

/-- Reads a number behind its sign. -/
def readNumber (negative : Bool) (cs : List Char) : Except Error (Value × List Char) :=
  let whole := match cs with
    | '0' :: _ => ['0']
    | cs => cs.takeWhile Char.isDigit
  if whole.isEmpty then .error .malformedSettings
  else
    let (fraction, rest) := readFraction (cs.drop whole.length)
    let (exponent, rest) := readExponent rest
    if fraction.isEmpty && exponent.isNone then
      (Decimal.readParts negative whole).map fun n => (.integer n, rest)
    else
      let x := Decimal.nearest (whole ++ fraction) (whole.length + exponent.getD 0)
      .ok (.float (if negative then -x else x), rest)

/-- The words that denote values. -/
def words : List (String × Value) :=
  [("null", .null), ("true", .boolean true), ("false", .boolean false), ("NaN", .float (0 / 0)),
   ("Infinity", .float (1 / 0)), ("-Infinity", .float (-1 / 0))]

/-- Reads a number or one of the words. -/
def readAtom (cs : List Char) : Except Error (Value × List Char) :=
  match words.findSome? fun entry => (word entry.1.toList cs).map (entry.2, ·) with
  | some read => .ok read
  | none =>
    match cs with
    | '-' :: rest => readNumber true rest
    | cs => readNumber false cs

mutual

/-- Reads a value, in at most `bound` steps. -/
def readValue : Nat → List Char → Except Error (Value × List Char)
  | 0, _ => .error .malformedSettings
  | bound + 1, cs =>
    match skipBlanks cs with
    | '"' :: rest => (readText rest).map fun read => (.text read.1, read.2)
    | '[' :: rest =>
      match skipBlanks rest with
      | ']' :: rest => .ok (.list [], rest)
      | _ => (readItems bound rest).map fun read => (.list read.1, read.2)
    | '\x7b' :: rest =>
      match skipBlanks rest with
      | '\x7d' :: rest => .ok (.record [], rest)
      | _ => (readEntries bound [] rest).map fun read => (.record read.1, read.2)
    | cs => readAtom cs

/-- Reads the items of a list that is not empty, and its end. -/
def readItems : Nat → List Char → Except Error (List Value × List Char)
  | 0, _ => .error .malformedSettings
  | bound + 1, cs => do
    let (item, rest) ← readValue bound cs
    match skipBlanks rest with
    | ']' :: rest => return ([item], rest)
    | ',' :: rest => do
      let (items, rest) ← readItems bound rest
      return (item :: items, rest)
    | _ => throw .malformedSettings

/-- Reads the entries of a record that is not empty, and its end; `known` holds the entries before
them. -/
def readEntries : Nat → Entries → List Char → Except Error (Entries × List Char)
  | 0, _, _ => .error .malformedSettings
  | bound + 1, known, cs =>
    match skipBlanks cs with
    | '"' :: rest => do
      let (key, rest) ← readText rest
      match skipBlanks rest with
      | ':' :: rest => do
        let (value, rest) ← readValue bound rest
        let known := assign key value known
        match skipBlanks rest with
        | '\x7d' :: rest => return (known, rest)
        | ',' :: rest => readEntries bound known rest
        | _ => throw .malformedSettings
      | _ => throw .malformedSettings
    | _ => throw .malformedSettings

end

/-- The value that a whole text is the written form of. -/
def Value.read (text : String) : Except Error Value := do
  let cs := text.toList
  let (value, rest) ← readValue (2 * cs.length + 2) cs
  if (skipBlanks rest).isEmpty then return value else throw .malformedSettings

end Entail.Json
