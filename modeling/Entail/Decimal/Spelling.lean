import Entail.Error
import Entail.Text.Blank
import Entail.Text.LetterCase
import Entail.Text.Split

/-!
# Spelled numbers

A text spells a whole number by its digits, and any other number by a point or
by an exponent of ten as well.  A sign may precede the digits, blanks may
surround the text, and single underscores may stand between digits.  Another
way to spell a number is to group the digits of its whole part by commas.
-/

namespace Entail.Decimal

/-- The floating-point number nearest to `0.d₁d₂… * 10 ^ point`, given its digits.  A shift by more
than 400 places beyond the digits is cut short, since the number is zero or infinite by then. -/
def nearest (digits : List Char) (point : Int) : Float :=
  let count : Int := digits.length
  let power := max (-(count + 400)) (min 400 (point - count))
  Float.ofScientific (Text.numberOf digits) (power < 0) power.natAbs

/-- The floating-point number nearest to a whole number, unless that is too large for one. -/
def ofInt? (n : Int) : Option Float :=
  let x := Float.ofScientific n.natAbs false 0
  if x.isFinite then some (if n < 0 then -x else x) else none

/-- The blanks that may surround a number; the separator controls may not. -/
def isMargin (c : Char) : Bool :=
  Text.isBlank c && !(0x1c ≤ c.toNat && c.toNat ≤ 0x1f)

/-- The digits of a whole number, in which single underscores may stand between digits. -/
def digitGroups? (cs : List Char) : Option (List Char) :=
  let groups := Text.split '_' cs
  if groups.all fun group => !group.isEmpty && group.all Text.isDigit then some groups.flatten
  else none

/-- The digits of a part of a number that may be missing. -/
def digitPart? (cs : List Char) : Option (List Char) :=
  if cs.isEmpty then some [] else digitGroups? cs

/-- Whether a text begins with a minus sign, and the text without its sign. -/
def splitSign : List Char → Bool × List Char
  | '-' :: rest => (true, rest)
  | '+' :: rest => (false, rest)
  | cs => (false, cs)

/-- Whether the whole number that characters spell is negative, and its digits. -/
def wholeParts? (cs : List Char) : Option (Bool × List Char) :=
  let (negative, cs) := splitSign cs
  (digitGroups? cs).map (negative, ·)

/-- The whole number of a sign and digits. -/
def ofParts (negative : Bool) (digits : List Char) : Int :=
  let n : Int := Text.numberOf digits
  if negative then -n else n

/-- The whole number of a sign and digits, of which there must not be too many. -/
def readParts (negative : Bool) (digits : List Char) : Except Error Int :=
  if Text.maxDigits < digits.length then .error (.oversizeNumber digits.length)
  else .ok (ofParts negative digits)

/-- The whole number that a text spells, or what is wrong with its many digits. -/
def readWhole? (text : String) : Option (Except Error Int) :=
  (wholeParts? (Text.trimWhere isMargin text.toList)).map fun parts => readParts parts.1 parts.2

/-- Whether a text spells a whole number that can be read. -/
def isWhole (text : String) : Bool :=
  match readWhole? text with
  | some (.ok _) => true
  | _ => false

/-- Whether a character may stand in a row of digits. -/
def isPlace (c : Char) : Bool :=
  Text.isDigit c || c = '_'

/-- The digits of a fraction behind its point, if there is one, and the text behind them. -/
def splitFraction? (cs : List Char) : Option (List Char × List Char) :=
  match cs with
  | '.' :: rest => (digitPart? (rest.takeWhile isPlace)).map (·, rest.dropWhile isPlace)
  | _ => some ([], cs)

/-- The exponent that the rest of a number spells. -/
def exponent? (cs : List Char) : Option Int :=
  match cs with
  | [] => some 0
  | mark :: rest =>
    if mark = 'e' ∨ mark = 'E' then (wholeParts? rest).map fun parts => ofParts parts.1 parts.2
    else none

/-- The magnitude that digits spell. -/
def digitMagnitude? (cs : List Char) : Option Float := do
  let whole ← digitPart? (cs.takeWhile isPlace)
  let (fraction, rest) ← splitFraction? (cs.dropWhile isPlace)
  let exponent ← exponent? rest
  if whole.isEmpty && fraction.isEmpty then none
  else some (nearest (whole ++ fraction) (whole.length + exponent))

/-- The magnitude that characters spell, infinity and the value of no number by words. -/
def magnitude? (cs : List Char) : Option Float :=
  match String.ofList (cs.map Char.toLower) with
  | "inf" | "infinity" => some (1 / 0)
  | "nan" => some (0 / 0)
  | _ => digitMagnitude? cs

/-- The floating-point number that a text spells; it is infinite if the text spells a number too
large for one. -/
def float? (text : String) : Option Float :=
  let (negative, cs) := splitSign (Text.trimWhere isMargin text.toList)
  (magnitude? cs).map fun x => if negative then -x else x

/-- Whether a text spells a finite number, or is one of three words for other ones. -/
def isNumber (text : String) : Bool :=
  match float? text with
  | some x => x.isFinite || ["inf", "-inf", "nan"].contains (Text.lower text)
  | none => false

/-- A whole number whose digits are grouped by commas in threes; there may be a sign. -/
def isGroupedWhole (cs : List Char) : Bool :=
  match Text.split ',' (splitSign cs).2 with
  | [] => false
  | first :: others =>
    !first.isEmpty && first.length ≤ 3 && first.all Char.isDigit &&
      others.all fun group => group.length == 3 && group.all Char.isDigit

/-- A number whose whole part is grouped by commas or missing; a line feed may follow it, and may
stand alone. -/
def isGrouped (text : String) : Bool :=
  let cs := match text.toList.reverse with
    | '\n' :: rest => rest.reverse
    | _ => text.toList
  let whole := cs.takeWhile (· != '.')
  match cs.dropWhile (· != '.') with
  | [] => whole.isEmpty || isGroupedWhole whole
  | _ :: fraction =>
    fraction.all Char.isDigit && if whole.isEmpty then !fraction.isEmpty else isGroupedWhole whole

end Entail.Decimal
