/-!
# Raw texts

A text in 16-bit units denotes every character beyond the first plane by a
pair of surrogates, a high and a low one.  Units can come apart from their
partners, so a raw text consists of characters and of surrogates that stand
alone.
-/

namespace Entail.Json

/-- A character, or a surrogate that stands alone. -/
inductive CodePoint
  | char (c : Char)
  | surrogate (unit : Nat)
  deriving DecidableEq, Repr

/-- A text in which surrogates may stand alone. -/
structure RawText where
  points : List CodePoint
  deriving DecidableEq, Repr

/-- Whether a unit is the first one of a pair. -/
def isHigh (unit : Nat) : Bool :=
  0xd800 ≤ unit && unit < 0xdc00

/-- Whether a unit is the second one of a pair. -/
def isLow (unit : Nat) : Bool :=
  0xdc00 ≤ unit && unit < 0xe000

/-- The code point of a unit that does not belong to a pair. -/
def CodePoint.ofUnit (unit : Nat) : CodePoint :=
  if isHigh unit || isLow unit then .surrogate unit else .char (Char.ofNat unit)

/-- The character of a pair of units. -/
def pairChar (high low : Nat) : Char :=
  Char.ofNat (0x10000 + (high - 0xd800) * 0x400 + (low - 0xdc00))

/-- The 16-bit units of a character. -/
def unitsOf (c : Char) : List Nat :=
  if c.toNat < 0x10000 then [c.toNat]
  else
    let offset := c.toNat - 0x10000
    [0xd800 + offset / 0x400, 0xdc00 + offset % 0x400]

/-- The character in place of a code point, a replacement character for a surrogate. -/
def CodePoint.toChar : CodePoint → Char
  | char c => c
  | surrogate _ => Char.ofNat 0xfffd

namespace RawText

def ofString (s : String) : RawText :=
  ⟨s.toList.map .char⟩

instance : Coe String RawText := ⟨ofString⟩

/-- The text with replacement characters for surrogates. -/
def toString (text : RawText) : String :=
  String.ofList (text.points.map CodePoint.toChar)

def isEmpty (text : RawText) : Bool :=
  text.points.isEmpty

@[simp]
theorem toString_ofString (s : String) : (ofString s).toString = s := by
  have points : CodePoint.toChar ∘ CodePoint.char = id := rfl
  simp [ofString, toString, points]

theorem ofString_injective {s t : String} (h : ofString s = ofString t) : s = t := by
  rw [← toString_ofString s, h, toString_ofString]

end RawText

end Entail.Json
