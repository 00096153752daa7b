import Entail.Text.Split

/-!
# Escape sequences

A control sequence changes how the text behind it is set, and shows nothing
itself.  A link shows its text and hides its target.  The visible part of a
text is what is left when both are read as a console reads them.
-/

namespace Entail.Console

/-- A character in the given range of code points. -/
def isWithin (low high : Nat) (c : Char) : Bool :=
  low ≤ c.toNat && c.toNat ≤ high

/-- The length of the control sequence that a text begins with: an introducer, parameters,
intermediate characters, and a final one. -/
def controlLength? : List Char → Option Nat
  | '\x1b' :: '[' :: rest =>
    let parameters := rest.takeWhile (isWithin 0x30 0x3f)
    let behind := rest.drop parameters.length
    let intermediates := behind.takeWhile (isWithin 0x20 0x2f)
    match behind.drop intermediates.length with
    | [] => none
    | c :: _ =>
      if isWithin 0x40 0x7e c then some (parameters.length + intermediates.length + 3) else none
  | _ => none

/-- The characters of the keys and values of a link, of which only plain letters are supported. -/
def isWordChar (c : Char) : Bool :=
  c.isAlphanum || c = '_'

/-- Keys with their values behind equals signs; a value and the next key may touch. -/
def isPairs (cs : List Char) : Bool :=
  match Text.split '=' cs with
  | first :: second :: others =>
    let words := first :: second :: others
    let values := second :: others
    words.all (·.all isWordChar) && !first.isEmpty && !(values.getLast?.getD []).isEmpty &&
      values.dropLast.all (2 ≤ ·.length)
  | _ => false

/-- The parameters of a link: keys with their values, set apart by colons, of which one may stand
at the end. -/
def isLinkParameters (cs : List Char) : Bool :=
  let pieces := Text.split ':' cs
  cs.isEmpty ||
    pieces.dropLast.all isPairs &&
      match pieces.getLast? with
      | some [] => 1 < pieces.length
      | some piece => isPairs piece
      | none => false

/-- What closes a link. -/
def linkEnd : List Char := ['\x1b', ']', '8', ';', ';', '\x1b', '\\']

/-- The text that is shown for the link that a text begins with, and the length of the link. -/
def link? : List Char → Option (List Char × Nat)
  | '\x1b' :: ']' :: '8' :: ';' :: rest =>
    let parameters := rest.takeWhile (· != ';')
    let behind := rest.drop (parameters.length + 1)
    let target := behind.takeWhile (· != '\x1b')
    match behind.drop target.length with
    | '\x1b' :: '\\' :: behind =>
      let shown := behind.takeWhile (· != '\x1b')
      if isLinkParameters parameters && !target.isEmpty && !shown.isEmpty &&
          linkEnd.isPrefixOf (behind.drop shown.length) then
        some (shown, parameters.length + target.length + shown.length + linkEnd.length + 7)
      else none
    | _ => none
  | _ => none

/-- What the escape sequence shows that a text begins with, and its length. -/
def escape? (cs : List Char) : Option (List Char × Nat) :=
  (controlLength? cs).map ([], ·) <|> link? cs

/-- Whether a text holds an escape sequence. -/
def hasEscape : List Char → Bool
  | [] => false
  | c :: rest => (escape? (c :: rest)).isSome || hasEscape rest

/-- The visible part of a text of which the given number of characters was read before. -/
def visibleFrom : Nat → List Char → List Char
  | _, [] => []
  | read + 1, _ :: rest => visibleFrom read rest
  | 0, c :: rest =>
    match escape? (c :: rest) with
    | some (shown, length) => shown ++ visibleFrom (length - 1) rest
    | none => c :: visibleFrom 0 rest

/-- The visible part of a text. -/
def visible (cs : List Char) : List Char :=
  visibleFrom 0 cs

theorem visible_eq_self {cs : List Char} (plain : hasEscape cs = false) : visible cs = cs := by
  unfold visible
  induction cs with
  | nil => rfl
  | cons c rest ih =>
    simp only [hasEscape, Bool.or_eq_false_iff] at plain
    obtain ⟨first, others⟩ := plain
    rw [visibleFrom]
    split
    · simp_all
    · rw [ih others]

end Entail.Console
