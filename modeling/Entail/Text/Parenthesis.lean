/-!
# Parentheses

A closing parenthesis is the partner of the nearest opening one that has none
yet.  A text is balanced if every parenthesis has a partner.
-/

namespace Entail.Text

/-- Scans a text from position `i` on; `opened` holds the positions of the opening parentheses
that wait for a partner, the latest first. -/
def unmatchedFrom (i : Nat) (opened : List Nat) : List Char → Option Nat
  | [] => opened.getLast?
  | c :: rest =>
    if c = '(' then unmatchedFrom (i + 1) (i :: opened) rest
    else if c = ')' then
      match opened with
      | [] => some i
      | _ :: waiting => unmatchedFrom (i + 1) waiting rest
    else unmatchedFrom (i + 1) opened rest

/-- The position of the first parenthesis without a partner. -/
def firstUnmatched (cs : List Char) : Option Nat :=
  unmatchedFrom 0 [] cs

end Entail.Text
