/-!
# Splitting and filling

A text cut at every occurrence of a separator, and a text filled up to a width.
-/

namespace Entail.Text

/-- The pieces of a text between the characters that are separators. -/
def splitWhere (isSeparator : Char → Bool) : List Char → List (List Char)
  | [] => [[]]
  | c :: rest =>
    if isSeparator c then [] :: splitWhere isSeparator rest
    else
      match splitWhere isSeparator rest with
      | [] => [[c]]
      | piece :: pieces => (c :: piece) :: pieces

/-- The pieces of a text between the occurrences of a separator. -/
def split (separator : Char) (cs : List Char) : List (List Char) :=
  splitWhere (· == separator) cs

/-- A number written with leading spaces up to the given width. -/
def padLeft (width : Nat) (text : String) : String :=
  String.ofList (List.replicate (width - text.length) ' ') ++ text

end Entail.Text
