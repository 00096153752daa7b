/-!
# Blank characters

The characters that separate words and carry no meaning of their own, and the
ways to take them away from a text.
-/

namespace Entail.Text

/-- The inclusive ranges of code points with the white-space property or of a separator control. -/
def blankRanges : List (Nat × Nat) :=
  [(0x09, 0x0d), (0x1c, 0x20), (0x85, 0x85), (0xa0, 0xa0), (0x1680, 0x1680),
   (0x2000, 0x200a), (0x2028, 0x2029), (0x202f, 0x202f), (0x205f, 0x205f),
   (0x3000, 0x3000)]

def isBlank (c : Char) : Bool :=
  blankRanges.any fun range => range.1 ≤ c.toNat && c.toNat ≤ range.2

/-- The text without the characters at its two ends that `isMargin` holds of. -/
def trimWhere (isMargin : Char → Bool) (cs : List Char) : List Char :=
  ((cs.dropWhile isMargin).reverse.dropWhile isMargin).reverse

/-- The text without the blanks at its two ends. -/
def trimBlanks (cs : List Char) : List Char :=
  trimWhere isBlank cs

/-- The text without the blanks at its end. -/
def trimEnd (cs : List Char) : List Char :=
  (cs.reverse.dropWhile isBlank).reverse

/-- The text without any blank. -/
def removeBlanks (cs : List Char) : List Char :=
  cs.filter fun c => !isBlank c

/-- `trimBlanks` on strings. -/
def trim (text : String) : String :=
  String.ofList (trimBlanks text.toList)

/-- `removeBlanks` on strings. -/
def squeeze (text : String) : String :=
  String.ofList (removeBlanks text.toList)

theorem isBlank_of_isWhitespace {c : Char} (h : c.isWhitespace) : isBlank c := by
  simp only [Char.isWhitespace, Bool.or_eq_true, decide_eq_true_eq] at h
  rcases h with ((rfl | rfl) | rfl) | rfl <;> decide

theorem not_isBlank_of_mem_removeBlanks {c : Char} {cs : List Char}
    (h : c ∈ removeBlanks cs) : isBlank c = false := by
  simpa using (List.mem_filter.1 h).2

@[simp]
theorem removeBlanks_removeBlanks (cs : List Char) :
    removeBlanks (removeBlanks cs) = removeBlanks cs := by
  simp [removeBlanks]

end Entail.Text
