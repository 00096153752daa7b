import Entail.Proofs.Formula.Grammar

/-!
# Scanning rows

A leaf is an operand as it is written in a text without parentheses: a name or
a back-reference behind any number of negation signs.  A row of leaves is
scanned into its tokens, since what follows a leaf cannot prolong it, and the
tokens are read as the slots that the leaves resolve to.
-/

namespace Entail

/-! ### Numbers of back-references -/

namespace Text

theorem digitValue?_digitChar {n : Nat} (small : n < 10) :
    digitValue? n.digitChar = some n := by
  have all : ∀ n < 10, digitValue? n.digitChar = some n := by decide
  exact all n small

theorem exists_digitChar_of_mem_digitsOf {n : Nat} {c : Char} (isDigit : c ∈ digitsOf n) :
    ∃ digit < 10, c = digit.digitChar := by
  induction n using Nat.strongRecOn with
  | _ n ih =>
      by_cases small : n < 10
      · rw [digitsOf, Nat.toDigits_of_lt_base small, List.mem_singleton] at isDigit
        exact ⟨n, small, isDigit⟩
      · rw [digitsOf, Nat.toDigits_of_base_le (by decide) (Nat.le_of_not_lt small),
          List.mem_append, List.mem_singleton] at isDigit
        rcases isDigit with isDigit | isLast
        · exact ih (n / 10) (by omega) isDigit
        · exact ⟨n % 10, Nat.mod_lt n (by decide), isLast⟩

theorem isDigit_of_mem_digitsOf {n : Nat} {c : Char} (isDigit : c ∈ digitsOf n) :
    Text.isDigit c = true := by
  rcases exists_digitChar_of_mem_digitsOf isDigit with ⟨digit, small, rfl⟩
  simp [Text.isDigit, digitValue?_digitChar small]

/-- The digits of a number denote it. -/
theorem numberOf_digitsOf (n : Nat) : numberOf (digitsOf n) = n := by
  induction n using Nat.strongRecOn with
  | _ n ih =>
      by_cases small : n < 10
      · rw [digitsOf, Nat.toDigits_of_lt_base small]
        simp [numberOf, digitValue?_digitChar small]
      · have shorter := ih (n / 10) (by omega)
        rw [digitsOf, Nat.toDigits_of_base_le (by decide) (Nat.le_of_not_lt small)]
        rw [numberOf, List.foldl_append, ← numberOf, ← digitsOf, shorter]
        simp only [List.foldl_cons, List.foldl_nil,
          digitValue?_digitChar (Nat.mod_lt n (by decide)), Option.getD_some]
        exact Nat.div_add_mod n 10

end Text

/-! ### Leaves -/

/-- The ways to write an operand without parentheses. -/
inductive Leaf
  | name (signs : Nat) (name : Name)
  | reference (signs : Nat) (number : Nat)

namespace Leaf

/-- The text of a leaf. -/
def chars : Leaf → List Char
  | name signs word => signChars signs ++ word.chars
  | reference signs number => signChars signs ++ Token.referenceMark ++ Text.digitsOf number

/-- The last token of a leaf, behind its signs. -/
def token : Leaf → Token
  | name _ word => .name word.chars
  | reference _ number => .reference (Text.digitsOf number)

/-- The number of signs of a leaf. -/
def signs : Leaf → Nat
  | name signs _ => signs
  | reference signs _ => signs

/-- The tokens of a leaf. -/
def tokens (leaf : Leaf) : List Token :=
  List.replicate leaf.signs .negation ++ [leaf.token]

theorem chars_eq (leaf : Leaf) : leaf.chars = signChars leaf.signs ++ leaf.token.chars := by
  cases leaf <;> simp [chars, signs, token, Token.chars]

/-- The slot that a leaf is, given what back-references number. -/
inductive Resolves {ρ : Type} (references : List ρ) : Leaf → Slot ρ → Prop
  | name (signs : Nat) (name : Name) : Resolves references (.name signs name)
      (.symbol (isOdd signs) (String.ofList name.chars))
  | reference (signs : Nat) {number : Nat} {target : ρ} : references[number]? = some target →
      Resolves references (.reference signs number) (.reference (isOdd signs) target)

end Leaf

namespace Row

/-- The text of a row of leaves. -/
def chars (row : Row Leaf) : List Char :=
  row.first.chars ++ row.rest.flatMap fun pair => pair.1.spelling.toList ++ pair.2.chars

/-- The tokens of a row of leaves. -/
def tokens (row : Row Leaf) : List Token :=
  row.first.tokens ++ row.rest.flatMap fun pair => .connective pair.1 :: pair.2.tokens

@[simp]
theorem chars_cons (leaf : Leaf) (c : Connective) (row : Row Leaf) :
    (row.cons leaf c).chars = leaf.chars ++ c.spelling.toList ++ row.chars := by
  simp [chars, cons]

theorem tokens_cons (leaf : Leaf) (c : Connective) (row : Row Leaf) :
    (row.cons leaf c).tokens = leaf.tokens ++ .connective c :: row.tokens := by
  simp [tokens, cons]

/-- The row of slots that a row of leaves is. -/
inductive Resolves {ρ : Type} (references : List ρ) : Row Leaf → Row (Slot ρ) → Prop
  | single {leaf : Leaf} {slot : Slot ρ} : leaf.Resolves references slot →
      Resolves references ⟨leaf, []⟩ ⟨slot, []⟩
  | cons {leaf : Leaf} {slot : Slot ρ} (c : Connective) {row : Row Leaf}
      {slots : Row (Slot ρ)} : leaf.Resolves references slot → Resolves references row slots →
      Resolves references (row.cons leaf c) (slots.cons slot c)

end Row

/-! ### Scanning -/

/-- A text that cannot prolong a name or a number. -/
def Delimits (rest : List Char) : Prop :=
  ∀ c ∈ rest.head?, Token.isNameChar c = false ∧ Text.isDigit c = false

/-- A text that does not begin with a separator. -/
def Begins (cs : List Char) : Prop :=
  ∀ c ∈ cs.head?, Token.isSeparator c = false

theorem Begins.noSeparator {cs : List Char} (begins : Begins cs) :
    cs.dropWhile Token.isSeparator = cs ∧ cs.takeWhile Token.isSeparator = [] := by
  cases cs with
  | nil => simp
  | cons c cs => simp [begins c rfl]

/-- A text has the given tokens, wherever it begins. -/
def Scans (cs : List Char) (tokens : List Token) : Prop :=
  ∀ position, (Scan.startingAt position cs).stuck = none ∧
    (Scan.startingAt position cs).lexemes.map Lexeme.token = tokens

theorem takeWhile_append_of_delimited {p : Char → Bool} {cs rest : List Char}
    (all : ∀ c ∈ cs, p c = true) (delimited : ∀ c ∈ rest.head?, p c = false) :
    (cs ++ rest).takeWhile p = cs ∧ (cs ++ rest).dropWhile p = rest := by
  rw [List.takeWhile_append_of_pos all, List.dropWhile_append_of_pos all]
  cases rest with
  | nil => simp
  | cons c rest => simp [delimited c rfl]

namespace Token

/-- The digits behind the mark of back-references are read as far as they go. -/
theorem read?_digits {digits rest : List Char} (someDigit : digits ≠ [])
    (areDigits : ∀ c ∈ digits, Text.isDigit c = true)
    (ends : ∀ c ∈ rest.head?, Text.isDigit c = false) :
    read? (referenceMark ++ digits ++ rest) = some (.reference digits, rest) := by
  rcases takeWhile_append_of_delimited areDigits ends with ⟨front, tail⟩
  rw [referenceMark, List.append_assoc, List.cons_append, List.cons_append, List.nil_append, read?,
    ofDigits?, front, tail]
  split
  · contradiction
  · rfl

theorem read?_reference (number : Nat) {rest : List Char}
    (ends : ∀ c ∈ rest.head?, Text.isDigit c = false) :
    read? (referenceMark ++ Text.digitsOf number ++ rest) =
      some (.reference (Text.digitsOf number), rest) :=
  read?_digits Nat.toDigits_ne_nil (fun _ => Text.isDigit_of_mem_digitsOf) ends

theorem read?_name (name : Name) {rest : List Char} (delimits : Delimits rest) :
    read? (name.chars ++ rest) = some (.name name.chars, rest) := by
  rcases takeWhile_append_of_delimited name.plain
    (fun c isFirst => (delimits c isFirst).1) with ⟨chars, tail⟩
  rcases name with ⟨_ | ⟨c, cs⟩, nonempty, plain⟩
  · contradiction
  · have isPlain : isNameChar c = true := plain c List.mem_cons_self
    simp only [List.cons_append] at chars tail ⊢
    unfold read?
    split
    case h_7 => rw [ofName?, chars, tail]
    all_goals
      next same =>
        rw [List.cons.injEq] at same
        rw [same.1] at isPlain
        exact absurd isPlain (by decide)

theorem read?_connective (c : Connective) (rest : List Char) :
    read? (c.spelling.toList ++ rest) = some (.connective c, rest) := by
  cases c <;> rfl

end Token

theorem Scans.nil : Scans [] [] := by
  intro position
  rw [Scan.startingAt]
  constructor <;> rfl

/-- A text has the token at its beginning and the tokens of the text behind it. -/
theorem Scans.cons {token : Token} {cs rest : List Char} {tokens : List Token}
    (begins : Begins cs) (read : Token.read? cs = some (token, rest))
    (tail : Scans rest tokens) : Scans cs (token :: tokens) := by
  intro position
  have noSeparator := begins.noSeparator
  rw [Scan.startingAt]
  simp only [noSeparator.1, noSeparator.2]
  split
  · next missing =>
      rw [noSeparator.1, read] at missing
      contradiction
  · next found =>
      rw [noSeparator.1, read] at found
      cases found
      rcases tail (position + 0 + token.chars.length) with ⟨stuck, lexemes⟩
      exact ⟨stuck, congrArg (token :: ·) lexemes⟩

theorem Scans.signs {cs : List Char} {tokens : List Token} (signs : Nat)
    (scans : Scans cs tokens) :
    Scans (signChars signs ++ cs) (List.replicate signs .negation ++ tokens) := by
  induction signs with
  | zero => exact scans
  | succ signs ih =>
      have begins : Begins ('~' :: (signChars signs ++ cs)) := by
        rintro c ⟨⟩
        decide
      exact Scans.cons begins rfl ih

theorem Token.isSeparator_eq_false {c : Char} (notBlank : Text.isBlank c = false) :
    isSeparator c = false := by
  rw [Bool.eq_false_iff] at notBlank ⊢
  intro separates
  simp only [isSeparator, Bool.or_eq_true, decide_eq_true_eq] at separates
  rcases separates with ((rfl | rfl) | rfl) | rfl <;> exact notBlank (by decide)

theorem Name.begins (name : Name) (rest : List Char) : Begins (name.chars ++ rest) := by
  rcases name with ⟨_ | ⟨c, cs⟩, nonempty, plain⟩
  · contradiction
  · rintro _ ⟨⟩
    have isPlain := plain c List.mem_cons_self
    simp only [Token.isNameChar, Bool.not_eq_true', Bool.or_eq_false_iff] at isPlain
    exact Token.isSeparator_eq_false isPlain.2

/-- A leaf has its tokens, whatever follows it. -/
theorem Scans.leaf (leaf : Leaf) {rest : List Char} {tokens : List Token}
    (delimits : Delimits rest) (scans : Scans rest tokens) :
    Scans (leaf.chars ++ rest) (leaf.tokens ++ tokens) := by
  rw [leaf.chars_eq, Leaf.tokens, List.append_assoc, List.append_assoc]
  apply Scans.signs
  cases leaf with
  | name signs name =>
      exact .cons (name.begins rest) (Token.read?_name name delimits) scans
  | reference signs number =>
      apply Scans.cons
      · rintro _ ⟨⟩
        decide
      · exact Token.read?_reference number fun c isFirst => (delimits c isFirst).2
      · exact scans

theorem delimits_connective (c : Connective) (rest : List Char) :
    Delimits (c.spelling.toList ++ rest) ∧ Begins (c.spelling.toList ++ rest) := by
  constructor <;> (cases c <;> rintro _ ⟨⟩ <;> decide)

/-- A row of leaves has its tokens. -/
theorem Row.scans (row : Row Leaf) : Scans row.chars row.tokens := by
  rcases row with ⟨leaf, rest⟩
  induction rest generalizing leaf with
  | nil => simpa [chars, tokens] using Scans.leaf leaf (by simp [Delimits]) Scans.nil
  | cons pair rest ih =>
      rcases pair with ⟨c, next⟩
      have tail : Scans (c.spelling.toList ++ (⟨next, rest⟩ : Row Leaf).chars)
          (.connective c :: (⟨next, rest⟩ : Row Leaf).tokens) :=
        .cons (delimits_connective c _).2 (Token.read?_connective c _) (ih next)
      simpa [chars, tokens] using Scans.leaf leaf (delimits_connective c _).1 tail

/-! ### Reading -/

namespace RowContext

variable {ρ : Type} {row : RowContext ρ}

theorem not_isOversize {number : Nat} (inRange : number < row.references.length) :
    row.isOversize (Text.digitsOf number) = false := by
  simp [isOversize, Text.numberOf_digitsOf, inRange]

/-- Signs are read one by one, each flips the negation. -/
theorem readOperand_signs (row : RowContext ρ) (signs : Nat) (isFirst negated : Bool)
    {lexemes : List Lexeme} {token : Token} {tokens : List Token}
    (scanned : lexemes.map Lexeme.token =
      List.replicate signs .negation ++ token :: tokens) :
    ∃ position rest, rest.map Lexeme.token = tokens ∧
      row.readOperand isFirst negated lexemes =
        row.readOperand isFirst (negated != isOdd signs) (⟨token, position⟩ :: rest) := by
  induction signs generalizing negated lexemes with
  | zero =>
      rcases List.map_eq_cons_iff.1 scanned with ⟨⟨_, position⟩, rest, rfl, rfl, restScanned⟩
      exact ⟨position, rest, restScanned, by simp [isOdd]⟩
  | succ signs ih =>
      rcases List.map_eq_cons_iff.1 scanned with ⟨⟨_, _⟩, rest, rfl, rfl, restScanned⟩
      rcases ih (!negated) restScanned with ⟨position, behind, behindScanned, read⟩
      have parity : ((!negated) != isOdd signs) = (negated != isOdd (signs + 1)) := by
        have odd : isOdd (signs + 1) = !isOdd signs := by
          simp only [isOdd]
          rcases Nat.mod_two_eq_zero_or_one signs with even | odd
          · simp [Nat.add_mod, even]
          · simp [Nat.add_mod, odd]
        rw [odd]
        cases negated <;> cases isOdd signs <;> rfl
      rw [readOperand, ← parity]
      exact ⟨position, behind, behindScanned, read⟩

/-- A leaf is read as the slot that it resolves to. -/
theorem readOperand_leaf {leaf : Leaf} {slot : Slot ρ}
    (resolves : leaf.Resolves row.references slot) (isFirst : Bool) {lexemes : List Lexeme}
    {tokens : List Token} (scanned : lexemes.map Lexeme.token = leaf.tokens ++ tokens) :
    ∃ rest, rest.map Lexeme.token = tokens ∧
      row.readOperand isFirst false lexemes = row.readLink slot rest := by
  rw [Leaf.tokens, List.append_assoc] at scanned
  rcases row.readOperand_signs leaf.signs isFirst false scanned with
    ⟨position, rest, restScanned, read⟩
  exists rest, restScanned
  rw [read, Bool.false_bne]
  cases resolves with
  | name signs name => rw [Leaf.token, readOperand, Leaf.signs]
  | reference signs found =>
      have inRange := (List.getElem?_eq_some_iff.1 found).1
      rw [Leaf.token, readOperand, resolve, not_isOversize inRange, if_neg Bool.false_ne_true,
        Text.numberOf_digitsOf, found, Leaf.signs]

/-- A row of leaves is read as the row of slots that it resolves to. -/
theorem readOperand_row (inPlace : row.stuck = none) {leaves : Row Leaf} {slots : Row (Slot ρ)}
    (resolves : leaves.Resolves row.references slots) (isFirst : Bool) {lexemes : List Lexeme}
    (scanned : lexemes.map Lexeme.token = leaves.tokens) :
    row.readOperand isFirst false lexemes = .ok slots := by
  induction resolves generalizing isFirst lexemes with
  | single resolves =>
      rcases readOperand_leaf resolves isFirst scanned with ⟨rest, restScanned, read⟩
      rw [read, List.map_eq_nil_iff.1 restScanned, readLink, inPlace]
  | cons c resolves _ ih =>
      rw [Row.tokens_cons] at scanned
      rcases readOperand_leaf resolves isFirst scanned with ⟨rest, restScanned, read⟩
      rcases List.map_eq_cons_iff.1 restScanned with ⟨⟨_, _⟩, behind, rfl, rfl, behindScanned⟩
      rw [read, readLink, ih false behindScanned]
      rfl

end RowContext

/-! ### The characters of leaves -/

/-- A character that is neither a blank nor a parenthesis. -/
def IsFlat (c : Char) : Prop :=
  Text.isBlank c = false ∧ c ≠ '(' ∧ c ≠ ')'

theorem notMem_of_isFlat {cs : List Char} (flat : ∀ c ∈ cs, IsFlat c) : '(' ∉ cs ∧ ')' ∉ cs :=
  ⟨fun isOpen => (flat _ isOpen).2.1 rfl, fun isClose => (flat _ isClose).2.2 rfl⟩

theorem isFlat_of_isNameChar {c : Char} (isNameChar : Token.isNameChar c = true) : IsFlat c := by
  simp only [Token.isNameChar, Bool.not_eq_true', Bool.or_eq_false_iff] at isNameChar
  rcases isNameChar with ⟨notReserved, notBlank⟩
  constructor
  · exact notBlank
  · constructor
    · rintro rfl
      exact absurd notReserved (by decide)
    · rintro rfl
      exact absurd notReserved (by decide)

theorem isFlat_of_mem_digitsOf {n : Nat} {c : Char} (isDigit : c ∈ Text.digitsOf n) :
    IsFlat c := by
  rcases Text.exists_digitChar_of_mem_digitsOf isDigit with ⟨digit, small, rfl⟩
  have all : ∀ digit < 10, Token.isNameChar digit.digitChar = true := by decide
  exact isFlat_of_isNameChar (all digit small)

theorem isFlat_of_mem_signChars {signs : Nat} {c : Char} (isSign : c ∈ signChars signs) :
    IsFlat c := by
  rcases List.eq_of_mem_replicate isSign with rfl
  exact ⟨by decide, by decide, by decide⟩

theorem isFlat_of_mem_spelling {d : Connective} {c : Char} (isMark : c ∈ d.spelling.toList) :
    IsFlat c := by
  cases d <;> simp [Connective.spelling] at isMark <;> rcases isMark with rfl | rfl | rfl <;>
    exact ⟨by decide, by decide, by decide⟩

theorem Leaf.isFlat (leaf : Leaf) {c : Char} (isChar : c ∈ leaf.chars) : IsFlat c := by
  cases leaf with
  | name signs name =>
      rcases List.mem_append.1 isChar with isSign | isLetter
      · exact isFlat_of_mem_signChars isSign
      · exact isFlat_of_isNameChar (name.plain c isLetter)
  | reference signs number =>
      rcases List.mem_append.1 isChar with isChar | isDigit
      · rcases List.mem_append.1 isChar with isSign | isMark
        · exact isFlat_of_mem_signChars isSign
        · simp only [Token.referenceMark, List.mem_cons, List.not_mem_nil, or_false, or_self]
            at isMark
          subst isMark
          exact ⟨by decide, by decide, by decide⟩
      · exact isFlat_of_mem_digitsOf isDigit

/-- There are no parentheses in the text that takes the place of a nest. -/
theorem notMem_reference (number : Nat) : '(' ∉ Token.referenceMark ++ Text.digitsOf number ∧
    ')' ∉ Token.referenceMark ++ Text.digitsOf number :=
  notMem_of_isFlat fun _ => (Leaf.reference 0 number).isFlat

/-- A row of leaves holds neither blanks nor parentheses. -/
theorem Row.isFlat (row : Row Leaf) {c : Char} (isChar : c ∈ row.chars) : IsFlat c := by
  rcases List.mem_append.1 isChar with isFirst | isRest
  · exact Leaf.isFlat _ isFirst
  · rcases List.mem_flatMap.1 isRest with ⟨pair, _, isChar⟩
    rcases List.mem_append.1 isChar with isMark | isChar
    · exact isFlat_of_mem_spelling isMark
    · exact Leaf.isFlat _ isChar

/-- The text of a row of leaves is read as the row of slots that it resolves to. -/
theorem Row.ofText_chars {ρ : Type} {references : List ρ} {row : Row Leaf}
    {slots : Row (Slot ρ)} (resolves : row.Resolves references slots) :
    Row.ofText references row.chars = .ok slots := by
  have noTabs : Text.expandTabs row.chars = row.chars :=
    Text.expandTabsFrom_eq_self (fun isTab => absurd (row.isFlat isTab).1 (by decide)) 0
  rcases row.scans 0 with ⟨stuck, scanned⟩
  rw [ofText, noTabs]
  apply RowContext.readOperand_row _ resolves true scanned
  simp only [Scan.ofChars, stuck, Option.map_none]

/-- A back-reference with more digits than are read is rejected, unless it was put in place of a
nest. -/
theorem Row.ofText_of_oversize {ρ : Type} {references : List ρ} {digits : List Char}
    (areDigits : ∀ c ∈ digits, Text.isDigit c = true) (oversize : Text.maxDigits < digits.length)
    (foreign : ∀ number < references.length, digits ≠ Text.digitsOf number) :
    Row.ofText references (Token.referenceMark ++ digits) =
      .error (.oversizeNumber digits.length) := by
  have noTab : '\t' ∉ Token.referenceMark ++ digits := by
    intro isTab
    rcases List.mem_append.1 isTab with isMark | isDigit
    · exact absurd isMark (by decide)
    · exact absurd (areDigits _ isDigit) (by decide)
  have noTabs : Text.expandTabs (Token.referenceMark ++ digits) = Token.referenceMark ++ digits :=
    Text.expandTabsFrom_eq_self noTab 0
  have someDigit : digits ≠ [] := List.ne_nil_of_length_pos (Nat.zero_lt_of_lt oversize)
  have atEnd : ∀ c ∈ ([] : List Char).head?, Text.isDigit c = false := by simp
  have read := Token.read?_digits someDigit areDigits atEnd
  rw [List.append_nil] at read
  have begins : Begins (Token.referenceMark ++ digits) := by
    rintro _ ⟨⟩
    decide
  rcases Scans.cons begins read .nil 0 with ⟨_, scanned⟩
  rcases List.map_eq_singleton_iff.1 scanned with ⟨⟨_, position⟩, lexemes, rfl⟩
  have refused {row : RowContext ρ} (same : row.references = references) :
      row.isOversize digits = true := by
    rw [RowContext.isOversize, same]
    by_cases inRange : Text.numberOf digits < references.length
    · simp [oversize, foreign _ inRange]
    · simp [oversize, inRange]
  rw [ofText, noTabs]
  simp only [Scan.ofChars, lexemes, RowContext.readOperand, RowContext.resolve, refused, if_true]

end Entail
