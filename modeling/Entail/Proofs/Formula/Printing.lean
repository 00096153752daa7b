import Entail.Formula.Printer
import Entail.Proofs.Formula.Scanning
import Entail.Proofs.Formula.Uniform

/-!
# Written forms are different

Formulas that are written the same are the same, if their names hold none of the
characters that formulas are written with around them: a name ends where such a
character follows, and a group ends at the parenthesis that closes it.
-/

namespace Entail

/-- A text that can be written as a name. -/
def IsName (text : String) : Prop :=
  ∃ name : Name, text = String.ofList name.chars

/-- All names of the formula can be written. -/
def Formula.IsWritable (f : Formula) : Prop :=
  ∀ name ∈ f.names, IsName name

/-- All names of the operand can be written. -/
def Operand.IsWritable (x : Operand) : Prop :=
  ∀ name ∈ x.names, IsName name

theorem Formula.isWritable_iff {f : Formula} :
    f.IsWritable ↔ ∀ x ∈ f.operands, x.IsWritable := by
  simp only [IsWritable, Operand.IsWritable, names_eq_flatMap, List.mem_flatMap]
  grind

/-! ### Names without marks -/

/-- The characters of negations, parentheses and connectives. -/
def markChars : List Char := '~' :: '(' :: ')' :: Token.connectiveChars

/-- A text in which no negation, parenthesis or connective can be found, nor a part of one. -/
def IsUnmarked (text : String) : Prop :=
  ∀ c ∈ text.toList, c ∉ markChars

/-- No name of the formula holds a mark. -/
def Formula.IsUnmarked (f : Formula) : Prop :=
  ∀ name ∈ f.names, Entail.IsUnmarked name

/-- No name of the operand holds a mark. -/
def Operand.IsUnmarked (x : Operand) : Prop :=
  ∀ name ∈ x.names, Entail.IsUnmarked name

theorem IsName.isUnmarked {text : String} (isName : IsName text) : IsUnmarked text := by
  rcases isName with ⟨name, rfl⟩
  intro c isChar isMark
  have reserved : markChars ⊆ Token.reservedChars := by decide
  rw [String.toList_ofList] at isChar
  simpa [Token.isNameChar, reserved isMark] using name.plain c isChar

theorem Formula.IsWritable.isUnmarked {f : Formula} (writable : f.IsWritable) : f.IsUnmarked :=
  fun name isName => (writable name isName).isUnmarked

/-! ### Where a part of a text ends -/

/-- A text that does not go on with an operand. -/
def EndsOperand (rest : List Char) : Prop :=
  ∀ c ∈ rest.head?, c = ')' ∨ c ∈ Token.connectiveChars

/-- A text that does not go on with an operand or a connective. -/
def EndsRow (rest : List Char) : Prop :=
  ∀ c ∈ rest.head?, c = ')'

theorem EndsRow.endsOperand {rest : List Char} (ends : EndsRow rest) : EndsOperand rest :=
  fun c isFirst => .inl (ends c isFirst)

theorem endsOperand_spelling (c : Connective) (rest : List Char) :
    EndsOperand (c.spelling.toList ++ rest) := by
  cases c <;> rintro _ ⟨⟩ <;> decide

theorem not_endsRow_spelling {c : Connective} {rest : List Char} :
    ¬EndsRow (c.spelling.toList ++ rest) := by
  intro ends
  cases c <;> exact absurd (ends _ rfl) (by decide)

theorem EndsOperand.mem_markChars {rest : List Char} (ends : EndsOperand rest) :
    ∀ c ∈ rest.head?, c ∈ markChars := by
  intro c isFirst
  rcases ends c isFirst with rfl | isConnective
  · decide
  · exact List.mem_cons_of_mem _ (List.mem_cons_of_mem _ (List.mem_cons_of_mem _ isConnective))

/-- A name without marks ends at the first mark. -/
theorem IsUnmarked.append_inj {name name' : String} (unmarked : IsUnmarked name)
    (unmarked' : IsUnmarked name') {rest rest' : List Char} (ends : EndsOperand rest)
    (ends' : EndsOperand rest') (same : name.toList ++ rest = name'.toList ++ rest') :
    name = name' ∧ rest = rest' := by
  have plain {name : String} (unmarked : IsUnmarked name) :
      ∀ c ∈ name.toList, (!markChars.contains c) = true := by simpa [IsUnmarked] using unmarked
  have delimited {rest : List Char} (ends : EndsOperand rest) :
      ∀ c ∈ rest.head?, (!markChars.contains c) = false := by simpa using ends.mem_markChars
  rcases takeWhile_append_of_delimited (plain unmarked) (delimited ends) with ⟨taken, dropped⟩
  rcases takeWhile_append_of_delimited (plain unmarked') (delimited ends') with ⟨taken', dropped'⟩
  rw [same] at taken dropped
  exact ⟨String.toList_injective (taken.symm.trans taken'), dropped.symm.trans dropped'⟩

theorem Connective.spelling_append_inj {c c' : Connective} {rest rest' : List Char}
    (same : c.spelling.toList ++ rest = c'.spelling.toList ++ rest') : c = c' ∧ rest = rest' := by
  have token := congrArg Token.read? same
  rw [Token.read?_connective, Token.read?_connective] at token
  simpa using token

/-- What an operand is written as without its sign. -/
def Operand.body : Operand → List Char
  | .symbol _ name => name.toList
  | .group _ content => '(' :: content.chars ++ [')']

theorem Operand.chars_eq (x : Operand) : x.chars = signOf x.negated ++ x.body := by
  cases x <;> simp [chars, negated, body]

/-- Behind the sign of a symbol there is neither another sign nor a group. -/
theorem Operand.head_body_symbol (negated : Bool) {name : String}
    (unmarked : Entail.IsUnmarked name) {rest : List Char} (ends : EndsOperand rest) :
    ∀ c ∈ ((symbol negated name).body ++ rest).head?, c ≠ '~' ∧ c ≠ '(' := by
  intro c isFirst
  rw [body] at isFirst
  cases opened : name.toList with
  | nil =>
      rw [opened, List.nil_append] at isFirst
      rcases ends c isFirst with rfl | isConnective
      · decide
      · constructor <;> (rintro rfl; exact absurd isConnective (by decide))
  | cons d ds =>
      rw [opened] at isFirst
      cases isFirst
      have plain := unmarked c (opened ▸ List.mem_cons_self)
      constructor <;> (rintro rfl; exact plain (by decide))

theorem Operand.head_body_ne_sign {x : Operand} (unmarked : x.IsUnmarked) {rest : List Char}
    (ends : EndsOperand rest) : ∀ c ∈ (x.body ++ rest).head?, c ≠ '~' := by
  cases x with
  | symbol negated name =>
      exact fun c isFirst => (head_body_symbol negated (unmarked name List.mem_cons_self) ends c isFirst).1
  | group negated content =>
      rintro _ ⟨⟩
      decide

theorem Operand.sign_append_inj {x y : Operand} (unmarked : x.IsUnmarked)
    (unmarked' : y.IsUnmarked) {rest rest' : List Char} (ends : EndsOperand rest)
    (ends' : EndsOperand rest') (same : x.chars ++ rest = y.chars ++ rest') :
    x.negated = y.negated ∧ x.body ++ rest = y.body ++ rest' := by
  have notSign := head_body_ne_sign unmarked ends
  have notSign' := head_body_ne_sign unmarked' ends'
  rw [chars_eq, chars_eq, List.append_assoc, List.append_assoc] at same
  cases sign : x.negated <;> cases sign' : y.negated <;> rw [sign, sign'] at same
  · exact ⟨rfl, same⟩
  · have same : x.body ++ rest = '~' :: (y.body ++ rest') := same
    rw [same] at notSign
    exact absurd rfl (notSign _ rfl)
  · have same : '~' :: (x.body ++ rest) = y.body ++ rest' := same
    rw [← same] at notSign'
    exact absurd rfl (notSign' _ rfl)
  · exact ⟨rfl, (List.cons.inj same).2⟩

mutual

/-- An operand is known from a text that begins with it. -/
theorem Operand.chars_append_inj {x y : Operand} (unmarked : x.IsUnmarked)
    (unmarked' : y.IsUnmarked) {rest rest' : List Char} (ends : EndsOperand rest)
    (ends' : EndsOperand rest') (same : x.chars ++ rest = y.chars ++ rest') :
    x = y ∧ rest = rest' := by
  rcases Operand.sign_append_inj unmarked unmarked' ends ends' same with ⟨sameSign, sameBody⟩
  match x, y with
  | .symbol negated name, .symbol negated' name' =>
      rcases IsUnmarked.append_inj (unmarked name List.mem_cons_self)
        (unmarked' name' List.mem_cons_self) ends ends' sameBody with ⟨rfl, sameRest⟩
      simp only [Operand.negated] at sameSign
      rw [sameSign]
      exact ⟨rfl, sameRest⟩
  | .group negated content, .group negated' content' =>
      simp only [Operand.body, List.cons_append, List.append_assoc, List.cons.injEq,
        List.nil_append, true_and] at sameBody
      have closes (rest : List Char) : EndsRow (')' :: rest) := by
        rintro _ ⟨⟩
        rfl
      rcases Formula.chars_append_inj (f := content) (g := content') unmarked unmarked'
        (closes rest) (closes rest') sameBody with ⟨rfl, sameRest⟩
      simp only [Operand.negated] at sameSign
      rw [sameSign]
      exact ⟨rfl, (List.cons.inj sameRest).2⟩
  | .symbol negated name, .group _ _ =>
      have noGroup := Operand.head_body_symbol negated (unmarked name List.mem_cons_self) ends
      rw [sameBody] at noGroup
      exact absurd rfl (noGroup _ rfl).2
  | .group _ _, .symbol negated name =>
      have noGroup := Operand.head_body_symbol negated (unmarked' name List.mem_cons_self) ends'
      rw [← sameBody] at noGroup
      exact absurd rfl (noGroup _ rfl).2

/-- A formula is known from a text that begins with it and goes on with a closing parenthesis, if at
all. -/
theorem Formula.chars_append_inj {f g : Formula} (unmarked : f.IsUnmarked)
    (unmarked' : g.IsUnmarked) {rest rest' : List Char} (ends : EndsRow rest)
    (ends' : EndsRow rest') (same : f.chars ++ rest = g.chars ++ rest') :
    f = g ∧ rest = rest' := by
  match f, g with
  | .single x, .single y =>
      rcases Operand.chars_append_inj (x := x) (y := y) unmarked unmarked' ends.endsOperand
        ends'.endsOperand same with ⟨rfl, sameRest⟩
      exact ⟨rfl, sameRest⟩
  | .single x, .chain y c tail =>
      rw [Formula.chars, Formula.chars, List.append_assoc, List.append_assoc] at same
      rcases Operand.chars_append_inj (x := x) (y := y) unmarked
        (List.forall_mem_append.1 unmarked').1 ends.endsOperand (endsOperand_spelling c _) same with
        ⟨_, sameRest⟩
      exact absurd (sameRest ▸ ends) not_endsRow_spelling
  | .chain x c tail, .single y =>
      rw [Formula.chars, Formula.chars, List.append_assoc, List.append_assoc] at same
      rcases Operand.chars_append_inj (x := x) (y := y) (List.forall_mem_append.1 unmarked).1
        unmarked' (endsOperand_spelling c _) ends'.endsOperand same with ⟨_, sameRest⟩
      exact absurd (sameRest ▸ ends') not_endsRow_spelling
  | .chain x c tail, .chain y d tail' =>
      simp only [Formula.chars, List.append_assoc] at same
      rcases Operand.chars_append_inj (List.forall_mem_append.1 unmarked).1
        (List.forall_mem_append.1 unmarked').1 (endsOperand_spelling c _)
        (endsOperand_spelling d _) same with ⟨rfl, sameRest⟩
      rcases Connective.spelling_append_inj sameRest with ⟨rfl, sameTail⟩
      rcases Formula.chars_append_inj (List.forall_mem_append.1 unmarked).2
        (List.forall_mem_append.1 unmarked').2 ends ends' sameTail with ⟨rfl, sameEnd⟩
      exact ⟨rfl, sameEnd⟩

end

/-- Formulas that are written the same are the same. -/
theorem Formula.text_inj {f g : Formula} (unmarked : f.IsUnmarked) (unmarked' : g.IsUnmarked)
    (same : f.text = g.text) : f = g := by
  have sameChars : f.chars ++ [] = g.chars ++ [] := by
    simpa [text] using congrArg String.toList same
  exact (chars_append_inj unmarked unmarked' (by simp [EndsRow]) (by simp [EndsRow]) sameChars).1

end Entail
