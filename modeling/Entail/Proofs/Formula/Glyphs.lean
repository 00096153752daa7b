import Mathlib.Data.List.Chain
import Entail.Proofs.Formula.Parsed
import Entail.Proofs.Formula.Scanning

/-!
# Texts with back-references

While a text is read, the nests that have been read are back-references in it.
If no digit stands behind a closing parenthesis, and the mark of back-references
is not written in the text, then a scanned back-reference is always one that was
put in place of a nest, and all other tokens are as they were written.
-/

namespace Entail

/-- A character of a text, or the back-reference in place of a nest, with the expression that was
in its parentheses. -/
inductive Glyph
  | char (c : Char)
  | nest (number : Nat) (inner : Expression)

namespace Glyph

/-- The characters that stand for a glyph while the text is read. -/
def chars : Glyph → List Char
  | char c => [c]
  | nest number _ => Token.referenceMark ++ Text.digitsOf number

/-- The characters of a glyph in the text as it was written. -/
def source : Glyph → List Char
  | char c => [c]
  | nest _ inner => '(' :: inner.chars ++ [')']

/-- A character that is no blank and not the one that marks back-references. -/
def IsPlain : Glyph → Prop
  | char c => Text.isBlank c = false ∧ c ≠ '@'
  | nest _ _ => True

/-- A glyph whose source ends a nest. -/
def Closes : Glyph → Prop
  | char c => c = ')'
  | nest _ _ => True

/-- A glyph that would prolong the number of a back-reference in front of it. -/
def IsDigit : Glyph → Prop
  | char c => Text.isDigit c = true
  | nest _ _ => False

end Glyph

/-- The text of glyphs while it is read. -/
def charsOf (glyphs : List Glyph) : List Char :=
  glyphs.flatMap Glyph.chars

/-- The text of glyphs as it was written. -/
def sourceOf (glyphs : List Glyph) : List Char :=
  glyphs.flatMap Glyph.source

@[simp]
theorem charsOf_append (front back : List Glyph) :
    charsOf (front ++ back) = charsOf front ++ charsOf back :=
  List.flatMap_append

@[simp]
theorem charsOf_cons (g : Glyph) (glyphs : List Glyph) :
    charsOf (g :: glyphs) = g.chars ++ charsOf glyphs :=
  List.flatMap_cons

@[simp]
theorem charsOf_map_char (cs : List Char) : charsOf (cs.map .char) = cs := by
  simp [charsOf, List.flatMap_map, Glyph.chars]

@[simp]
theorem sourceOf_append (front back : List Glyph) :
    sourceOf (front ++ back) = sourceOf front ++ sourceOf back :=
  List.flatMap_append

@[simp]
theorem sourceOf_cons (g : Glyph) (glyphs : List Glyph) :
    sourceOf (g :: glyphs) = g.source ++ sourceOf glyphs :=
  List.flatMap_cons

@[simp]
theorem sourceOf_map_char (cs : List Char) : sourceOf (cs.map .char) = cs := by
  simp [sourceOf, List.flatMap_map, Glyph.source]

theorem charsOf_eq_nil {glyphs : List Glyph} (empty : charsOf glyphs = []) : glyphs = [] := by
  cases glyphs with
  | nil => rfl
  | cons g glyphs => cases g <;> simp [Glyph.chars, Token.referenceMark] at empty

/-- Characters other than those of back-references are glyphs by themselves. -/
theorem exists_of_charsOf_eq_append {cs rest : List Char} {glyphs : List Glyph}
    (noMark : ∀ c ∈ cs, c ≠ '@') (same : charsOf glyphs = cs ++ rest) :
    ∃ back, glyphs = cs.map .char ++ back ∧ charsOf back = rest := by
  induction cs generalizing glyphs with
  | nil => exact ⟨glyphs, rfl, same⟩
  | cons c cs ih =>
      rcases List.forall_mem_cons.1 noMark with ⟨notMark, restNoMark⟩
      cases glyphs with
      | nil => contradiction
      | cons g glyphs =>
          rw [charsOf_cons] at same
          cases g with
          | char d =>
              rcases List.cons.inj same with ⟨rfl, behind⟩
              rcases ih restNoMark behind with ⟨back, rfl, isRest⟩
              exact ⟨back, rfl, isRest⟩
          | nest number inner => exact absurd (List.cons.inj same).1.symm notMark

/-- A character that no back-reference is written with is a glyph by itself. -/
theorem exists_of_charsOf_eq_append_cons {c : Char} {left right : List Char} {glyphs : List Glyph}
    (foreign : ∀ number, c ∉ Token.referenceMark ++ Text.digitsOf number)
    (same : charsOf glyphs = left ++ c :: right) :
    ∃ front back, glyphs = front ++ .char c :: back ∧ charsOf front = left ∧
      charsOf back = right := by
  induction glyphs generalizing left with
  | nil => simp [charsOf] at same
  | cons g glyphs ih =>
      rw [charsOf_cons] at same
      rcases List.append_eq_append_iff.1 same with
        ⟨between, longer, tail⟩ | ⟨between, longer, tail⟩
      · rcases ih tail with ⟨front, back, rfl, isLeft, isRight⟩
        exact ⟨g :: front, back, rfl, by rw [charsOf_cons, isLeft, longer], isRight⟩
      · cases between with
        | nil =>
            rcases @ih [] tail.symm with ⟨front, back, rfl, isLeft, isRight⟩
            refine ⟨g :: front, back, rfl, ?_, isRight⟩
            rw [charsOf_cons, isLeft, longer, List.append_nil, List.append_nil]
        | cons d between =>
            rcases List.cons.inj tail with ⟨rfl, behind⟩
            cases g with
            | char d =>
                rcases left with _ | ⟨_, left⟩
                · rcases List.cons.inj longer with ⟨rfl, rfl⟩
                  exact ⟨[], glyphs, rfl, rfl, behind.symm⟩
                · simp [Glyph.chars] at longer
            | nest number inner =>
                have listed : c ∈ Token.referenceMark ++ Text.digitsOf number := by
                  rw [show Token.referenceMark ++ Text.digitsOf number = left ++ c :: between from
                    longer]
                  exact List.mem_append_right _ List.mem_cons_self
                exact absurd listed (foreign number)

/-- The characters are neither blank nor marks of back-references, and no digit stands behind the
end of a nest. -/
structure Separated (glyphs : List Glyph) : Prop where
  plain : ∀ g ∈ glyphs, g.IsPlain
  apart : glyphs.IsChain fun g next => g.Closes → ¬next.IsDigit

namespace Separated

variable {front back glyphs : List Glyph}

theorem left (separated : Separated (front ++ back)) : Separated front :=
  ⟨(List.forall_mem_append.1 separated.plain).1, separated.apart.left_of_append⟩

theorem right (separated : Separated (front ++ back)) : Separated back :=
  ⟨(List.forall_mem_append.1 separated.plain).2, separated.apart.right_of_append⟩

theorem tail {g : Glyph} (separated : Separated (g :: glyphs)) : Separated glyphs :=
  @right [g] glyphs separated

/-- A nest may be replaced by its back-reference. -/
theorem replace {inner : List Glyph} (number : Nat) (e : Expression)
    (separated : Separated (front ++ .char '(' :: inner ++ .char ')' :: back)) :
    Separated (front ++ .nest number e :: back) := by
  have first : Separated front := separated.left.left
  have last : Separated (.char ')' :: back) := separated.right
  constructor
  · exact List.forall_mem_append.2 ⟨first.plain,
      List.forall_mem_cons.2 ⟨trivial, (List.forall_mem_cons.1 last.plain).2⟩⟩
  · refine List.isChain_split.2 ⟨List.isChain_append.2 ⟨first.apart, List.isChain_singleton _, ?_⟩, ?_⟩
    · rintro g - next isHead -
      cases isHead
      exact id
    · have behind := last.apart
      cases back with
      | nil => exact List.isChain_singleton _
      | cons next back =>
          rw [List.isChain_cons_cons] at behind ⊢
          exact ⟨fun _ => behind.1 rfl, behind.2⟩

/-- What stands behind a back-reference does not prolong its number. -/
theorem not_isDigit {number : Nat} {inner : Expression}
    (separated : Separated (.nest number inner :: glyphs)) :
    ∀ c ∈ (charsOf glyphs).head?, Text.isDigit c = false := by
  cases glyphs with
  | nil => exact fun c isFirst => nomatch isFirst
  | cons g glyphs =>
      have apart := (List.isChain_cons_cons.1 separated.apart).1 trivial
      cases g with
      | char c =>
          rintro _ ⟨⟩
          exact Bool.eq_false_iff.2 apart
      | nest number inner =>
          rintro _ ⟨⟩
          decide

theorem begins (separated : Separated glyphs) : Begins (charsOf glyphs) := by
  cases glyphs with
  | nil => exact fun c isFirst => nomatch isFirst
  | cons g glyphs =>
      cases g with
      | char c =>
          rintro _ ⟨⟩
          exact Token.isSeparator_eq_false (List.forall_mem_cons.1 separated.plain).1.1
      | nest number inner =>
          rintro _ ⟨⟩
          decide

end Separated

end Entail
