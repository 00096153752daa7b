import Entail.Proofs.Formula.Precedence
import Entail.Proofs.Formula.Scanning
import Entail.Proofs.Text.Balance

/-!
# Reading nested expressions

Replacing the innermost nests of a text by back-references comes to the same as
building the expression that was written from the inside to the outside.  What
has been replaced is a text of leaves, so that the first closing parenthesis
and the last opening one before it always enclose such a text.
-/

namespace Entail

/-! ### Parentheses -/

theorem isBalanced_of_isFlat {cs : List Char} (flat : ∀ c ∈ cs, IsFlat c) : Text.IsBalanced cs := by
  obtain ⟨noOpen, noClose⟩ := notMem_of_isFlat flat
  exact Text.isBalanced_of_notMem noOpen noClose

mutual

theorem Factor.isBalanced_chars (factor : Factor) : Text.IsBalanced factor.chars := by
  cases factor with
  | name signs name => exact isBalanced_of_isFlat fun c => (Leaf.name signs name).isFlat
  | nested signs inner =>
      have front : Text.IsBalanced (signChars signs) :=
        isBalanced_of_isFlat fun c => isFlat_of_mem_signChars
      have whole := front.append inner.isBalanced_chars.pair
      rwa [← List.append_assoc] at whole

theorem Expression.isBalanced_chars (e : Expression) : Text.IsBalanced e.chars := by
  cases e with
  | single factor => exact factor.isBalanced_chars
  | chain first c rest =>
      have link : Text.IsBalanced c.spelling.toList :=
        isBalanced_of_isFlat fun d => isFlat_of_mem_spelling
      exact (first.isBalanced_chars.append link).append rest.isBalanced_chars

end

/-- Every parenthesis of an expression has a partner. -/
theorem Expression.firstUnmatched_chars (e : Expression) :
    Text.firstUnmatched e.chars = none :=
  Text.firstUnmatched_eq_none_iff.2 e.isBalanced_chars

namespace Formula.Nest

theorem forall_mem_bne {cs : List Char} {d : Char} (absent : d ∉ cs) :
    ∀ c ∈ cs, (c != d) = true := by
  intro c isChar
  rw [bne_iff_ne]
  rintro rfl
  exact absent isChar

theorem find?_eq_none {text : List Char} (noClose : ')' ∉ text) : find? text = none := by
  have dropped : (text ++ []).dropWhile (· != ')') = [] :=
    (takeWhile_append_of_delimited (forall_mem_bne noClose) (by simp)).2
  rw [List.append_nil] at dropped
  rw [find?, dropped]

/-- The first closing parenthesis and the last opening one before it are found. -/
theorem find?_eq_some {before inner after : List Char} (noClose : ')' ∉ before)
    (noOpenIn : '(' ∉ inner) (noCloseIn : ')' ∉ inner) :
    find? (before ++ '(' :: inner ++ ')' :: after) = some ⟨before, inner, after⟩ := by
  have noCloseFront : ')' ∉ before ++ '(' :: inner := by simp [noClose, noCloseIn]
  have noOpenBack : '(' ∉ inner.reverse := fun isOpen => noOpenIn (List.mem_reverse.1 isOpen)
  have delimited (d : Char) (rest : List Char) : ∀ c ∈ (d :: rest).head?, (c != d) = false := by
    rintro _ ⟨⟩
    simp
  rcases takeWhile_append_of_delimited (forall_mem_bne noCloseFront) (delimited ')' after) with
    ⟨front, behind⟩
  rcases takeWhile_append_of_delimited (forall_mem_bne noOpenBack)
    (delimited '(' before.reverse) with ⟨inside, outside⟩
  have reversed : (before ++ '(' :: inner).reverse = inner.reverse ++ '(' :: before.reverse := by
    simp
  simp only [find?, front, behind, reversed, inside, outside, List.reverse_reverse]

/-- A text that holds a character may be cut at the last one. -/
theorem exists_append_last {cs : List Char} {d : Char} (listed : d ∈ cs) :
    ∃ before after, cs = before ++ d :: after ∧ d ∉ after := by
  obtain ⟨after, before, reversed, absent⟩ :=
    List.eq_append_cons_of_mem (List.mem_reverse.2 listed)
  refine ⟨before.reverse, after.reverse, ?_, fun again => absent (List.mem_reverse.1 again)⟩
  simpa using congrArg List.reverse reversed

/-- In a balanced text with a closing parenthesis, an opening one stands before the first of
those. -/
theorem exists_of_isBalanced {text : List Char} (balanced : Text.IsBalanced text)
    (closes : ')' ∈ text) : ∃ nest, find? text = some nest ∧ nest.whole = text ∧
      ')' ∉ nest.before ∧ ')' ∉ nest.inner ∧ '(' ∉ nest.inner := by
  obtain ⟨front, after, rfl, noClose⟩ := List.eq_append_cons_of_mem closes
  have opens : '(' ∈ front := by
    by_contra noOpen
    exact (Text.isBalanced_of_notMem noOpen noClose).not_staysOpen
      (Text.isBalanced_iff.1 balanced).2
  obtain ⟨before, inner, rfl, noOpenIn⟩ := exists_append_last opens
  have noCloseBefore : ')' ∉ before := fun isClose => noClose (List.mem_append_left _ isClose)
  have noCloseIn : ')' ∉ inner := fun isClose =>
    noClose (List.mem_append_right _ (List.mem_cons_of_mem _ isClose))
  exact ⟨_, find?_eq_some noCloseBefore noOpenIn noCloseIn, rfl, noCloseBefore, noCloseIn, noOpenIn⟩

/-- A nest is balanced, and so is the back-reference that takes its place. -/
theorem isBalanced_replace {text : List Char} {nest : Nest} (balanced : Text.IsBalanced text)
    (found : find? text = some nest) (number : Nat) : Text.IsBalanced (nest.replace number) := by
  have isWhole := whole_of_find? found
  have closes : ')' ∈ text := by simp [isWhole, whole]
  obtain ⟨nest', found', -, -, noClose, noOpen⟩ := exists_of_isBalanced balanced closes
  obtain rfl := Option.some.inj (found.symm.trans found')
  have pair := (Text.isBalanced_of_notMem noOpen noClose).pair
  have reference : Text.IsBalanced (Token.referenceMark ++ Text.digitsOf number) :=
    isBalanced_of_isFlat fun c => (Leaf.reference 0 number).isFlat
  have parts : text = nest.before ++ ('(' :: nest.inner ++ [')']) ++ nest.after := by
    simp [isWhole, whole]
  have replaced := (parts ▸ balanced).replace pair reference
  rwa [← List.append_assoc] at replaced

end Formula.Nest

/-! ### Building an expression -/

section Build

variable {m : Type → Type} [Monad m] {ρ : Type}

mutual

/-- Builds the nested parts of a factor from the inside to the outside.  The answer holds what was
read, and the leaf that stands for the factor. -/
def Factor.build (readRow : List ρ → List Char → m ρ) (references : List ρ) :
    Factor → m (List ρ × Leaf)
  | .name signs word => pure (references, .name signs word)
  | .nested signs inner => do
    let (references, row) ← inner.build readRow references
    let content ← readRow references row.chars
    return (references ++ [content], .reference signs references.length)

/-- Builds the nested parts of an expression from the left to the right.  The answer holds what was
read, and the row of leaves that stands for the expression. -/
def Expression.build (readRow : List ρ → List Char → m ρ) (references : List ρ) :
    Expression → m (List ρ × Row Leaf)
  | .single factor => do
    let (references, leaf) ← factor.build readRow references
    return (references, ⟨leaf, []⟩)
  | .chain first c rest => do
    let (references, leaf) ← first.build readRow references
    let (references, row) ← rest.build readRow references
    return (references, row.cons leaf c)

end

/-! ### Reading builds -/

variable [MonadExceptOf Error m]

theorem readNests_of_find?_eq_none (readRow : List ρ → List Char → m ρ) (source : List Char)
    (references : List ρ) {text : List Char} (missing : Formula.Nest.find? text = none) :
    Formula.readNests readRow source references text = readRow references text := by
  rw [Formula.readNests]
  split
  · rfl
  · next found =>
      rw [missing] at found
      contradiction

theorem readNests_of_find?_eq_some (readRow : List ρ → List Char → m ρ) (source : List Char)
    (references : List ρ) {text : List Char} {nest : Formula.Nest}
    (found : Formula.Nest.find? text = some nest)
    (filled : nest.inner.all Text.isBlank = false) :
    Formula.readNests readRow source references text = (do
      let content ← readRow references nest.inner
      Formula.readNests readRow source (references ++ [content])
        (nest.replace references.length)) := by
  rw [Formula.readNests]
  split
  · next missing =>
      rw [missing] at found
      contradiction
  · next foundAgain =>
      rw [found] at foundAgain
      cases foundAgain
      rw [filled, if_neg Bool.false_ne_true]

theorem readNests_of_isBlank (readRow : List ρ → List Char → m ρ) (source : List Char)
    (references : List ρ) {text : List Char} {nest : Formula.Nest}
    (found : Formula.Nest.find? text = some nest)
    (blank : nest.inner.all Text.isBlank = true) :
    Formula.readNests readRow source references text =
      throw (.emptyParentheses (String.ofList source)) := by
  rw [Formula.readNests]
  split
  · next missing =>
      rw [missing] at found
      contradiction
  · next foundAgain =>
      rw [found] at foundAgain
      cases foundAgain
      rw [blank, if_pos rfl]

theorem Leaf.chars_ne_nil (leaf : Leaf) : leaf.chars ≠ [] := by
  cases leaf with
  | name signs name => simp [chars, name.nonempty]
  | reference => simp [chars, Token.referenceMark]

theorem Row.all_isBlank_chars (row : Row Leaf) : row.chars.all Text.isBlank = false := by
  have nonempty : row.chars ≠ [] := by simp [chars, row.first.chars_ne_nil]
  rcases List.exists_mem_of_ne_nil _ nonempty with ⟨c, isChar⟩
  rw [List.all_eq_false]
  exact ⟨c, isChar, by simp [(row.isFlat isChar).1]⟩

variable [LawfulMonad m]

mutual

/-- Reading the nests of a text gets to a text in which a leaf stands for the factor at the
beginning. -/
theorem Factor.readNests_chars (readRow : List ρ → List Char → m ρ) (source : List Char)
    (references : List ρ) (factor : Factor) {before : List Char} (noClose : ')' ∉ before)
    (after : List Char) :
    Formula.readNests readRow source references (before ++ factor.chars ++ after) = (do
      let (references, leaf) ← factor.build readRow references
      Formula.readNests readRow source references (before ++ leaf.chars ++ after)) := by
  cases factor with
  | name signs name =>
      rw [Factor.build, pure_bind]
      rfl
  | nested signs inner =>
      have noClose' : ')' ∉ before ++ signChars signs := by
        rw [List.mem_append]
        rintro (isBefore | isSign)
        · exact noClose isBefore
        · exact (notMem_of_isFlat fun c => isFlat_of_mem_signChars).2 isSign
      have noClose'' : ')' ∉ before ++ signChars signs ++ ['('] := by simpa using noClose'
      have whole : before ++ (Factor.nested signs inner).chars ++ after =
          before ++ signChars signs ++ ['('] ++ inner.chars ++ ')' :: after := by
        simp [Factor.chars]
      rw [whole, Expression.readNests_chars readRow source references inner noClose'' _,
        Factor.build, bind_assoc]
      apply bind_congr
      rintro ⟨references, row⟩
      have nest : Formula.Nest.find?
          (before ++ signChars signs ++ ['('] ++ row.chars ++ ')' :: after) =
            some ⟨before ++ signChars signs, row.chars, after⟩ := by
        rcases notMem_of_isFlat fun c => row.isFlat with ⟨noOpenIn, noCloseIn⟩
        rw [← Formula.Nest.find?_eq_some noClose' noOpenIn noCloseIn]
        simp
      dsimp only
      rw [readNests_of_find?_eq_some readRow source references nest row.all_isBlank_chars]
      simp only [bind_assoc, pure_bind]
      apply bind_congr
      intro content
      simp [Formula.Nest.replace, Leaf.chars]

/-- Reading the nests of a text gets to a text in which a row of leaves stands for the expression
at the beginning. -/
theorem Expression.readNests_chars (readRow : List ρ → List Char → m ρ) (source : List Char)
    (references : List ρ) (e : Expression) {before : List Char} (noClose : ')' ∉ before)
    (after : List Char) :
    Formula.readNests readRow source references (before ++ e.chars ++ after) = (do
      let (references, row) ← e.build readRow references
      Formula.readNests readRow source references (before ++ row.chars ++ after)) := by
  cases e with
  | single factor =>
      rw [Expression.chars, factor.readNests_chars readRow source references noClose after,
        Expression.build, bind_assoc]
      apply bind_congr
      rintro ⟨references, leaf⟩
      simp [Row.chars]
  | chain first c rest =>
      have whole : before ++ (Expression.chain first c rest).chars ++ after =
          before ++ first.chars ++ (c.spelling.toList ++ rest.chars ++ after) := by
        simp [Expression.chars]
      rw [whole, first.readNests_chars readRow source references noClose _, Expression.build,
        bind_assoc]
      apply bind_congr
      rintro ⟨references, leaf⟩
      have noClose' : ')' ∉ before ++ leaf.chars ++ c.spelling.toList := by
        rw [List.mem_append, List.mem_append]
        rintro ((isBefore | isChar) | isMark)
        · exact noClose isBefore
        · exact (notMem_of_isFlat fun c => leaf.isFlat).2 isChar
        · exact (notMem_of_isFlat fun c => isFlat_of_mem_spelling).2 isMark
      have whole' : before ++ leaf.chars ++ (c.spelling.toList ++ rest.chars ++ after) =
          before ++ leaf.chars ++ c.spelling.toList ++ rest.chars ++ after := by
        simp
      dsimp only
      rw [whole', rest.readNests_chars readRow source references noClose' after, bind_assoc]
      apply bind_congr
      rintro ⟨references, row⟩
      simp

end

/-- Reading the text of an expression comes to building it and reading the row that is left. -/
theorem Expression.readText_chars (readRow : List ρ → List Char → m ρ) (e : Expression) :
    Formula.readText readRow e.chars = (do
      let (references, row) ← e.build readRow []
      readRow references row.chars) := by
  have whole := e.readNests_chars readRow e.chars [] List.not_mem_nil []
  rw [List.nil_append, List.append_nil] at whole
  rw [Formula.readText, e.firstUnmatched_chars]
  simp only [whole]
  apply bind_congr
  rintro ⟨references, row⟩
  rw [List.nil_append, List.append_nil]
  have noClose := (notMem_of_isFlat fun c => row.isFlat).2
  exact readNests_of_find?_eq_none readRow _ _ (Formula.Nest.find?_eq_none noClose)

end Build

end Entail
