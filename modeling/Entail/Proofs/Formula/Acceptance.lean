import Entail.Proofs.Formula.Glyphs
import Entail.Proofs.Formula.Parser

/-!
# Only expressions are parsed

A text that is scanned, read and nested without an error spells an expression,
provided that its back-references are those of its nests.  All other texts are
rejected with an error that says what is wrong with the text.
-/

namespace Entail

/-! ### Tokens of glyphs -/

/-- The tokens stand for the glyphs, one after the other. -/
inductive Spells : List Token → List Glyph → Prop
  | nil : Spells [] []
  | plain {token : Token} {tokens : List Token} {glyphs : List Glyph} :
      (∀ digits, token ≠ .reference digits) → Spells tokens glyphs →
      Spells (token :: tokens) (token.chars.map .char ++ glyphs)
  | reference (number : Nat) (inner : Expression) {tokens : List Token} {glyphs : List Glyph} :
      Spells tokens glyphs →
      Spells (.reference (Text.digitsOf number) :: tokens) (.nest number inner :: glyphs)

theorem Token.ne_mark_of_mem_chars {token : Token} (writable : token.IsWritable)
    (notReference : ∀ digits, token ≠ .reference digits) : ∀ c ∈ token.chars, c ≠ '@' := by
  cases token with
  | reference digits => exact absurd rfl (notReference digits)
  | connective d =>
      rintro _ isChar rfl
      cases d <;> exact absurd isChar (by decide)
  | negation => exact List.forall_mem_singleton.2 (by decide)
  | name cs =>
      rintro _ isChar rfl
      exact absurd (writable.2 _ isChar) (by decide)

/-- The token at the beginning of glyphs is a back-reference that was put there, or stands for
characters that were written. -/
theorem Token.exists_of_read?_charsOf {glyphs : List Glyph} (separated : Separated glyphs)
    {token : Token} {rest : List Char} (read : read? (charsOf glyphs) = some (token, rest)) :
    ∃ back, charsOf back = rest ∧
      ((∃ number inner, token = .reference (Text.digitsOf number) ∧
          glyphs = .nest number inner :: back) ∨
        (∀ digits, token ≠ .reference digits) ∧ glyphs = token.chars.map .char ++ back) := by
  cases glyphs with
  | nil => contradiction
  | cons g glyphs =>
      cases g with
      | nest number inner =>
          have found := read?_reference number separated.not_isDigit
          rw [charsOf_cons, Glyph.chars, found] at read
          cases read
          exact ⟨glyphs, rfl, .inl ⟨number, inner, rfl, rfl⟩⟩
      | char c =>
          have whole := (chars_append_of_read? read).1
          have notReference : ∀ digits, token ≠ .reference digits := by
            rintro digits rfl
            exact (List.forall_mem_cons.1 separated.plain).1.2 (List.cons.inj whole).1
          rcases exists_of_charsOf_eq_append
            (ne_mark_of_mem_chars (isWritable_of_read? read) notReference) whole with
            ⟨back, same, isRest⟩
          exact ⟨back, isRest, .inr ⟨notReference, same⟩⟩

/-- The lexemes of glyphs stand for the glyphs at the beginning, and for all of them if the scan
comes to the end. -/
theorem Scan.exists_spells {glyphs : List Glyph} (separated : Separated glyphs) (position : Nat) :
    ∃ front back, glyphs = front ++ back ∧
      Spells ((startingAt position (charsOf glyphs)).lexemes.map Lexeme.token) front ∧
      ((startingAt position (charsOf glyphs)).stuck = none → back = []) := by
  have noSeparator := separated.begins.noSeparator
  generalize same : charsOf glyphs = cs at noSeparator ⊢
  fun_induction startingAt position cs generalizing glyphs
  case case1 position cs body start missing =>
      refine ⟨[], glyphs, rfl, .nil, fun complete => charsOf_eq_nil ?_⟩
      rw [same, ← noSeparator.1]
      by_contra notEmpty
      simp [body, List.isEmpty_iff, notEmpty] at complete
  case case2 position cs body start token rest read _ tail ih =>
      rw [← same] at noSeparator
      simp only [body, ← same, noSeparator.1] at read
      rcases Token.exists_of_read?_charsOf separated read with ⟨back, isRest, found⟩
      have restSeparated : Separated back := by
        rcases found with ⟨number, inner, _, rfl⟩ | ⟨_, rfl⟩
        · exact separated.tail
        · exact separated.right
      rcases ih restSeparated isRest (isRest ▸ restSeparated.begins.noSeparator) with
        ⟨front, behind, rfl, spells, complete⟩
      rcases found with ⟨number, inner, rfl, rfl⟩ | ⟨notReference, rfl⟩
      · exact ⟨.nest number inner :: front, behind, rfl, .reference number inner spells, complete⟩
      · have spelled : Spells (token :: tail.lexemes.map Lexeme.token)
            (token.chars.map .char ++ front) := .plain notReference spells
        exact ⟨_, behind, (List.append_assoc ..).symm, spelled, complete⟩

/-! ### Rows that are read -/

/-- A factor behind one more negation sign. -/
def Factor.addSign : Factor → Factor
  | name signs word => name (signs + 1) word
  | nested signs inner => nested (signs + 1) inner

theorem Factor.chars_addSign (factor : Factor) : factor.addSign.chars = '~' :: factor.chars := by
  cases factor <;> rfl

/-- A negation sign may be put in front of an expression. -/
theorem Expression.exists_sign (e : Expression) : ∃ signed : Expression,
    signed.chars = '~' :: e.chars := by
  cases e with
  | single factor => exact ⟨.single factor.addSign, factor.chars_addSign⟩
  | chain first c rest =>
      exact ⟨.chain first.addSign c rest, by simp [chars, first.chars_addSign]⟩

/-- The characters behind a factor: none, or a connective and an expression. -/
def GoesOn (cs : List Char) : Prop :=
  cs = [] ∨ ∃ (c : Connective) (e : Expression), cs = c.spelling.toList ++ e.chars

theorem GoesOn.exists_expression {cs : List Char} (goesOn : GoesOn cs) (factor : Factor) :
    ∃ e : Expression, e.chars = factor.chars ++ cs := by
  rcases goesOn with rfl | ⟨c, e, rfl⟩
  · exact ⟨.single factor, (List.append_nil _).symm⟩
  · exact ⟨.chain factor c e, List.append_assoc ..⟩

namespace RowContext

variable {ρ : Type} {row : RowContext ρ}

mutual

/-- The glyphs of a row that is read spell an expression, and the scan has come to their end. -/
theorem exists_of_readOperand {isFirst negated : Bool} {lexemes : List Lexeme}
    {slots : Row (Slot ρ)} {glyphs : List Glyph}
    (writable : ∀ lexeme ∈ lexemes, lexeme.token.IsWritable)
    (spells : Spells (lexemes.map Lexeme.token) glyphs)
    (read : row.readOperand isFirst negated lexemes = .ok slots) :
    row.stuck = none ∧ ∃ e : Expression, e.chars = sourceOf glyphs := by
  match lexemes with
  | [] =>
      rw [readOperand] at read
      split at read <;> contradiction
  | ⟨.negation, _⟩ :: rest =>
      cases spells with
      | plain _ spells =>
          rcases exists_of_readOperand (List.forall_mem_cons.1 writable).2 spells read with
            ⟨complete, e, chars⟩
          rcases e.exists_sign with ⟨signed, signedChars⟩
          exact ⟨complete, signed, by rw [signedChars, chars]; simp [Token.chars, Glyph.source]⟩
  | ⟨.name cs, _⟩ :: rest =>
      rcases List.forall_mem_cons.1 writable with ⟨⟨nonempty, plain⟩, writable⟩
      cases spells with
      | plain _ spells =>
          rcases goesOn_of_readLink writable spells read with ⟨complete, goesOn⟩
          rcases goesOn.exists_expression (.name 0 ⟨cs, nonempty, plain⟩) with ⟨e, chars⟩
          exact ⟨complete, e, by rw [chars]; simp [Factor.chars, signChars, Token.chars]⟩
  | ⟨.reference digits, _⟩ :: rest =>
      rw [readOperand] at read
      cases spells with
      | plain notReference _ => exact absurd rfl (notReference digits)
      | reference number inner spells =>
          split at read
          · rcases goesOn_of_readLink (List.forall_mem_cons.1 writable).2 spells read with
              ⟨complete, goesOn⟩
            rcases goesOn.exists_expression (.nested 0 inner) with ⟨e, chars⟩
            exact ⟨complete, e, by rw [chars]; simp [Factor.chars, signChars, Glyph.source]⟩
          · contradiction
  | ⟨.connective _, _⟩ :: _ => contradiction

theorem goesOn_of_readLink {x : Slot ρ} {lexemes : List Lexeme} {slots : Row (Slot ρ)}
    {glyphs : List Glyph} (writable : ∀ lexeme ∈ lexemes, lexeme.token.IsWritable)
    (spells : Spells (lexemes.map Lexeme.token) glyphs)
    (read : row.readLink x lexemes = .ok slots) :
    row.stuck = none ∧ GoesOn (sourceOf glyphs) := by
  match lexemes with
  | [] =>
      cases spells
      rw [readLink] at read
      split at read
      · contradiction
      · next complete => exact ⟨complete, .inl rfl⟩
  | ⟨.connective c, _⟩ :: rest =>
      rcases map_eq_ok_iff.1 read with ⟨restSlots, readRest, rfl⟩
      cases spells with
      | plain _ spells =>
          rcases exists_of_readOperand (List.forall_mem_cons.1 writable).2 spells readRest with
            ⟨complete, e, chars⟩
          exact ⟨complete, .inr ⟨c, e, by rw [chars]; simp [Token.chars]⟩⟩
  | ⟨.negation, _⟩ :: _ => contradiction
  | ⟨.name _, _⟩ :: _ => contradiction
  | ⟨.reference _, _⟩ :: _ => contradiction

end

end RowContext

theorem expandTabs_charsOf {glyphs : List Glyph} (separated : Separated glyphs) :
    Text.expandTabs (charsOf glyphs) = charsOf glyphs := by
  refine Text.expandTabsFrom_eq_self (fun isTab => ?_) 0
  rcases List.mem_flatMap.1 isTab with ⟨g, isGlyph, isTab⟩
  have plain := separated.plain g isGlyph
  cases g with
  | char c =>
      rcases List.mem_singleton.1 isTab with rfl
      exact absurd plain.1 (by decide)
  | nest number inner =>
      exact absurd ((Leaf.reference 0 number).isFlat isTab).1 (by decide)

/-- Glyphs that are read as a row spell an expression. -/
theorem Row.exists_expression_of_ofText {ρ : Type} {references : List ρ} {glyphs : List Glyph}
    (separated : Separated glyphs) {slots : Row (Slot ρ)}
    (read : Row.ofText references (charsOf glyphs) = .ok slots) :
    ∃ e : Expression, e.chars = sourceOf glyphs := by
  rcases Scan.exists_spells separated 0 with ⟨front, back, rfl, spells, complete⟩
  rw [ofText, expandTabs_charsOf separated] at read
  rcases RowContext.exists_of_readOperand (fun _ scanned => (Scan.isIn_of_mem scanned).1) spells
    read with ⟨stuck, e, chars⟩
  rw [complete (Option.map_eq_none_iff.1 stuck), List.append_nil]
  exact ⟨e, chars⟩

/-! ### Nests that are read -/

/-- The first nest of glyphs consists of glyphs, and may be replaced by the back-reference of the
expression that it spells. -/
theorem Separated.exists_nest {glyphs : List Glyph} (separated : Separated glyphs)
    {nest : Formula.Nest} (found : Formula.Nest.find? (charsOf glyphs) = some nest) :
    ∃ inner, Separated inner ∧ charsOf inner = nest.inner ∧ inner ⊆ glyphs ∧
      ∀ (number : Nat) (e : Expression), e.chars = sourceOf inner →
        ∃ replaced, Separated replaced ∧ charsOf replaced = nest.replace number ∧
          sourceOf replaced = sourceOf glyphs ∧
          ∀ g ∈ replaced, g = .nest number e ∨ g ∈ glyphs := by
  have whole := Formula.Nest.whole_of_find? found
  rw [Formula.Nest.whole, List.append_assoc, List.cons_append] at whole
  rcases exists_of_charsOf_eq_append_cons (fun number => (notMem_reference number).1) whole with
    ⟨front, behind, rfl, before, rest⟩
  rcases exists_of_charsOf_eq_append_cons (fun number => (notMem_reference number).2) rest with
    ⟨inner, back, rfl, isInner, after⟩
  refine ⟨inner, separated.right.tail.left, isInner, fun g listed => by simp [listed], ?_⟩
  intro number e chars
  rw [← List.cons_append, ← List.append_assoc] at separated
  refine ⟨front ++ .nest number e :: back, separated.replace number e, ?_, ?_, ?_⟩
  · simp [Formula.Nest.replace, Glyph.chars, before, after]
  · simp [Glyph.source, chars]
  · intro g listed
    simp only [List.mem_append, List.mem_cons] at listed ⊢
    tauto

/-- What programs can give: a composed program gives something only by way of its first part, and
one that fails gives nothing. -/
structure Outcomes (m : Type → Type) [Monad m] [MonadExceptOf Error m] where
  Gives : {α : Type} → m α → α → Prop
  ofBind : ∀ {α β : Type} {x : m α} {f : α → m β} {b : β}, Gives (x >>= f) b →
    ∃ a, Gives x a ∧ Gives (f a) b
  ofThrow : ∀ {α : Type} {error : Error} {a : α}, ¬Gives (throw error) a

/-- The outcomes of programs that succeed or fail. -/
def Outcomes.ofExcept : Outcomes (Except Error) where
  Gives x a := x = .ok a
  ofBind given := bind_eq_ok_iff.1 given
  ofThrow given := by cases given

section

variable {m : Type → Type} [Monad m] [MonadExceptOf Error m] (outcomes : Outcomes m) {ρ : Type}
  {readRow : List ρ → List Char → m ρ}
  (ofRow : ∀ {references : List ρ} {text : List Char} {result : ρ},
    outcomes.Gives (readRow references text) result →
      ∃ slots, Row.ofText references text = .ok slots)
include ofRow

/-- Glyphs that are read, whatever is made of their rows, spell an expression. -/
theorem Formula.exists_expression_of_readNests {source : List Char} {references : List ρ}
    {glyphs : List Glyph} (separated : Separated glyphs) {result : ρ}
    (given : outcomes.Gives (readNests readRow source references (charsOf glyphs)) result) :
    ∃ e : Expression, e.chars = sourceOf glyphs := by
  rw [readNests] at given
  split at given
  · rcases ofRow given with ⟨slots, read⟩
    exact Row.exists_expression_of_ofText separated read
  · next nest found =>
      split at given
      · exact absurd given outcomes.ofThrow
      · rcases outcomes.ofBind given with ⟨content, innerGiven, restGiven⟩
        rcases separated.exists_nest found with ⟨inner, innerSeparated, isInner, _, replaces⟩
        rcases ofRow innerGiven with ⟨slots, read⟩
        rw [← isInner] at read
        rcases Row.exists_expression_of_ofText innerSeparated read with ⟨e, chars⟩
        rcases replaces references.length e chars with
          ⟨replaced, replacedSeparated, same, sameSource, _⟩
        change outcomes.Gives (readNests readRow source (references ++ [content])
          (nest.replace references.length)) result at restGiven
        rw [← same] at restGiven
        have shorter : (charsOf replaced).count ')' < (charsOf glyphs).count ')' :=
          same ▸ Nest.count_close_replace_lt found references.length
        rw [← sameSource]
        exact exists_expression_of_readNests replacedSeparated restGiven
termination_by (charsOf glyphs).count ')'

end

/-! ### Errors -/

/-- An error that says what is wrong with the text of a formula. -/
def Error.isParseError : Error → Bool
  | .unbalanced .. | .emptyParentheses .. | .misplacedNegation .. | .misplacedOperand .. => true
  | .unknownReference .. | .missingLeftOperand .. | .missingOperand .. | .emptyFormula .. => true
  | .unreadable .. | .unsupportedRun .. => true
  | _ => false

theorem Spells.exists_nest {tokens : List Token} {glyphs : List Glyph}
    (spells : Spells tokens glyphs) {digits : List Char} (listed : .reference digits ∈ tokens) :
    ∃ number inner, digits = Text.digitsOf number ∧ .nest number inner ∈ glyphs := by
  induction spells with
  | nil => contradiction
  | plain notReference _ ih =>
      rcases List.mem_cons.1 listed with same | listed
      · exact absurd same.symm (notReference digits)
      · rcases ih listed with ⟨number, inner, same, isGlyph⟩
        exact ⟨number, inner, same, List.mem_append_right _ isGlyph⟩
  | reference number inner _ ih =>
      rcases List.mem_cons.1 listed with same | listed
      · exact ⟨number, inner, Token.reference.inj same, List.mem_cons_self⟩
      · rcases ih listed with ⟨number, inner, same, isGlyph⟩
        exact ⟨number, inner, same, List.mem_cons_of_mem _ isGlyph⟩

namespace RowContext

variable {ρ : Type} {row : RowContext ρ}

/-- Why lexemes are not read: there is an error in the text, or one of them is a back-reference with
more digits than are read. -/
inductive Refuses (row : RowContext ρ) (lexemes : List Lexeme) : Error → Prop
  | text {error : Error} : error.isParseError = true → Refuses row lexemes error
  | number {digits : List Char} : .reference digits ∈ lexemes.map Lexeme.token →
      row.isOversize digits = true → Refuses row lexemes (.oversizeNumber digits.length)

theorem Refuses.cons {lexemes : List Lexeme} {error : Error} (refuses : row.Refuses lexemes error)
    (lexeme : Lexeme) : row.Refuses (lexeme :: lexemes) error := by
  cases refuses with
  | text isParseError => exact .text isParseError
  | number listed oversize => exact .number (List.mem_cons_of_mem _ listed) oversize

mutual

theorem refuses_of_readOperand {isFirst negated : Bool} {lexemes : List Lexeme} {error : Error}
    (stuck : ∀ error ∈ row.stuck, error.isParseError = true)
    (read : row.readOperand isFirst negated lexemes = .error error) :
    row.Refuses lexemes error := by
  match lexemes with
  | [] =>
      rw [readOperand] at read
      split at read
      · next atEnd =>
          cases read
          exact .text (stuck _ atEnd)
      · cases isFirst <;> cases read <;> exact .text rfl
  | ⟨.negation, _⟩ :: rest =>
      have refuses : row.Refuses rest error := refuses_of_readOperand stuck read
      exact refuses.cons _
  | ⟨.name cs, _⟩ :: rest =>
      have refuses : row.Refuses rest error := refuses_of_readLink stuck read
      exact refuses.cons _
  | ⟨.reference digits, _⟩ :: rest =>
      rw [readOperand, resolve] at read
      split at read
      · exact (refuses_of_readLink stuck read).cons _
      · next unresolved =>
          cases read
          split at unresolved
          · next oversize =>
              cases unresolved
              exact .number List.mem_cons_self oversize
          · split at unresolved
            · contradiction
            · cases unresolved
              exact .text rfl
  | ⟨.connective _, _⟩ :: _ =>
      cases read
      exact .text rfl

theorem refuses_of_readLink {x : Slot ρ} {lexemes : List Lexeme} {error : Error}
    (stuck : ∀ error ∈ row.stuck, error.isParseError = true)
    (read : row.readLink x lexemes = .error error) : row.Refuses lexemes error := by
  match lexemes with
  | [] =>
      rw [readLink] at read
      split at read
      · next atEnd =>
          cases read
          exact .text (stuck _ atEnd)
      · contradiction
  | ⟨.connective c, _⟩ :: rest =>
      exact (refuses_of_readOperand stuck (map_eq_error_iff.1 read)).cons _
  | ⟨.negation, _⟩ :: _ | ⟨.name _, _⟩ :: _ | ⟨.reference _, _⟩ :: _ =>
      cases read
      exact .text rfl

end

end RowContext

theorem isParseError_stuckError (text : List Char) (position : Nat) :
    (stuckError text position).isParseError = true := by
  simp only [stuckError]
  split <;> rfl

/-- A text that is not read as a row has lexemes that are not read. -/
theorem Row.exists_refuses_of_ofText {ρ : Type} {references : List ρ} {text : List Char}
    {error : Error} (read : Row.ofText references text = .error error) :
    ∃ row : RowContext ρ, row.references = references ∧
      row.Refuses (Scan.ofChars (Text.expandTabs text)).lexemes error := by
  rw [ofText] at read
  refine ⟨_, rfl, RowContext.refuses_of_readOperand ?_ read⟩
  intro error isStuck
  rcases Option.map_eq_some_iff.1 isStuck with ⟨position, _, rfl⟩
  exact isParseError_stuckError _ position

/-- The back-references of glyphs number what has been read. -/
def AreNumbered (count : Nat) (glyphs : List Glyph) : Prop :=
  ∀ number inner, .nest number inner ∈ glyphs → number < count

theorem Row.isParseError_of_ofText {ρ : Type} {references : List ρ} {glyphs : List Glyph}
    (separated : Separated glyphs) (numbered : AreNumbered references.length glyphs) {error : Error}
    (read : Row.ofText references (charsOf glyphs) = .error error) :
    error.isParseError = true := by
  rcases Scan.exists_spells separated 0 with ⟨front, back, rfl, spells, _⟩
  rcases exists_refuses_of_ofText read with ⟨row, rfl, refuses⟩
  rw [expandTabs_charsOf separated] at refuses
  cases refuses with
  | text isParseError => exact isParseError
  | number listed oversize =>
      rcases spells.exists_nest listed with ⟨number, inner, rfl, isGlyph⟩
      rw [RowContext.not_isOversize (numbered number inner (List.mem_append_left _ isGlyph))]
        at oversize
      contradiction

theorem Formula.isParseError_of_readNests {source : List Char} {references : List Formula}
    {glyphs : List Glyph} (separated : Separated glyphs)
    (numbered : AreNumbered references.length glyphs) {error : Error}
    (read : readNests (m := Except Error) ofRow source references (charsOf glyphs) = .error error) :
    error.isParseError = true := by
  rw [readNests] at read
  split at read
  · exact Row.isParseError_of_ofText separated numbered (map_eq_error_iff.1 read)
  · next nest found =>
      split at read
      · cases read
        rfl
      · rcases separated.exists_nest found with
          ⟨inner, innerSeparated, isInner, isPart, replaces⟩
        rcases bind_eq_error_iff.1 read with innerRead | ⟨content, innerRead, restRead⟩
        · rw [← isInner] at innerRead
          exact Row.isParseError_of_ofText innerSeparated
            (fun number e isGlyph => numbered number e (isPart isGlyph))
            (map_eq_error_iff.1 innerRead)
        · rcases map_eq_ok_iff.1 innerRead with ⟨slots, rowRead, _⟩
          rw [← isInner] at rowRead
          rcases Row.exists_expression_of_ofText innerSeparated rowRead with ⟨e, chars⟩
          rcases replaces references.length e chars with
            ⟨replaced, replacedSeparated, same, _, replacedGlyphs⟩
          change readNests (m := Except Error) ofRow source (references ++ [content])
            (nest.replace references.length) = .error error at restRead
          rw [← same] at restRead
          have shorter : (charsOf replaced).count ')' < (charsOf glyphs).count ')' :=
            same ▸ Nest.count_close_replace_lt found references.length
          refine isParseError_of_readNests replacedSeparated ?_ restRead
          intro number inner isGlyph
          rw [List.length_append, List.length_singleton, Nat.lt_succ_iff]
          rcases replacedGlyphs _ isGlyph with isNew | isOld
          · exact Nat.le_of_eq (Glyph.nest.inj isNew).1
          · exact Nat.le_of_lt (numbered number inner isOld)
termination_by (charsOf glyphs).count ')'

/-! ### Texts whose back-references are those of their nests -/

/-- A text without blanks and the mark of back-references, in which no digit stands right behind a
closing parenthesis, where it would prolong the number that is put there. -/
structure IsUnambiguous (cs : List Char) : Prop where
  noBlank : ∀ c ∈ cs, Text.isBlank c = false
  noMark : '@' ∉ cs
  apart : cs.IsChain fun c next => c = ')' → Text.isDigit next = false

theorem IsUnambiguous.separated {cs : List Char} (unambiguous : IsUnambiguous cs) :
    Separated (cs.map .char) := by
  constructor
  · rw [List.forall_mem_map]
    exact fun c isChar =>
      ⟨unambiguous.noBlank c isChar, fun same => unambiguous.noMark (same ▸ isChar)⟩
  · rw [List.isChain_map]
    exact unambiguous.apart.imp fun c next apart isClose => Bool.eq_false_iff.1 (apart isClose)

/-- Without a closing parenthesis there is nothing to keep apart. -/
theorem isUnambiguous_of_noClose {cs : List Char}
    (noClose : ∀ c ∈ cs, Text.isBlank c = false ∧ c ≠ '@' ∧ c ≠ ')') : IsUnambiguous cs where
  noBlank c isChar := (noClose c isChar).1
  noMark isChar := (noClose _ isChar).2.1 rfl
  apart := List.Pairwise.isChain (List.pairwise_of_forall_mem_list fun c isChar _ _ isClose =>
    absurd isClose (noClose c isChar).2.2)

theorem IsUnambiguous.append {left right : List Char} (first : IsUnambiguous left)
    (second : IsUnambiguous right)
    (joint : ')' ∉ left ∨ ∀ c ∈ right.head?, Text.isDigit c = false) :
    IsUnambiguous (left ++ right) where
  noBlank := List.forall_mem_append.2 ⟨first.noBlank, second.noBlank⟩
  noMark := by simp [first.noMark, second.noMark]
  apart := by
    refine List.isChain_append.2 ⟨first.apart, second.apart, ?_⟩
    rintro c isLast next isHead rfl
    rcases joint with noClose | noDigit
    · exact absurd (List.mem_of_getLast? isLast) noClose
    · exact noDigit next isHead

theorem Connective.isUnambiguous_spelling (c : Connective) :
    IsUnambiguous c.spelling.toList ∧ ')' ∉ c.spelling.toList := by
  have marks : c.spelling.toList.all
      (fun d => !Text.isBlank d && (d != '@' && d != ')')) = true := by
    cases c <;> decide
  simp only [List.all_eq_true, Bool.and_eq_true, Bool.not_eq_true', bne_iff_ne] at marks
  exact ⟨isUnambiguous_of_noClose marks, fun isMark => (marks _ isMark).2.2 rfl⟩

mutual

theorem Factor.isUnambiguous_chars (factor : Factor) : IsUnambiguous factor.chars := by
  have sign {signs : Nat} : ∀ c ∈ signChars signs,
      Text.isBlank c = false ∧ c ≠ '@' ∧ c ≠ ')' := by
    intro c isSign
    rcases List.eq_of_mem_replicate isSign with rfl
    decide
  cases factor with
  | name signs word =>
      refine isUnambiguous_of_noClose (List.forall_mem_append.2 ⟨sign, fun c isLetter => ?_⟩)
      have isName := word.plain c isLetter
      have flat := isFlat_of_isNameChar isName
      exact ⟨flat.1, fun same => absurd (same ▸ isName) (by decide), flat.2.2⟩
  | nested signs inner =>
      have opening : ∀ c ∈ signChars signs ++ ['('],
          Text.isBlank c = false ∧ c ≠ '@' ∧ c ≠ ')' :=
        List.forall_mem_append.2 ⟨sign, List.forall_mem_singleton.2 (by decide)⟩
      have front : IsUnambiguous (signChars signs ++ ['('] ++ inner.chars) :=
        (isUnambiguous_of_noClose opening).append inner.isUnambiguous_chars
          (.inl fun isChar => (opening _ isChar).2.2 rfl)
      have closing : IsUnambiguous [')'] :=
        ⟨List.forall_mem_singleton.2 (by decide), by decide, List.isChain_singleton _⟩
      have whole := front.append closing (.inr (by rintro _ ⟨⟩; decide))
      simpa [Factor.chars] using whole

/-- The text of an expression is unambiguous. -/
theorem Expression.isUnambiguous_chars (e : Expression) : IsUnambiguous e.chars := by
  cases e with
  | single factor => exact factor.isUnambiguous_chars
  | chain first c rest =>
      rcases c.isUnambiguous_spelling with ⟨link, noClose⟩
      have behind := link.append rest.isUnambiguous_chars (.inl noClose)
      rw [Expression.chars, List.append_assoc]
      exact first.isUnambiguous_chars.append behind
        (.inr fun d isHead => ((delimits_connective c rest.chars).1 d isHead).2)

end

section

variable {m : Type → Type} [Monad m] [MonadExceptOf Error m] (outcomes : Outcomes m) {ρ : Type}
  {readRow : List ρ → List Char → m ρ}
  (ofRow : ∀ {references : List ρ} {text : List Char} {result : ρ},
    outcomes.Gives (readRow references text) result →
      ∃ slots, Row.ofText references text = .ok slots)
include ofRow

/-- An unambiguous text that is read, whatever is made of its rows, is that of an expression. -/
theorem Formula.exists_expression_of_readText {cs : List Char} (unambiguous : IsUnambiguous cs)
    {result : ρ} (given : outcomes.Gives (readText readRow cs) result) :
    ∃ e : Expression, e.chars = cs := by
  rw [readText] at given
  split at given
  · exact absurd given outcomes.ofThrow
  · have same : charsOf (cs.map .char) = cs := charsOf_map_char cs
    rw [← same] at given
    rcases exists_expression_of_readNests outcomes ofRow unambiguous.separated given with
      ⟨e, chars⟩
    exact ⟨e, chars.trans (sourceOf_map_char cs)⟩

end

theorem Formula.exists_expression_of_parse {text : String}
    (unambiguous : IsUnambiguous text.toList) {f : Formula} (parsed : parse text = .ok f) :
    ∃ e : Expression, e.text = text := by
  have row {references : List Formula} {cs : List Char} {g : Formula}
      (read : ofRow references cs = .ok g) : ∃ slots, Row.ofText references cs = .ok slots := by
    rcases map_eq_ok_iff.1 read with ⟨slots, readSlots, _⟩
    exact ⟨slots, readSlots⟩
  rcases exists_expression_of_readText .ofExcept row unambiguous parsed with ⟨e, chars⟩
  exact ⟨e, by rw [Expression.text, chars, String.ofList_toList]⟩

theorem Formula.isParseError_of_parse {text : String} (unambiguous : IsUnambiguous text.toList)
    {error : Error} (parsed : parse text = .error error) : error.isParseError = true := by
  rw [parse, readText] at parsed
  split at parsed
  · cases parsed
    rfl
  · have same : charsOf (text.toList.map .char) = text.toList := charsOf_map_char _
    rw [← same] at parsed
    refine isParseError_of_readNests unambiguous.separated ?_ parsed
    intro number inner isGlyph
    rcases List.mem_map.1 isGlyph with ⟨c, _, isChar⟩
    contradiction

/-! ### Errors of other texts -/

/-- A text is not read as a row because of an error in it, or of a number with more digits than are
read. -/
theorem Row.refusal_of_ofText {ρ : Type} {references : List ρ} {text : List Char} {error : Error}
    (read : Row.ofText references text = .error error) :
    error.isParseError = true ∨
      ∃ digits, Text.maxDigits < digits ∧ error = .oversizeNumber digits := by
  rcases exists_refuses_of_ofText read with ⟨row, _, refuses⟩
  cases refuses with
  | text isParseError => exact .inl isParseError
  | number _ oversize =>
      rw [RowContext.isOversize, Bool.and_eq_true, decide_eq_true_iff] at oversize
      exact .inr ⟨_, oversize.1, rfl⟩

theorem Formula.refusal_of_readNests {source text : List Char} {references : List Formula}
    {error : Error}
    (read : readNests (m := Except Error) ofRow source references text = .error error) :
    error.isParseError = true ∨
      ∃ digits, Text.maxDigits < digits ∧ error = .oversizeNumber digits := by
  rw [readNests] at read
  split at read
  · exact Row.refusal_of_ofText (map_eq_error_iff.1 read)
  · next nest found =>
      split at read
      · cases read
        exact .inl rfl
      · rcases bind_eq_error_iff.1 read with innerRead | ⟨content, _, restRead⟩
        · exact Row.refusal_of_ofText (map_eq_error_iff.1 innerRead)
        · have shorter := Nest.count_close_replace_lt found references.length
          exact refusal_of_readNests restRead
termination_by text.count ')'

/-- Any text is rejected because of an error in it, or of a number with more digits than are
read. -/
theorem Formula.refusal_of_parse {text : String} {error : Error}
    (parsed : parse text = .error error) : error.isParseError = true ∨
      ∃ digits, Text.maxDigits < digits ∧ error = .oversizeNumber digits := by
  rw [parse, readText] at parsed
  split at parsed
  · cases parsed
    exact .inl rfl
  · exact refusal_of_readNests parsed

end Entail
