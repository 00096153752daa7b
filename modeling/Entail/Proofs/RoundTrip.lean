import Entail.Proofs.Formula.Acceptance
import Entail.Proofs.Formula.Canonical
import Entail.Proofs.KnowledgeBase
import Entail.Proofs.Ring.Parser

/-!
# Written forms are read back

A formula that was read is written as a text that is read as the same formula,
alone or into a store.  The clauses of a knowledge base are written without
blanks and hold no separator, so the whole list of clauses comes back.
-/

namespace Entail

/-! ### Texts of clauses -/

namespace Text

variable {isSeparator : Char → Bool}

theorem splitWhere_of_forall {piece : List Char} (plain : ∀ c ∈ piece, isSeparator c = false) :
    splitWhere isSeparator piece = [piece] := by
  induction piece with
  | nil => rfl
  | cons c piece ih =>
      rw [List.forall_mem_cons] at plain
      rw [splitWhere, plain.1, ih plain.2]
      rfl

theorem splitWhere_append_cons {piece : List Char} (plain : ∀ c ∈ piece, isSeparator c = false)
    {c : Char} (separates : isSeparator c = true) (rest : List Char) :
    splitWhere isSeparator (piece ++ c :: rest) = piece :: splitWhere isSeparator rest := by
  induction piece with
  | nil => rw [List.nil_append, splitWhere, if_pos separates]
  | cons d piece ih =>
      rw [List.forall_mem_cons] at plain
      rw [List.cons_append, splitWhere, plain.1, ih plain.2]
      rfl

/-- The characters of a piece are those of the text that do not separate. -/
theorem forall_of_mem_splitWhere {cs piece : List Char}
    (isPiece : piece ∈ splitWhere isSeparator cs) :
    ∀ c ∈ piece, isSeparator c = false := by
  induction cs generalizing piece with
  | nil =>
      rw [splitWhere, List.mem_singleton] at isPiece
      rw [isPiece]
      exact List.forall_mem_nil _
  | cons c cs ih =>
      rw [splitWhere] at isPiece
      split at isPiece
      · rcases List.mem_cons.1 isPiece with rfl | isBehind
        · exact List.forall_mem_nil _
        · exact ih isBehind
      · next plain =>
          have first : isSeparator c = false := Bool.eq_false_iff.2 plain
          split at isPiece
          · rw [List.mem_singleton] at isPiece
            rw [isPiece]
            exact List.forall_mem_singleton.2 first
          · next front pieces split =>
              rw [split] at ih
              rcases List.mem_cons.1 isPiece with rfl | isBehind
              · exact List.forall_mem_cons.2 ⟨first, ih List.mem_cons_self⟩
              · exact ih (List.mem_cons_of_mem _ isBehind)

/-- Pieces that are put together with a separator are found again. -/
theorem split_intercalate {separator : Char} {pieces : List (List Char)}
    (plain : ∀ piece ∈ pieces, separator ∉ piece) (several : pieces ≠ []) :
    split separator ([separator].intercalate pieces) = pieces := by
  have apart (piece : List Char) (isPiece : piece ∈ pieces) :
      ∀ c ∈ piece, (c == separator) = false := by
    intro c isChar
    rw [beq_eq_false_iff_ne]
    rintro rfl
    exact plain piece isPiece isChar
  rw [split]
  induction pieces with
  | nil => contradiction
  | cons piece pieces ih =>
      rw [List.forall_mem_cons] at plain apart
      cases pieces with
      | nil =>
          rw [List.intercalate_singleton]
          exact splitWhere_of_forall apart.1
      | cons next pieces =>
          rw [List.intercalate_cons_cons, List.append_assoc, List.singleton_append,
            splitWhere_append_cons apart.1 (beq_self_eq_true separator),
            ih plain.2 (List.cons_ne_nil _ _) apart.2]

theorem forall_mem_intercalate {P : Char → Prop} {separator : Char} (separatorHas : P separator)
    {pieces : List (List Char)} (piecesHave : ∀ piece ∈ pieces, ∀ c ∈ piece, P c) :
    ∀ c ∈ [separator].intercalate pieces, P c := by
  induction pieces with
  | nil => exact List.forall_mem_nil _
  | cons piece pieces ih =>
      rw [List.forall_mem_cons] at piecesHave
      cases pieces with
      | nil =>
          rw [List.intercalate_singleton]
          exact piecesHave.1
      | cons next pieces =>
          rw [List.intercalate_cons_cons, List.forall_mem_append, List.forall_mem_append,
            List.forall_mem_singleton]
          exact ⟨⟨piecesHave.1, separatorHas⟩, ih piecesHave.2⟩

end Text

theorem Factor.chars_ne_nil (factor : Factor) : factor.chars ≠ [] := by
  cases factor with
  | name signs word => exact List.append_ne_nil_of_right_ne_nil _ word.nonempty
  | nested signs inner => simp [chars]

theorem Expression.chars_ne_nil (e : Expression) : e.chars ≠ [] := by
  cases e with
  | single factor => exact factor.chars_ne_nil
  | chain first c rest => simp [chars, first.chars_ne_nil]

mutual

/-- A character that is neither a mark nor in a name is not in the text of the operand. -/
theorem Operand.notMem_chars {c : Char} (notReserved : c ∉ Token.reservedChars) {x : Operand}
    (notNamed : ∀ name ∈ x.names, c ∉ name.toList) : c ∉ x.chars := by
  have notSign (negated : Bool) : c ∉ signOf negated := by
    cases negated
    · exact List.not_mem_nil
    · exact fun isSign => notReserved (List.mem_singleton.1 isSign ▸ by decide)
  match x with
  | .symbol negated name =>
      rw [Operand.chars, List.mem_append]
      exact not_or.2 ⟨notSign negated, notNamed name List.mem_cons_self⟩
  | .group negated content =>
      have notContent := Formula.notMem_chars (f := content) notReserved notNamed
      have notOpen : c ≠ '(' := fun same => notReserved (same ▸ by decide)
      have notClose : c ≠ ')' := fun same => notReserved (same ▸ by decide)
      rw [Operand.chars]
      simp only [List.mem_append, List.mem_cons, List.not_mem_nil, or_false]
      exact not_or.2 ⟨not_or.2 ⟨notSign negated, not_or.2 ⟨notOpen, notContent⟩⟩, notClose⟩

theorem Formula.notMem_chars {c : Char} (notReserved : c ∉ Token.reservedChars) {f : Formula}
    (notNamed : ∀ name ∈ f.names, c ∉ name.toList) : c ∉ f.chars := by
  match f with
  | .single x => exact Operand.notMem_chars (x := x) notReserved notNamed
  | .chain x d rest =>
      rcases List.forall_mem_append.1 notNamed with ⟨notFirst, notRest⟩
      have notLink : c ∉ d.spelling.toList := by
        intro isMark
        apply notReserved
        cases d <;> revert isMark <;> simp [Connective.spelling, Token.reservedChars] <;> tauto
      rw [Formula.chars, List.mem_append, List.mem_append]
      exact not_or.2 ⟨not_or.2 ⟨Operand.notMem_chars notReserved notFirst, notLink⟩,
        Formula.notMem_chars notReserved notRest⟩

end

/-! ### Knowledge bases -/

/-- A formula as it is found in a knowledge base that was read: it is canonical, and its text holds
no separator of clauses. -/
structure Formula.IsClause (f : Formula) : Prop where
  canonical : f.IsCanonical
  apart : ';' ∉ f.chars

theorem Formula.isClause_of_ofText {text : String} (apart : ';' ∉ text.toList) {f : Formula}
    (read : ofText text = .ok f) : f.IsClause := by
  refine ⟨isCanonical_of_parse read, notMem_chars (by decide) fun name isName isChar => ?_⟩
  have inserted (c : Char) (isInserted : IsInserted c) : c ≠ ';' := by
    rintro rfl
    rcases isInserted with isBlank | isMark | isDigit
    · exact absurd isBlank (by decide)
    · exact absurd isMark (by decide)
    · exact absurd isDigit (by decide)
  have plain : ∀ c ∈ (Text.squeeze text).toList, c ≠ ';' := by
    rintro c isSqueezed rfl
    rw [Text.squeeze, String.toList_ofList] at isSqueezed
    exact apart (List.mem_of_mem_filter isSqueezed)
  exact (isNameOf_of_parse inserted plain read name isName).2 ';' isChar rfl

theorem Formula.IsClause.chars_ne_nil {f : Formula} (clause : f.IsClause) : f.chars ≠ [] := by
  rcases exists_expression clause.canonical.isWritable with ⟨e, chars, _⟩
  rw [← chars]
  exact e.chars_ne_nil

theorem Formula.IsClause.noBlank {f : Formula} (clause : f.IsClause) :
    ∀ c ∈ f.chars, Text.isBlank c = false := by
  rcases exists_expression clause.canonical.isWritable with ⟨e, chars, _⟩
  rw [← chars]
  exact e.isUnambiguous_chars.noBlank

theorem Text.removeBlanks_eq_self {cs : List Char} (noBlank : ∀ c ∈ cs, isBlank c = false) :
    removeBlanks cs = cs :=
  List.filter_eq_self.2 fun c isChar => by rw [noBlank c isChar]; rfl

theorem Formula.IsClause.ofText_text {f : Formula} (clause : f.IsClause) :
    ofText f.text = .ok f := by
  rw [ofText, Text.squeeze, text, String.toList_ofList, Text.removeBlanks_eq_self clause.noBlank]
  exact clause.canonical.parse_text

namespace KnowledgeBase

theorem isClause_of_ofText {tell : String} {kb : KnowledgeBase} (told : ofText tell = .ok kb) :
    ∀ f ∈ kb.clauses, f.IsClause := by
  rcases map_eq_ok_iff.1 told with ⟨clauses, read, rfl⟩
  intro f isClause
  rcases exists_of_mem_of_mapM read isClause with ⟨text, isText, parsed⟩
  rcases List.mem_map.1 isText with ⟨piece, isPiece, rfl⟩
  refine Formula.isClause_of_ofText ?_ parsed
  rw [String.toList_ofList]
  intro isChar
  have plain := Text.forall_of_mem_splitWhere (List.mem_of_mem_filter isPiece) ';' isChar
  exact absurd plain (by decide)

theorem toList_text (kb : KnowledgeBase) :
    kb.text.toList = [';'].intercalate (kb.clauses.map Formula.chars) := by
  have chars : String.toList ∘ Formula.text = Formula.chars := by
    funext f
    exact String.toList_ofList
  rw [text, String.toList_intercalate, List.map_map, chars]
  rfl

/-- The clause texts of a written knowledge base are the texts of its clauses. -/
theorem clauseTexts_text {kb : KnowledgeBase} (clauses : ∀ f ∈ kb.clauses, f.IsClause) :
    clauseTexts kb.text = kb.clauses.map Formula.text := by
  have noBlank : ∀ c ∈ [';'].intercalate (kb.clauses.map Formula.chars),
      Text.isBlank c = false := by
    refine Text.forall_mem_intercalate (by decide) ?_
    exact List.forall_mem_map.2 fun f isClause => (clauses f isClause).noBlank
  rw [clauseTexts, toList_text, Text.removeBlanks_eq_self noBlank]
  by_cases untold : kb.clauses = []
  · rw [untold]
    rfl
  · have apart : ∀ piece ∈ kb.clauses.map Formula.chars, ';' ∉ piece :=
      List.forall_mem_map.2 fun f isClause => (clauses f isClause).apart
    have nonempty : ∀ piece ∈ kb.clauses.map Formula.chars, (!piece.isEmpty) = true :=
      List.forall_mem_map.2 fun f isClause => by simp [(clauses f isClause).chars_ne_nil]
    rw [Text.split_intercalate apart (by simpa using untold), List.filter_eq_self.2 nonempty,
      List.map_map]
    rfl

/-- A knowledge base whose clauses were read is read from its text. -/
theorem ofText_text {kb : KnowledgeBase} (clauses : ∀ f ∈ kb.clauses, f.IsClause) :
    ofText kb.text = .ok kb := by
  have read (fs : List Formula) (all : ∀ f ∈ fs, f.IsClause) :
      (fs.map Formula.text).mapM Formula.ofText = .ok fs := by
    induction fs with
    | nil => rfl
    | cons f fs ih =>
        rw [List.forall_mem_cons] at all
        rw [List.map_cons, List.mapM_cons, all.1.ofText_text, ih all.2]
        rfl
  rw [ofText, clauseTexts_text clauses, read kb.clauses clauses]
  rfl

end KnowledgeBase

/-! ### Round trips -/

/-- The text of a canonical formula is parsed into a ring that holds the formula, whatever the store
holds. -/
theorem Formula.IsCanonical.exists_parse {f : Formula} (canonical : f.IsCanonical)
    (s : Ring.Store) :
    ∃ head s', Ring.Builder.parse f.text s = .ok head s' ∧ s'.formula head = .ok f := by
  rcases exists_expression_text canonical.isWritable with ⟨e, text, reads⟩
  rw [canonical.regroup] at reads
  rcases e.exists_parse s with ⟨s', ring, parsed, laid, adds, reads'⟩
  rw [← text, ← reads'.unique reads]
  exact ⟨ring.head, s', parsed, laid.formula⟩

/-- Reading and writing are inverse to each other: what is parsed is canonical, and the text of a
canonical formula is parsed to that formula, alone or into a store.  So formulas that were parsed
are the same if they are written the same, and what a knowledge base was told can be told again by
its text. -/
theorem Formula.parse_inverts_text :
    (∀ text f, parse text = .ok f → f.IsCanonical) ∧
      (∀ f : Formula, f.IsCanonical → parse f.text = .ok f ∧ ∀ s : Ring.Store,
        ∃ head s', Ring.Builder.parse f.text s = .ok head s' ∧ s'.formula head = .ok f) ∧
      (∀ text text' f g, parse text = .ok f → parse text' = .ok g → (f.text = g.text ↔ f = g)) ∧
      ∀ tell kb, KnowledgeBase.ofText tell = .ok kb → KnowledgeBase.ofText kb.text = .ok kb := by
  refine ⟨fun text f parsed => isCanonical_of_parse parsed,
    fun f canonical => ⟨canonical.parse_text, canonical.exists_parse⟩, ?_, ?_⟩
  · intro text text' f g parsed parsed'
    constructor
    · exact text_inj (isWritable_of_parse parsed).isUnmarked (isWritable_of_parse parsed').isUnmarked
    · exact congrArg Formula.text
  · intro tell kb told
    exact KnowledgeBase.ofText_text (KnowledgeBase.isClause_of_ofText told)

/-- The clauses of a knowledge base that was told, with blanks, more parentheses than needed and an
empty clause, are told again by its text. -/
theorem Formula.parse_inverts_text_of_clauses :
    KnowledgeBase.ofText "a & b => c ;; (~~d)" = .ok ⟨[
        .pair (.group false (.pair (.symbol false "a") .conj (.symbol false "b"))) .impl
          (.symbol false "c"),
        .single (.group false (.single (.symbol false "d")))]⟩ ∧
      KnowledgeBase.ofText "(a&b)=>c;(d)" = KnowledgeBase.ofText "a & b => c ;; (~~d)" := by
  have told : KnowledgeBase.ofText "a & b => c ;; (~~d)" = .ok ⟨[
      .pair (.group false (.pair (.symbol false "a") .conj (.symbol false "b"))) .impl
        (.symbol false "c"),
      .single (.group false (.single (.symbol false "d")))]⟩ := by
    decide +kernel
  exact ⟨told, (parse_inverts_text.2.2.2 _ _ told).trans told.symm⟩

end Entail
