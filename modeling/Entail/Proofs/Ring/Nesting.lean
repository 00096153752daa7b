import Entail.Proofs.Formula.Acceptance
import Entail.Proofs.Ring.Parsed

/-!
# Replacing the nests of a text

Parsing takes the nests out of a text one after the other, and makes a ring of
each.  A balanced text stays balanced, so that a closing parenthesis in it
always has an opening one before it, and parsing comes to a text without
parentheses unless a nest is rejected.
-/

namespace Entail

namespace Ring.Builder

/-- Parsing has taken nests out of the source: the rings that were made of them, the text that is
left, and the store that holds the rings. -/
inductive Unnests (source : List Char) (s : Store) : List Nat → List Char → Store → Prop
  | start : Unnests source s [] source s
  | replace {references : List Nat} {text : List Char} {s' s'' : Store} {nest : Formula.Nest}
      {head : Nat} : Unnests source s references text s' → Formula.Nest.find? text = some nest →
      nest.inner.all Text.isBlank = false →
      assemble references nest.inner s' = .ok head s'' →
      Unnests source s (references ++ [head]) (nest.replace references.length) s''

namespace Unnests

variable {source text : List Char} {s s' : Store} {references : List Nat}

/-- What is left of a balanced text is balanced. -/
theorem isBalanced (unnests : Unnests source s references text s')
    (balanced : Text.IsBalanced source) : Text.IsBalanced text := by
  induction unnests with
  | start => exact balanced
  | replace _ found _ _ ih => exact Formula.Nest.isBalanced_replace ih found _

/-- Parsing the source goes on with what is left of it. -/
theorem readNests_eq (unnests : Unnests source s references text s') :
    Formula.readNests assemble source [] source s =
      Formula.readNests assemble source references text s' := by
  induction unnests with
  | start => rfl
  | replace _ found filled assembled ih =>
      rw [ih, readNests_of_find?_eq_some assemble source _ found filled]
      exact bind_of_ok assembled _

/-- Parsing comes to a text without nests, which is the last one that a ring is made of, or it
fails. -/
theorem ends {source text : List Char} {s s' : Store} {references : List Nat}
    (unnests : Unnests source s references text s') :
    (∃ references' last s'', Unnests source s references' last s'' ∧
      Formula.Nest.find? last = none ∧
      Formula.readNests assemble source references text s' = assemble references' last s'') ∨
    ∃ error s'', Formula.readNests assemble source references text s' = .error error s'' := by
  cases found : Formula.Nest.find? text with
  | none =>
      left
      refine ⟨references, text, s', unnests, found, ?_⟩
      rw [readNests_of_find?_eq_none assemble source references found]
  | some nest =>
      cases filled : nest.inner.all Text.isBlank with
      | true =>
          right
          rw [readNests_of_isBlank assemble source references found filled]
          exact ⟨_, s', rfl⟩
      | false =>
          rw [readNests_of_find?_eq_some assemble source references found filled]
          cases assembled : assemble references nest.inner s' with
          | error error s'' => exact .inr ⟨error, s'', bind_of_error assembled _⟩
          | ok head s'' =>
              rw [bind_of_ok assembled]
              have shorter := Formula.Nest.count_close_replace_lt found references.length
              exact (unnests.replace found filled assembled).ends
termination_by text.count ')'

end Unnests

theorem parse_of_balanced {text : String} (balanced : Text.IsBalanced text.toList) (s : Store) :
    parse text s = Formula.readNests assemble text.toList [] text.toList s := by
  rw [parse, Formula.readText, Text.firstUnmatched_eq_none_iff.2 balanced]

/-- A text is rejected as a formula and as a ring for the same reason. -/
theorem exists_parse_eq_error_iff {text : String} {s : Store} {error : Error} :
    (∃ s', parse text s = .error error s') ↔ Formula.parse text = .error error := by
  have comes := comesTo_parse text s
  constructor
  · rintro ⟨s', parsed⟩
    cases result : Formula.parse text with
    | ok f =>
        rw [result] at comes
        obtain ⟨head, _, _, ran, _⟩ := comes
        cases parsed.symm.trans ran
    | error other =>
        rw [result] at comes
        obtain ⟨_, ran, _⟩ := comes
        cases parsed.symm.trans ran
        rfl
  · intro result
    rw [result] at comes
    obtain ⟨s', ran, _⟩ := comes
    exact ⟨s', ran⟩

/-- The scan finds the first parenthesis without a partner, and none exactly in a balanced text.
Parsing such a text, every text on the way is balanced, so that an opening parenthesis stands before
the first closing one, and in the end none is left, or the text is rejected.  The error says what is
wrong with the text, unless a number has more digits than are read, which takes digits or marks in
the text that pass for those of a back-reference. -/
theorem parse_keeps_balance (text : String) (s : Store) :
    (Text.firstUnmatched text.toList = none ↔ Text.IsBalanced text.toList) ∧
    (∀ k, Text.firstUnmatched text.toList = some k ↔
      IsLeast {i | Text.IsUnmatched text.toList i} k) ∧
    (Text.firstUnmatched text.toList = none →
      (∀ references rest s', Unnests text.toList s references rest s' →
        parse text s = Formula.readNests assemble text.toList references rest s' ∧
        Text.IsBalanced rest ∧
        (')' ∈ rest → ∃ nest, Formula.Nest.find? rest = some nest ∧ nest.whole = rest ∧
          ')' ∉ nest.before ∧ ')' ∉ nest.inner ∧ '(' ∉ nest.inner)) ∧
      ((∃ references last s', Unnests text.toList s references last s' ∧ '(' ∉ last ∧ ')' ∉ last ∧
          parse text s = assemble references last s') ∨
        ∃ error s', parse text s = .error error s' ∧ (error.isParseError = true ∨
          ¬IsUnambiguous text.toList ∧
            ∃ digits, Text.maxDigits < digits ∧ error = .oversizeNumber digits))) := by
  refine ⟨Text.firstUnmatched_eq_none_iff, fun k => Text.firstUnmatched_eq_some_iff, ?_⟩
  intro noneUnmatched
  have balanced := Text.firstUnmatched_eq_none_iff.1 noneUnmatched
  have parsed := parse_of_balanced balanced s
  constructor
  · intro references rest s' unnests
    have restBalanced := unnests.isBalanced balanced
    exact ⟨parsed.trans unnests.readNests_eq, restBalanced,
      Formula.Nest.exists_of_isBalanced restBalanced⟩
  · rcases (Unnests.start : Unnests text.toList s [] text.toList s).ends with
      ⟨references, last, s', unnests, atEnd, ran⟩ | ⟨error, s', failed⟩
    · left
      have lastBalanced := unnests.isBalanced balanced
      have noClose : ')' ∉ last := by
        intro closes
        obtain ⟨nest, found, _⟩ := Formula.Nest.exists_of_isBalanced lastBalanced closes
        cases atEnd.symm.trans found
      exact ⟨references, last, s', unnests, lastBalanced.notMem_open noClose, noClose,
        parsed.trans ran⟩
    · right
      refine ⟨error, s', parsed.trans failed, ?_⟩
      have rejected := exists_parse_eq_error_iff.1 ⟨s', parsed.trans failed⟩
      by_cases unambiguous : IsUnambiguous text.toList
      · exact .inl (Formula.isParseError_of_parse unambiguous rejected)
      · rcases Formula.refusal_of_parse rejected with isParseError | oversize
        · exact .inl isParseError
        · exact .inr ⟨unambiguous, oversize⟩

/-! ### A number with too many digits -/

/-- A nest between parentheses, with zeros right behind it. -/
def prolongedNest (zeros : Nat) : List Char :=
  '(' :: ('(' :: ['a'] ++ [')'] ++ List.replicate zeros '0') ++ [')']

/-- The back-reference of the nest, with the zeros behind it. -/
def prolongedReference (zeros : Nat) : List Char :=
  Token.referenceMark ++ List.replicate (zeros + 1) '0'

theorem notMem_replicate_zero {c : Char} (notZero : c ≠ '0') (zeros : Nat) :
    c ∉ List.replicate zeros '0' :=
  fun listed => notZero (List.eq_of_mem_replicate listed)

theorem notMem_prolongedReference {c : Char} (notMark : c ≠ '@') (notZero : c ≠ '0')
    (zeros : Nat) : c ∉ prolongedReference zeros := by
  simp [prolongedReference, Token.referenceMark, notMark, notZero]

theorem isBalanced_prolongedNest (zeros : Nat) : Text.IsBalanced (prolongedNest zeros) := by
  have name : Text.IsBalanced ['a'] := Text.isBalanced_of_notMem (by decide) (by decide)
  have digits : Text.IsBalanced (List.replicate zeros '0') := Text.isBalanced_of_notMem
    (notMem_replicate_zero (by decide) zeros) (notMem_replicate_zero (by decide) zeros)
  exact (name.pair.append digits).pair

theorem find?_prolongedNest (zeros : Nat) : Formula.Nest.find? (prolongedNest zeros) =
    some ⟨['('], ['a'], List.replicate zeros '0' ++ [')']⟩ := by
  have noClose : ')' ∉ ['('] := by decide
  rw [← Formula.Nest.find?_eq_some noClose (by decide) (by decide)]
  simp [prolongedNest]

theorem replace_prolongedNest (zeros : Nat) :
    (⟨['('], ['a'], List.replicate zeros '0' ++ [')']⟩ : Formula.Nest).replace 0 =
      '(' :: prolongedReference zeros ++ [')'] := by
  have number : Text.digitsOf 0 = ['0'] := by decide
  simp [Formula.Nest.replace, prolongedReference, number, List.replicate_succ]

theorem find?_prolongedReference (zeros : Nat) :
    Formula.Nest.find? ('(' :: prolongedReference zeros ++ [')']) =
      some ⟨[], prolongedReference zeros, []⟩ :=
  Formula.Nest.find?_eq_some List.not_mem_nil
    (notMem_prolongedReference (by decide) (by decide) zeros)
    (notMem_prolongedReference (by decide) (by decide) zeros)

/-- Too many zeros make a number that is not read. -/
theorem ofText_prolongedReference {ρ : Type} (content : ρ) {zeros : Nat}
    (many : Text.maxDigits ≤ zeros) :
    Row.ofText [content] (prolongedReference zeros) = .error (.oversizeNumber (zeros + 1)) := by
  have areDigits : ∀ c ∈ List.replicate (zeros + 1) '0', Text.isDigit c = true := by
    intro c isDigit
    rcases List.eq_of_mem_replicate isDigit with rfl
    decide
  have length : (List.replicate (zeros + 1) '0').length = zeros + 1 := List.length_replicate
  have oversize : Text.maxDigits < (List.replicate (zeros + 1) '0').length := by
    rw [length]
    exact Nat.lt_succ_of_le many
  have foreign : ∀ number < [content].length,
      List.replicate (zeros + 1) '0' ≠ Text.digitsOf number := by
    intro number isFirst same
    obtain rfl : number = 0 := Nat.lt_one_iff.1 isFirst
    have short : zeros + 1 = 1 := length.symm.trans (congrArg List.length same)
    have several : 0 < Text.maxDigits := by decide
    omega
  rw [prolongedReference, Row.ofText_of_oversize areDigits oversize foreign, length]

/-- Parsing takes the inner nest out, and gets no further. -/
theorem Unnests.of_prolongedNest {zeros : Nat} (many : Text.maxDigits ≤ zeros) {s s' : Store}
    {references : List Nat} {text : List Char}
    (unnests : Unnests (prolongedNest zeros) s references text s') :
    references = [] ∧ text = prolongedNest zeros ∨
      ∃ head, references = [head] ∧ text = '(' :: prolongedReference zeros ++ [')'] := by
  induction unnests with
  | start => exact .inl ⟨rfl, rfl⟩
  | replace _ found _ assembled ih =>
      rcases ih with ⟨rfl, rfl⟩ | ⟨head, rfl, rfl⟩
      · rw [find?_prolongedNest] at found
        cases found
        exact .inr ⟨_, rfl, replace_prolongedNest zeros⟩
      · rw [find?_prolongedReference] at found
        cases found
        have refused := ofText_prolongedReference head many
        rw [assemble, bind_of_error (read_of_error refused) _] at assembled
        cases assembled

theorem formula_parse_prolongedNest {zeros : Nat} (many : Text.maxDigits ≤ zeros) :
    Formula.parse (String.ofList (prolongedNest zeros)) = .error (.oversizeNumber (zeros + 1)) := by
  let content : Formula := .single (.symbol false "a")
  have read : Formula.ofRow [] ['a'] = .ok content := by decide +kernel
  have refused : Formula.ofRow [content] (prolongedReference zeros) =
      .error (.oversizeNumber (zeros + 1)) := by
    rw [Formula.ofRow, ofText_prolongedReference content many]
    rfl
  have filled : ['a'].all Text.isBlank = false := by decide
  have filled' : (prolongedReference zeros).all Text.isBlank = false :=
    List.all_eq_false.2 ⟨'@', List.mem_cons_self, by decide⟩
  rw [Formula.parse, Formula.readText, String.toList_ofList,
    Text.firstUnmatched_eq_none_iff.2 (isBalanced_prolongedNest zeros)]
  calc Formula.readNests Formula.ofRow (prolongedNest zeros) [] (prolongedNest zeros)
    _ = Formula.readNests Formula.ofRow (prolongedNest zeros) [content]
          ('(' :: prolongedReference zeros ++ [')']) := by
      rw [readNests_of_find?_eq_some Formula.ofRow _ _ (find?_prolongedNest zeros) filled, read]
      change Formula.readNests Formula.ofRow (prolongedNest zeros) [content] _ = _
      rw [List.length_nil, replace_prolongedNest]
    _ = .error (.oversizeNumber (zeros + 1)) := by
      rw [readNests_of_find?_eq_some Formula.ofRow _ _ (find?_prolongedReference zeros) filled',
        refused]
      rfl

/-- Digits behind a nest prolong its back-reference to a number that is not read: the balanced text
is rejected with another error than one about the text, before its parentheses are gone. -/
theorem parse_oversize_reference :
    Text.firstUnmatched (prolongedNest 4300) = none ∧
    (∃ s', parse (String.ofList (prolongedNest 4300)) Store.empty =
      .error (.oversizeNumber 4301) s') ∧
    (Error.oversizeNumber 4301).isParseError = false ∧
    ∀ references rest s', Unnests (prolongedNest 4300) Store.empty references rest s' →
      ')' ∈ rest := by
  have many : Text.maxDigits ≤ 4300 := Nat.le_refl 4300
  refine ⟨Text.firstUnmatched_eq_none_iff.2 (isBalanced_prolongedNest 4300),
    exists_parse_eq_error_iff.2 (formula_parse_prolongedNest many), rfl, ?_⟩
  intro references rest s' unnests
  rcases unnests.of_prolongedNest many with ⟨-, rfl⟩ | ⟨head, -, rfl⟩
  · exact List.mem_append_right _ List.mem_cons_self
  · exact List.mem_append_right _ List.mem_cons_self

end Ring.Builder

end Entail
