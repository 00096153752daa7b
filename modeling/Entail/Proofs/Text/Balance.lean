import Mathlib.Combinatorics.Enumerative.DyckWord
import Mathlib.Order.Bounds.Basic
import Entail.Text.Parenthesis

/-!
# Balanced texts

The parentheses of a balanced text form a Dyck word, and two parentheses are
partners if the text between them is balanced.  The scan for a parenthesis
without a partner keeps the positions of those that wait for one; it comes to
the end of a balanced text with none waiting, and finds the first parenthesis
without a partner in any other text.
-/

namespace Entail.Text

open DyckStep

/-! ### Balance and partners -/

/-- The step that a parenthesis stands for in a Dyck word. -/
def dyckStep? (c : Char) : Option DyckStep :=
  if c = '(' then some U else if c = ')' then some D else none

/-- The parentheses of a text, without the characters between them. -/
def parentheses (cs : List Char) : List DyckStep :=
  cs.filterMap dyckStep?

/-- The parentheses of a text form a Dyck word. -/
def IsBalanced (cs : List Char) : Prop :=
  ∃ word : DyckWord, word.toList = parentheses cs

/-- An opening parenthesis at `i` and a closing one at `j` enclose a balanced text. -/
structure ArePartners (cs : List Char) (i j : Nat) : Prop where
  lt : i < j
  opens : cs[i]? = some '('
  closes : cs[j]? = some ')'
  between : IsBalanced ((cs.take j).drop (i + 1))

/-- The parenthesis at `k` is the partner of another one. -/
def HasPartner (cs : List Char) (k : Nat) : Prop :=
  ∃ m, ArePartners cs k m ∨ ArePartners cs m k

/-- The character at `k` is a parenthesis without a partner. -/
def IsUnmatched (cs : List Char) (k : Nat) : Prop :=
  (cs[k]? = some '(' ∨ cs[k]? = some ')') ∧ ¬HasPartner cs k

/-! ### Counting parentheses -/

theorem dyckStep?_eq_U_iff {c : Char} : dyckStep? c = some U ↔ c = '(' := by
  rw [dyckStep?]
  split
  · next isOpen => exact iff_of_true rfl isOpen
  · next notOpen => split <;> simp [notOpen]

theorem dyckStep?_eq_D_iff {c : Char} : dyckStep? c = some D ↔ c = ')' := by
  rw [dyckStep?]
  split
  · next isOpen => simp [isOpen]
  · split
    · next isClose => exact iff_of_true rfl isClose
    · next notClose => simp [notClose]

theorem count_parentheses {step : DyckStep} {c : Char}
    (stands : ∀ {d}, dyckStep? d = some step ↔ d = c) (cs : List Char) :
    (parentheses cs).count step = cs.count c := by
  rw [parentheses, List.count_filterMap, List.count]
  congr 1
  funext d
  rw [Bool.eq_iff_iff, beq_iff_eq, beq_iff_eq]
  exact stands

theorem count_U_parentheses (cs : List Char) : (parentheses cs).count U = cs.count '(' :=
  count_parentheses dyckStep?_eq_U_iff cs

theorem count_D_parentheses (cs : List Char) : (parentheses cs).count D = cs.count ')' :=
  count_parentheses dyckStep?_eq_D_iff cs

/-- No closing parenthesis of the text lacks an opening one before it. -/
def StaysOpen (cs : List Char) : Prop :=
  ∀ front, front <+: cs → front.count ')' ≤ front.count '('

theorem isBalanced_iff {cs : List Char} :
    IsBalanced cs ↔ cs.count '(' = cs.count ')' ∧ StaysOpen cs := by
  constructor
  · rintro ⟨word, steps⟩
    constructor
    · rw [← count_U_parentheses, ← count_D_parentheses, ← steps]
      exact word.count_U_eq_count_D
    · intro front isFront
      have taken := List.prefix_iff_eq_take.1 (isFront.filterMap dyckStep?)
      rw [← count_U_parentheses, ← count_D_parentheses, parentheses, taken,
        ← parentheses, ← parentheses, ← steps]
      exact word.count_D_le_count_U _
  · rintro ⟨same, staysOpen⟩
    refine ⟨⟨parentheses cs, ?_, fun i => ?_⟩, rfl⟩
    · rw [count_U_parentheses, count_D_parentheses, same]
    · have isStart : (parentheses cs).take i <+: cs.filterMap dyckStep? := List.take_prefix i _
      obtain ⟨front, isFront, taken⟩ := List.prefix_filterMap_iff.1 isStart
      rw [taken, ← parentheses, count_U_parentheses, count_D_parentheses]
      exact staysOpen front isFront

/-- The closing parentheses of the second part may have their opening ones in the first part. -/
theorem staysOpen_append_iff {first second : List Char} :
    StaysOpen (first ++ second) ↔ StaysOpen first ∧ ∀ front, front <+: second →
      first.count ')' + front.count ')' ≤ first.count '(' + front.count '(' := by
  constructor
  · intro staysOpen
    constructor
    · exact fun front isFront => staysOpen front (List.prefix_append_of_prefix isFront)
    · intro front isFront
      have whole := staysOpen (first ++ front) ((List.prefix_append_right_inj first).2 isFront)
      rwa [List.count_append, List.count_append] at whole
  · rintro ⟨within, behind⟩ front isFront
    rcases List.prefix_or_prefix_of_prefix isFront (List.prefix_append first second) with
      inside | ⟨more, rfl⟩
    · exact within front inside
    · rw [List.count_append, List.count_append]
      exact behind more ((List.prefix_append_right_inj first).1 isFront)

theorem StaysOpen.append {first second : List Char} (left : StaysOpen first)
    (right : StaysOpen second) : StaysOpen (first ++ second) :=
  staysOpen_append_iff.2
    ⟨left, fun front isFront => Nat.add_le_add (left first List.prefix_rfl) (right front isFront)⟩

theorem StaysOpen.cons {cs : List Char} (staysOpen : StaysOpen cs) : StaysOpen ('(' :: cs) := by
  have single : StaysOpen ['('] := by
    intro front isFront
    rcases List.prefix_cons_iff.1 isFront with rfl | ⟨rest, rfl, isRest⟩
    · rfl
    · rw [List.prefix_nil.1 isRest]
      decide
  exact single.append staysOpen

/-! ### Balanced texts -/

theorem isBalanced_of_notMem {cs : List Char} (noOpen : '(' ∉ cs) (noClose : ')' ∉ cs) :
    IsBalanced cs := by
  have none : parentheses cs = [] := by
    refine List.filterMap_eq_nil_iff.2 fun c isChar => ?_
    have notOpen : c ≠ '(' := fun same => noOpen (same ▸ isChar)
    have notClose : c ≠ ')' := fun same => noClose (same ▸ isChar)
    simp [dyckStep?, notOpen, notClose]
  exact ⟨0, none.symm⟩

theorem IsBalanced.append {first second : List Char} (left : IsBalanced first)
    (right : IsBalanced second) : IsBalanced (first ++ second) := by
  obtain ⟨word, steps⟩ := left
  obtain ⟨word', steps'⟩ := right
  refine ⟨word + word', ?_⟩
  rw [parentheses, List.filterMap_append, ← parentheses, ← parentheses, ← steps, ← steps']
  rfl

theorem IsBalanced.pair {inner : List Char} (balanced : IsBalanced inner) :
    IsBalanced ('(' :: inner ++ [')']) := by
  obtain ⟨word, steps⟩ := balanced
  refine ⟨word.nest, ?_⟩
  have inside : parentheses ('(' :: inner ++ [')']) = U :: parentheses inner ++ [D] := by
    rw [parentheses, List.filterMap_append]
    rfl
  rw [inside, ← steps]
  rfl

/-- A balanced part of a balanced text may be replaced by another one. -/
theorem IsBalanced.replace {before part part' after : List Char}
    (whole : IsBalanced (before ++ part ++ after)) (old : IsBalanced part)
    (new : IsBalanced part') : IsBalanced (before ++ part' ++ after) := by
  rw [isBalanced_iff] at whole old new ⊢
  obtain ⟨same, staysOpen⟩ := whole
  obtain ⟨ends, behind⟩ := staysOpen_append_iff.1 staysOpen
  have start := (staysOpen_append_iff.1 ends).1
  simp only [List.count_append] at same behind ⊢
  constructor
  · omega
  · refine staysOpen_append_iff.2 ⟨start.append new.2, fun front isFront => ?_⟩
    have bound := behind front isFront
    simp only [List.count_append]
    omega

/-- A closing parenthesis behind a balanced text lacks an opening one. -/
theorem IsBalanced.not_staysOpen {before behind : List Char} (balanced : IsBalanced before) :
    ¬StaysOpen (before ++ ')' :: behind) := by
  intro staysOpen
  have bound := (staysOpen_append_iff.1 staysOpen).2 [')'] ⟨behind, rfl⟩
  have same := (isBalanced_iff.1 balanced).1
  rw [same] at bound
  simp at bound

/-- A balanced text without closing parentheses has no opening ones either. -/
theorem IsBalanced.notMem_open {cs : List Char} (balanced : IsBalanced cs) (noClose : ')' ∉ cs) :
    '(' ∉ cs := by
  rw [← List.count_eq_zero, (isBalanced_iff.1 balanced).1, List.count_eq_zero]
  exact noClose

/-! ### Nested texts -/

/-- A text in which each opening parenthesis comes with a closing one, around a text of the same
kind. -/
inductive Nested : List Char → Prop
  | nil : Nested []
  | char {c : Char} {cs : List Char} : c ≠ '(' → c ≠ ')' → Nested cs → Nested (c :: cs)
  | pair {inner cs : List Char} : Nested inner → Nested cs → Nested ('(' :: inner ++ ')' :: cs)

theorem Nested.append {first second : List Char} (left : Nested first) (right : Nested second) :
    Nested (first ++ second) := by
  induction left with
  | nil => exact right
  | char notOpen notClose _ ih => exact .char notOpen notClose ih
  | pair inner _ _ ih =>
      rw [List.append_assoc]
      exact .pair inner ih

theorem Nested.isBalanced {cs : List Char} (nested : Nested cs) : IsBalanced cs := by
  induction nested with
  | nil => exact isBalanced_of_notMem List.not_mem_nil List.not_mem_nil
  | @char c cs notOpen notClose _ ih =>
      have single : IsBalanced [c] := isBalanced_of_notMem
        (fun isOpen => notOpen (List.mem_singleton.1 isOpen).symm)
        (fun isClose => notClose (List.mem_singleton.1 isClose).symm)
      exact single.append ih
  | @pair inner cs _ _ within behind =>
      have whole := within.pair.append behind
      rwa [List.append_assoc] at whole

/-! ### The scan -/

/-- A text that is nested but for opening parentheses at the given positions, the latest first. -/
inductive Pending : List Char → List Nat → Prop
  | nested {cs : List Char} : Nested cs → Pending cs []
  | opens {before inner : List Char} {opened : List Nat} :
      Pending before opened → Nested inner →
      Pending (before ++ '(' :: inner) (before.length :: opened)

theorem Pending.append {front cs : List Char} {opened : List Nat} (pending : Pending front opened)
    (nested : Nested cs) : Pending (front ++ cs) opened := by
  cases pending with
  | nested before => exact .nested (before.append nested)
  | opens pending inner =>
      rw [List.append_assoc, List.cons_append]
      exact .opens pending (inner.append nested)

/-- What a scan finds: nothing in a nested text, else the first parenthesis without a partner, which
stands behind a nested text. -/
inductive Finds : List Char → Option Nat → Prop
  | nothing {cs : List Char} : Nested cs → Finds cs none
  | close {before : List Char} (behind : List Char) :
      Nested before → Finds (before ++ ')' :: behind) (some before.length)
  | opening {before behind : List Char} :
      Nested before → StaysOpen behind → Finds (before ++ '(' :: behind) (some before.length)

theorem Finds.append {cs behind : List Char} {k : Nat} (finds : Finds cs (some k))
    (staysOpen : StaysOpen behind) : Finds (cs ++ behind) (some k) := by
  cases finds with
  | close rest before =>
      rw [List.append_assoc]
      exact .close _ before
  | opening before inside =>
      rw [List.append_assoc]
      exact .opening before (inside.append staysOpen)

/-- At the end of a text, the earliest parenthesis that waits for a partner has none. -/
theorem Pending.finds_getLast? {cs : List Char} {opened : List Nat} (pending : Pending cs opened) :
    Finds cs opened.getLast? := by
  induction pending with
  | nested nested => exact .nothing nested
  | @opens before inner opened pending nested ih =>
      have staysOpen := (isBalanced_iff.1 nested.isBalanced).2
      cases opened with
      | nil =>
          cases pending with
          | nested outer => exact .opening outer staysOpen
      | cons i opened =>
          rw [List.getLast?_cons] at ih
          rw [List.getLast?_cons_cons, List.getLast?_cons]
          exact ih.append staysOpen.cons

/-- A scan that keeps the positions of the pending parentheses finds the first one without a
partner. -/
theorem finds_unmatchedFrom {front : List Char} {opened : List Nat} (pending : Pending front opened)
    (rest : List Char) : Finds (front ++ rest) (unmatchedFrom front.length opened rest) := by
  -- Each character moves from the rest to the front, which stays pending with what the scan keeps.
  induction rest generalizing front opened with
  | nil =>
      rw [List.append_nil]
      exact pending.finds_getLast?
  | cons c rest ih =>
      have longer : front ++ c :: rest = (front ++ [c]) ++ rest := by simp
      have position : front.length + 1 = (front ++ [c]).length := by simp
      rw [unmatchedFrom.eq_def]
      dsimp only
      split
      · next isOpen =>
          subst isOpen
          rw [longer, position]
          exact ih (.opens pending .nil)
      · next notOpen =>
          split
          · next isClose =>
              subst isClose
              cases pending with
              | nested before => exact .close rest before
              | @opens before inner opened pending nested =>
                  have closed := pending.append (.pair nested .nil)
                  rw [← List.append_assoc] at closed
                  rw [longer]
                  dsimp only
                  rw [position]
                  exact ih closed
          · next notClose =>
              rw [longer, position]
              exact ih (pending.append (.char notOpen notClose .nil))

theorem finds_firstUnmatched (cs : List Char) : Finds cs (firstUnmatched cs) :=
  finds_unmatchedFrom (.nested .nil) cs

theorem Finds.eq_none {cs : List Char} {found : Option Nat} (finds : Finds cs found)
    (balanced : IsBalanced cs) : found = none := by
  obtain ⟨same, staysOpen⟩ := isBalanced_iff.1 balanced
  cases finds with
  | nothing => rfl
  | close behind before => exact absurd staysOpen before.isBalanced.not_staysOpen
  | @opening before behind nested inside =>
      have outer := (isBalanced_iff.1 nested.isBalanced).1
      have inner := inside behind List.prefix_rfl
      simp at same
      omega

/-- The scan finds nothing exactly if the text is balanced. -/
theorem firstUnmatched_eq_none_iff {cs : List Char} :
    firstUnmatched cs = none ↔ IsBalanced cs := by
  have finds := finds_firstUnmatched cs
  constructor
  · intro noneFound
    rw [noneFound] at finds
    cases finds with
    | nothing nested => exact nested.isBalanced
  · exact finds.eq_none

theorem IsBalanced.nested {cs : List Char} (balanced : IsBalanced cs) : Nested cs := by
  have finds := finds_firstUnmatched cs
  rw [firstUnmatched_eq_none_iff.2 balanced] at finds
  cases finds with
  | nothing nested => exact nested

/-! ### The first parenthesis without a partner -/

theorem IsBalanced.arePartners {between : List Char} (balanced : IsBalanced between)
    (before after : List Char) :
    ArePartners (before ++ '(' :: between ++ ')' :: after) before.length
      (before.length + between.length + 1) := by
  have front : (before ++ '(' :: between).length = before.length + between.length + 1 := by
    simp [Nat.add_assoc]
  constructor
  · omega
  · simp
  · simp [← front]
  · rw [← front, List.take_left]
    simpa using balanced

theorem exists_append_of_getElem? {cs : List Char} {i : Nat} {c : Char} (found : cs[i]? = some c) :
    ∃ front back, cs = front ++ c :: back ∧ front.length = i := by
  obtain ⟨inside, rfl⟩ := List.getElem?_eq_some_iff.1 found
  refine ⟨cs.take i, cs.drop (i + 1), ?_, List.length_take_of_le (Nat.le_of_lt inside)⟩
  rw [List.getElem_cons_drop, List.take_append_drop]

theorem ArePartners.exists_append {cs : List Char} {i j : Nat} (partners : ArePartners cs i j) :
    ∃ before between after, cs = before ++ '(' :: between ++ ')' :: after ∧ before.length = i ∧
      before.length + between.length + 1 = j ∧ IsBalanced between := by
  obtain ⟨front, after, whole, isFront⟩ := exists_append_of_getElem? partners.closes
  have opens := partners.opens
  rw [whole, List.getElem?_append_left (isFront ▸ partners.lt)] at opens
  obtain ⟨before, between, rfl, isBefore⟩ := exists_append_of_getElem? opens
  have balanced := partners.between
  rw [whole, ← isFront, List.take_left, ← isBefore] at balanced
  refine ⟨before, between, after, whole, isBefore, ?_, by simpa using balanced⟩
  rw [← isFront, List.length_append, List.length_cons, Nat.add_assoc]

/-- Partners stay partners whatever stands before and behind the text. -/
theorem ArePartners.embed {cs : List Char} {i j : Nat} (partners : ArePartners cs i j)
    (before after : List Char) :
    ArePartners (before ++ cs ++ after) (before.length + i) (before.length + j) := by
  obtain ⟨front, between, back, rfl, rfl, rfl, balanced⟩ := partners.exists_append
  have embedded := balanced.arePartners (before ++ front) (back ++ after)
  simp only [List.length_append, List.append_assoc, List.cons_append, Nat.add_assoc] at embedded ⊢
  exact embedded

theorem HasPartner.embed {cs : List Char} {k : Nat} (hasPartner : HasPartner cs k)
    (before after : List Char) : HasPartner (before ++ cs ++ after) (before.length + k) := by
  obtain ⟨m, opens | closes⟩ := hasPartner
  · exact ⟨before.length + m, .inl (opens.embed before after)⟩
  · exact ⟨before.length + m, .inr (closes.embed before after)⟩

/-- Every parenthesis of a nested text has a partner. -/
theorem Nested.hasPartner {cs : List Char} (nested : Nested cs) {k : Nat}
    (isParenthesis : cs[k]? = some '(' ∨ cs[k]? = some ')') : HasPartner cs k := by
  induction nested generalizing k with
  | nil => simp at isParenthesis
  | @char c cs notOpen notClose _ ih =>
      cases k with
      | zero => simp [notOpen, notClose] at isParenthesis
      | succ k =>
          have embedded := (ih isParenthesis).embed [c] []
          simpa [Nat.add_comm] using embedded
  | @pair inner cs nested _ within behind =>
      have partners := nested.isBalanced.arePartners [] cs
      cases k with
      | zero => exact ⟨_, .inl partners⟩
      | succ k =>
          rw [List.cons_append, List.getElem?_cons_succ] at isParenthesis
          rcases Nat.lt_trichotomy k inner.length with inside | rfl | beyond
          · rw [List.getElem?_append_left inside] at isParenthesis
            have embedded := (within isParenthesis).embed ['('] (')' :: cs)
            simpa [Nat.add_comm] using embedded
          · exact ⟨0, .inr (by simpa using partners)⟩
          · obtain ⟨m, rfl⟩ := Nat.exists_eq_add_of_lt beyond
            have shifted : inner.length + m + 1 - inner.length = m + 1 := by omega
            rw [List.getElem?_append_right (Nat.le_of_lt beyond), shifted] at isParenthesis
            have embedded := (behind isParenthesis).embed ('(' :: inner ++ [')']) []
            simp only [List.length_append, List.length_cons, List.append_nil, List.append_assoc,
              List.singleton_append, List.length_nil] at embedded
            convert embedded using 1
            omega

theorem Finds.isUnmatched {cs : List Char} {k : Nat} (finds : Finds cs (some k)) :
    IsUnmatched cs k := by
  cases finds with
  | @close before behind nested =>
      refine ⟨.inr (by simp), ?_⟩
      rintro ⟨m, opens | closes⟩
      · have isOpen := opens.opens
        simp at isOpen
      · obtain ⟨front, between, after, whole, -, position, balanced⟩ := closes.exists_append
        have isFront : before = front ++ '(' :: between :=
          (List.append_inj whole (by simp; omega)).1
        -- The pair would close one parenthesis more than the text before it has opened.
        rw [isFront] at nested
        obtain ⟨same, staysOpen⟩ := isBalanced_iff.1 nested.isBalanced
        have bound := (staysOpen_append_iff.1 staysOpen).1 front List.prefix_rfl
        have inner := (isBalanced_iff.1 balanced).1
        simp at same
        omega
  | @opening before behind nested staysOpen =>
      refine ⟨.inl (by simp), ?_⟩
      rintro ⟨m, opens | closes⟩
      · obtain ⟨front, between, after, whole, position, -, balanced⟩ := opens.exists_append
        rw [List.append_assoc, List.cons_append] at whole
        have isBehind := (List.append_inj whole position.symm).2
        rw [List.cons.injEq] at isBehind
        exact balanced.not_staysOpen (isBehind.2 ▸ staysOpen)
      · have isClose := closes.closes
        simp at isClose

theorem Finds.le {cs : List Char} {k m : Nat} (finds : Finds cs (some k))
    (unmatched : IsUnmatched cs m) : k ≤ m := by
  have split : ∃ before behind, cs = before ++ behind ∧ before.length = k ∧ Nested before := by
    cases finds with
    | close behind nested => exact ⟨_, _, rfl, rfl, nested⟩
    | opening nested => exact ⟨_, _, rfl, rfl, nested⟩
  obtain ⟨before, behind, rfl, rfl, nested⟩ := split
  obtain ⟨isParenthesis, alone⟩ := unmatched
  by_contra isLess
  rw [List.getElem?_append_left (Nat.lt_of_not_le isLess)] at isParenthesis
  have embedded := (nested.hasPartner isParenthesis).embed [] behind
  rw [List.nil_append, List.length_nil, Nat.zero_add] at embedded
  exact alone embedded

/-- The scan finds the first parenthesis without a partner. -/
theorem firstUnmatched_eq_some_iff {cs : List Char} {k : Nat} :
    firstUnmatched cs = some k ↔ IsLeast {i | IsUnmatched cs i} k := by
  have least {k : Nat} (found : firstUnmatched cs = some k) : IsLeast {i | IsUnmatched cs i} k := by
    have finds := found ▸ finds_firstUnmatched cs
    exact ⟨finds.isUnmatched, fun m => finds.le⟩
  constructor
  · exact least
  · intro isLeast
    cases found : firstUnmatched cs with
    | none =>
        have nested := (firstUnmatched_eq_none_iff.1 found).nested
        exact absurd (nested.hasPartner isLeast.1.1) isLeast.1.2
    | some m => rw [(least found).unique isLeast]

example : firstUnmatched "(a&(b)".toList = some 0 := by decide

end Entail.Text
