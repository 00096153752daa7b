import Entail.Proofs.Ring.Combining
import Entail.Ring.Horn

/-!
# Taking operands out of rings

With an operand goes one of the connectives beside it: the one behind it if the
operand is the first member of its ring, and the one in front of it otherwise.
-/

namespace Entail

namespace Part

/-- The parts of a row of operands that are all joined by `c`; there may be none of them. -/
def row (c : Connective) : List Operand → List Part
  | [] => []
  | x :: xs => .operand x :: joined c xs

/-- The parts of operands, each with a connective behind it. -/
def leading (c : Connective) (xs : List Operand) : List Part :=
  xs.flatMap fun x => [.operand x, .link c]

variable {c : Connective} {x : Operand} {xs ys : List Operand}

theorem parts_join (c : Connective) (x : Operand) (xs : List Operand) :
    (Formula.join c x xs).parts = row c (x :: xs) :=
  Formula.parts_join c x xs

theorem joined_eq_cons_row (several : xs ≠ []) : joined c xs = .link c :: row c xs := by
  cases xs with
  | nil => exact absurd rfl several
  | cons x xs => rfl

theorem leading_append_row (several : ys ≠ []) : leading c xs ++ row c ys = row c (xs ++ ys) := by
  induction xs with
  | nil => rfl
  | cons x xs ih =>
      have rest : xs ++ ys ≠ [] := List.append_ne_nil_of_right_ne_nil xs several
      calc leading c (x :: xs) ++ row c ys
        _ = .operand x :: .link c :: (leading c xs ++ row c ys) := rfl
        _ = .operand x :: .link c :: row c (xs ++ ys) := by rw [ih]
        _ = row c (x :: xs ++ ys) := by rw [← joined_eq_cons_row rest]; rfl

theorem leading_concat (c : Connective) (xs : List Operand) (x : Operand) :
    leading c (xs ++ [x]) = row c (xs ++ [x]) ++ [.link c] := by
  rw [← leading_append_row (List.cons_ne_nil x [])]
  simp [leading, row, joined]

/-- The parts of operands and, if others follow, the connective in front of those. -/
def leadingTo (c : Connective) (xs ys : List Operand) : List Part :=
  if ys = [] then row c xs else leading c xs

theorem leadingTo_append_row (c : Connective) (xs ys : List Operand) :
    leadingTo c xs ys ++ row c ys = row c (xs ++ ys) := by
  rw [leadingTo]
  split
  · next none => rw [none, row, List.append_nil, List.append_nil]
  · next several => exact leading_append_row several

end Part

namespace Ring

variable {s s' : Store}

namespace Builder

open Store

/-- The head of a ring is taken out together with the member behind it. -/
theorem exists_takeFirst {h link k : Nat} {more : List Nat}
    (ring : s.IsRing (h :: link :: k :: more)) :
    ∃ s', takeOperand h h s = .ok k s' ∧ s'.IsRing (k :: more) ∧ s'.IsRing [h] ∧
      s.Relinks s' (h :: link :: k :: more) := by
  have cut : s.IsRing ([h] ++ link :: k :: more) := ring
  have turned : s.IsRing (link :: (k :: more ++ [h])) := cut.rotate
  rcases exists_isolate turned (by simp) with ⟨s₁, isolated, ring₁, _, relinks⟩
  have turned₁ : s₁.IsRing (h :: (k :: more)) := ring₁.rotate
  rcases exists_isolate turned₁ (by simp) with ⟨s₂, isolated', ring₂, single, relinks'⟩
  have first : (do Store.required (← s.next h)) = Except.ok link := by
    rw [ring.1.1.1]
    rfl
  have second : (do Store.required (← s.next link)) = Except.ok k := by
    rw [ring.1.2.1.1]
    rfl
  refine ⟨s₂, ?_, ring₂, single, (relinks.mono (by grind)).trans (relinks'.mono (by grind))⟩
  rw [takeOperand, if_pos rfl, bind_of_ok (read_of_ok first), bind_of_ok (read_of_ok second)]
  rw [bind_of_ok (show isolate link s = .ok () s₁ from edit_of_ok isolated)]
  exact bind_of_ok (edit_of_ok isolated') _

/-- A member that is not the head is taken out together with the member in front of it. -/
theorem exists_takeBehind {head link h : Nat} {before after : List Nat}
    (ring : s.IsRing (head :: (before ++ link :: h :: after))) :
    ∃ s', takeOperand head h s = .ok head s' ∧ s'.IsRing (head :: (before ++ after)) ∧
      s'.IsRing [h] ∧ s.Relinks s' (head :: (before ++ link :: h :: after)) := by
  have cut : s.IsRing (head :: before ++ link :: h :: after) := ring
  have turned : s.IsRing (link :: (h :: after ++ head :: before)) := cut.rotate
  rcases exists_isolate turned (by simp) with ⟨s₁, isolated, ring₁, _, relinks⟩
  have ring₁ : s₁.IsRing (h :: (after ++ head :: before)) := ring₁
  rcases exists_isolate ring₁ (by simp) with ⟨s₂, isolated', ring₂, single, relinks'⟩
  have other : h ≠ head := by
    have distinct := ring.2
    grind
  have front : (do Store.required (← s.prev h)) = Except.ok link := by
    rw [turned.1.1.2]
    rfl
  refine ⟨s₂, ?_, ring₂.rotate, single,
    (relinks.mono (by grind)).trans (relinks'.mono (by grind))⟩
  rw [takeOperand, if_neg other, bind_of_ok (read_of_ok front)]
  rw [bind_of_ok (show isolate link s = .ok () s₁ from edit_of_ok isolated)]
  exact bind_of_ok (edit_of_ok isolated') _

/-- The operand that was taken out is a ring by itself, and the ring of the others is cut where it
stood. -/
inductive Taken (s : Store) (c : Connective) (h head : Nat) (x : Operand) (after : List Nat)
    (left right : List Operand) : Set Nat → Prop
  | intro {before : List Nat} {X A B : Set Nat} : s.HasRow h [.operand x] X →
      s.Cut head before after (Part.leadingTo c left right) (Part.row c right) A B →
      Disjoint X (A ∪ B) → Taken s c h head x after left right (X ∪ (A ∪ B))

variable {h : Nat} {before after : List Nat} {c : Connective} {x : Operand}
  {left right : List Operand} {A X Y : Set Nat}

/-- The head is taken out, and the connective behind it goes with it. -/
theorem yields_takeOperand_of_head (isRing : s.IsRing (h :: after))
    (part : s.HasPart h (.operand x) X) (row : s.HasParts after (Part.joined c right) Y)
    (apart : Disjoint X Y) (several : right ≠ []) :
    (takeOperand h h).Yields s (X ∪ Y) fun head s' D =>
      Taken s' c h head x after.tail [] right D := by
  rw [Part.joined_eq_cons_row several] at row
  rcases row with _ | ⟨link, row, linkApart⟩
  have isFirst := part.mem
  have isLink := link.mem
  have inRow := row.mem
  rcases List.exists_cons_of_ne_nil several with ⟨y, ys, rfl⟩
  rcases row with _ | @⟨k, _, more, _, Z, W, next, rest, restApart⟩
  rcases exists_takeFirst isRing with ⟨s', taken, ring', alone, relinks⟩
  have single : s'.HasRow h [.operand x] X :=
    hasRow_singleton_iff.2 ⟨alone, part.relinks relinks (by grind)⟩
  have others : s'.HasParts (k :: more) (Part.row c (y :: ys)) (Z ∪ W) :=
    (HasParts.cons next rest restApart).relinks relinks (by grind)
  have cut : s'.Cut k [] (k :: more) (Part.leadingTo c [] (y :: ys)) (Part.row c (y :: ys)) ∅
      (Z ∪ W) :=
    ⟨ring', rfl, .nil, others, Set.empty_disjoint _⟩
  exact ⟨k, s', _, taken, relinks.evolves (by grind) (by grind), .intro single cut (by grind)⟩

/-- An operand that is not the head is taken out, and the connective in front of it goes with it. -/
theorem yields_takeOperand_of_behind {head link : Nat} {front : List Operand} {z : Operand}
    {L : Set Nat}
    (isRing : s.IsRing (head :: (before ++ link :: h :: after)))
    (row : s.HasParts (head :: before) (Part.row c (front ++ [z])) A)
    (holds : s.HasPart link (.link c) L) (part : s.HasPart h (.operand x) X)
    (row' : s.HasParts after (Part.joined c right) Y) (rowApart : Disjoint A (L ∪ X ∪ Y))
    (linkApart : Disjoint L (X ∪ Y)) (apart : Disjoint X Y) :
    (takeOperand head h).Yields s (X ∪ (A ∪ L ∪ Y)) fun head s' D =>
      Taken s' c h head x after.tail (front ++ [z]) right D := by
  rcases exists_takeBehind isRing with ⟨s', taken, ring', alone, relinks⟩
  have isNode := part.mem
  have isLink := holds.mem
  have inRow := row.mem
  have inRow' := row'.mem
  have single : s'.HasRow h [.operand x] X :=
    hasRow_singleton_iff.2 ⟨alone, part.relinks relinks (by grind)⟩
  have kept : s'.HasParts (head :: before) (Part.row c (front ++ [z])) A :=
    row.relinks relinks (by grind)
  by_cases isLast : right = []
  · subst isLast
    rcases row'
    have cut : s'.Cut head (head :: before) [] (Part.leadingTo c (front ++ [z]) []) (Part.row c [])
        A ∅ :=
      ⟨ring', rfl, kept, .nil, Set.disjoint_empty _⟩
    exact ⟨head, s', _, taken, relinks.evolves (by grind) (by grind), .intro single cut (by grind)⟩
  · rw [Part.joined_eq_cons_row isLast] at row'
    rcases row' with _ | @⟨link', _, rest, _, M, E, holds', row', restApart⟩
    have isLink' := holds'.mem
    have inRest := row'.mem
    have between : s'.HasParts [link'] [.link c] M :=
      hasParts_singleton_iff.2 (holds'.relinks relinks (by grind))
    have cut : s'.Cut head (head :: before ++ [link']) rest (Part.leadingTo c (front ++ [z]) right)
        (Part.row c right) (A ∪ M) E := by
      rw [Part.leadingTo, if_neg isLast, Part.leading_concat]
      exact ⟨by simpa using ring', rfl, kept.append between (by grind),
        row'.relinks relinks (by grind), by grind⟩
    exact ⟨head, s', _, taken, relinks.evolves (by grind) (by grind), .intro single cut (by grind)⟩

/-- The operand behind the cut is taken out of a row; what is behind it comes behind the cut. -/
theorem yields_takeOperand {head : Nat} {B : Set Nat}
    (cut : s.Cut head before (h :: after) (Part.leading c left) (Part.row c (x :: right)) A B)
    (several : left ++ right ≠ []) :
    (takeOperand head h).Yields s (A ∪ B) fun head' s' D =>
      Taken s' c h head' x after.tail left right D := by
  rcases cut.exists_gap with ⟨X, Y, rfl, part, gap, apart⟩
  rcases gap with ⟨isRing, isHead, row, row', apart', notLeft, notRight⟩
  rcases List.eq_nil_or_concat' left with rfl | ⟨front, z, rfl⟩
  · rcases row
    cases isHead
    exact (yields_takeOperand_of_head isRing part row' (by grind) several).mono (by grind)
  · rw [Part.leading_concat] at row
    rcases row.exists_append with ⟨kept, last, F, L, rfl, rfl, front', link, linkApart⟩
    rcases link with _ | @⟨lk, _, _, _, _, _, link, none, _⟩
    rcases none
    cases kept with
    | nil =>
        have few := front'.length_eq
        rw [← Part.leading_append_row (List.cons_ne_nil z [])] at few
        simp [Part.row] at few
    | cons first kept =>
        cases isHead
        have ring : s.IsRing (head :: (kept ++ lk :: h :: after)) := by simpa using isRing
        exact (yields_takeOperand_of_behind ring front' link part row' (by grind) (by grind)
          (by grind)).mono (by grind)

end Builder

end Ring

end Entail
