import Entail.Proofs.Ring.Traversal
import Entail.Ring.Elimination

/-!
# Eliminating the arrows of rings

The first arrow of a ring is replaced again and again; all of them are replaced
in one pass over the row.  Each replacement leaves one connective less, so that
the bound on their number is never met.
-/

namespace Entail

/-- Whether a part is an arrow. -/
def Part.isArrow : Part → Bool
  | operand _ => false
  | link c => c.isArrow

namespace Formula

theorem links_mapHead (change : Operand → Operand) (f : Formula) :
    (f.mapHead change).links = f.links := by
  cases f <;> rfl

theorem mergeLinks_chain_of_selected {selected : Connective → Bool}
    {merge : Operand → Connective → Operand → Operand} {x : Operand} {c : Connective} {f : Formula}
    (isSelected : selected c = true) :
    (chain x c f).mergeLinks selected merge = (f.mapHead (merge x c)).mergeLinks selected merge := by
  cases f with
  | single y => simp [mergeLinks, mergeLinksAfter, mapHead, isSelected]
  | chain y d rest => simp [mergeLinks, mergeLinksAfter, mapHead, isSelected]

theorem mergeLinks_chain_of_not_selected {selected : Connective → Bool}
    {merge : Operand → Connective → Operand → Operand} {x : Operand} {c : Connective} {f : Formula}
    (notSelected : selected c = false) :
    (chain x c f).mergeLinks selected merge = chain x c (f.mergeLinks selected merge) := by
  cases f with
  | single y => simp [mergeLinks, mergeLinksAfter, notSelected, pair]
  | chain y d rest => simp [mergeLinks, mergeLinksAfter, notSelected]

/-- A row either is without arrows, or its first one may be replaced before the others are. -/
theorem replaceArrows_cases (f : Formula) :
    ((∀ p ∈ f.parts, p.isArrow = false) ∧ f.replaceArrows = f) ∨
      ∃ left x c y right, ∃ f' : Formula,
        f.parts = left ++ .operand x :: .link c :: .operand y :: right ∧
        (∀ p ∈ left, p.isArrow = false) ∧ c.isArrow = true ∧
        f'.parts = left ++ .operand (Rule.replaceArrow x c y) :: right ∧
        f'.replaceArrows = f.replaceArrows ∧ f'.links.length + 1 = f.links.length := by
  cases f with
  | single x => exact .inl ⟨List.forall_mem_singleton.2 rfl, rfl⟩
  | chain x c rest =>
      cases isArrow : c.isArrow with
      | true =>
          rcases parts_mapHead (Rule.replaceArrow x c) rest with ⟨right, split, split'⟩
          refine .inr ⟨[], x, c, rest.head, right, rest.mapHead (Rule.replaceArrow x c), ?_,
            List.forall_mem_nil _, isArrow, split', ?_, ?_⟩
          · rw [parts, split]
            rfl
          · exact (mergeLinks_chain_of_selected isArrow).symm
          · rw [links_mapHead]
            rfl
      | false =>
          have later : (chain x c rest).replaceArrows = chain x c rest.replaceArrows :=
            mergeLinks_chain_of_not_selected isArrow
          rcases replaceArrows_cases rest with
            ⟨none, same⟩ | ⟨left, y, d, z, right, f', split, none, arrow, split', same, shorter⟩
          · refine .inl ⟨?_, by rw [later, same]⟩
            exact List.forall_mem_cons.2 ⟨rfl, List.forall_mem_cons.2 ⟨isArrow, none⟩⟩
          · refine .inr ⟨.operand x :: .link c :: left, y, d, z, right, chain x c f', ?_, ?_, arrow,
              ?_, ?_, ?_⟩
            · rw [parts, split]
              rfl
            · exact List.forall_mem_cons.2 ⟨rfl, List.forall_mem_cons.2 ⟨isArrow, none⟩⟩
            · rw [parts, split']
              rfl
            · rw [later, ← same]
              exact mergeLinks_chain_of_not_selected isArrow
            · simp [links, ← shorter]

theorem eliminateInGroups_eq_mapOperands (f : Formula) :
    f.eliminateInGroups = f.mapOperands Operand.eliminate := by
  cases f with
  | single x => rfl
  | chain x c rest => rw [eliminateInGroups, mapOperands, eliminateInGroups_eq_mapOperands rest]

end Formula

namespace Ring

open Store

/-- Whether a node is an arrow. -/
def Store.isArrow (s : Store) (h : Nat) : Except Error Bool := do
  if ← s.isLink h then return (← s.connective h).isArrow else return false

section Arrows

variable {s : Store} {A B : Set Nat}

theorem Store.HasPart.isArrow {h : Nat} {p : Part} (part : s.HasPart h p A) :
    s.isArrow h = .ok p.isArrow := by
  rw [Store.isArrow, part.shows.isLink]
  cases p with
  | operand x => rfl
  | link c =>
      simp only [Part.isLink_link, bind, Except.bind, if_true, part.shows.connective]
      rfl

theorem Store.HasParts.isArrow_eq_false {members : List Nat} {parts : List Part}
    (row : s.HasParts members parts A) (none : ∀ p ∈ parts, p.isArrow = false) :
    ∀ m ∈ members, s.isArrow m = .ok false := by
  intro m isMember
  rcases row.exists_part m isMember with ⟨p, isPart, _, _, part⟩
  rw [part.isArrow, none p isPart]

/-- The first arrow is found behind its left neighbour. -/
theorem Store.HasParts.findM?_isArrow {before after : List Nat} {left : List Part} {l op r : Nat}
    {x y : Operand} {c : Connective} (row : s.HasParts before left A)
    (none : ∀ p ∈ left, p.isArrow = false)
    (row' : s.HasParts [l, op, r] [.operand x, .link c, .operand y] B)
    (arrow : c.isArrow = true) :
    (before ++ l :: op :: r :: after).findM? s.isArrow = .ok (some op) := by
  rcases row' with _ | ⟨first, _ | ⟨link, _, _⟩, _⟩
  have failing : ∀ m ∈ before ++ [l], s.isArrow m = .ok false :=
    List.forall_mem_append.2
      ⟨row.isArrow_eq_false none, List.forall_mem_singleton.2 first.isArrow⟩
  have passing : s.isArrow op = .ok true := by rw [link.isArrow, Part.isArrow, arrow]
  rw [List.append_cons]
  exact findM?_eq_some failing passing

end Arrows

namespace Builder

variable {s : Store} {A : Set Nat}

theorem yields_arrowRule {left right : Nat} {x y : Operand} {c : Connective} {B : Set Nat}
    (first : s.HasRow left [.operand x] A) (second : s.HasRow right [.operand y] B)
    (apart : Disjoint A B) :
    (arrowRule left c right).Yields s (A ∪ B) fun h s' C => s'.HasRing h
      (if c = .impl then Rule.implication x c y else Rule.biconditional x c y) C := by
  rw [arrowRule]
  split
  · exact yields_implication first second apart c
  · exact yields_biconditional first second apart c

/-- The arrows of a ring are replaced. -/
theorem yields_replaceArrows {bound head : Nat} {f : Formula} (ring : s.HasRing head f A)
    (enough : f.links.length < bound) :
    (replaceArrows bound head).Yields s A fun h s' B => s'.HasRing h f.replaceArrows B := by
  induction bound generalizing s head f A with
  | zero => exact absurd enough (Nat.not_lt_zero _)
  | succ bound ih =>
      have whole := ring
      rcases ring with ⟨rest, isRing, row⟩
      rcases f.replaceArrows_cases with
        ⟨none, same⟩ | ⟨left, x, c, y, right, f', split, none, arrow, split', same, shorter⟩
      · refine .read (a := Option.none) ?_ ?_
        · simp only [walk_ring isRing, bind, Except.bind]
          exact findM?_eq_none (row.isArrow_eq_false none)
        · rw [same]
          exact .pure Set.Subset.rfl whole
      · rw [split] at row
        rcases row.exists_append with ⟨before, members, B, M, split₁, rfl, row₁, later, apart⟩
        replace later : s.HasParts members ([.operand x, .link c, .operand y] ++ right) M := later
        rcases later.exists_append with ⟨middle, after, C, D, rfl, rfl, row₂, row₃, apart'⟩
        rcases List.length_eq_three.1 row₂.length_eq with ⟨l, op, r, rfl⟩
        have found : (s.walk head >>= (·.findM? s.isArrow)) = .ok (some op) := by
          rw [walk_ring isRing, split₁]
          exact row₁.findM?_isArrow none row₂ arrow
        refine .read found ?_
        refine (yields_rewriteAt split₁ isRing row₁ row₂ row₃ apart apart' fun s X Y first second
          apart => yields_arrowRule first second apart).bind Set.Subset.rfl ?_
        intro head' s₁ E _ ring
        rw [← same]
        have ring' : s₁.HasRing head' f' E := by
          rw [HasRing, split', Rule.replaceArrow]
          exact ring
        exact (ih ring' (by omega)).mono Set.subset_union_right

/-- The arrows of a ring with rings in it are eliminated. -/
theorem yields_eliminateTo {levels head : Nat} {f : Formula} (ring : s.HasRing head f A)
    (enough : f.depth ≤ levels) :
    (eliminateTo levels head).Yields s A fun h s' B => s'.HasRing h f.eliminate B := by
  induction levels generalizing s head f A with
  | zero => exact absurd (Nat.le_trans f.one_le_depth enough) (Nat.not_succ_le_zero 0)
  | succ levels ih =>
      have shallow := Formula.depth_le_succ_iff.1 enough
      have turns : List.Forall₂ (Turns (regroup (eliminateTo levels))) f.parts
          (f.mapOperands Operand.eliminate).parts := by
        rw [Formula.parts_mapOperands, List.forall₂_map_right_iff, List.forall₂_same]
        intro p isPart
        match p with
        | .link c => exact turns_regroup_link _ c
        | .operand (.symbol negated name) => exact turns_regroup_symbol _ negated name
        | .operand (.group negated content) =>
            exact turns_regroup_group (fun s head A ring => ih ring (shallow _ isPart)) negated
      refine .walk_turns ring turns fun s₁ B _ ring => .get ?_
      rw [Formula.eliminate, Formula.eliminateInGroups_eq_mapOperands]
      have enough := Nat.lt_succ_of_lt (HasRing.length_links_lt_size ring)
      exact (yields_replaceArrows ring enough).mono Set.subset_union_right

theorem yields_eliminate {head : Nat} {f : Formula} (ring : s.HasRing head f A) :
    (eliminate head).Yields s A fun h s' B => s'.HasRing h f.eliminate B :=
  .get (yields_eliminateTo ring (Nat.le_succ_of_le ring.depth_le_size))

end Builder

end Ring

end Entail
