import Entail.Proofs.Ring.Making

/-!
# Copies

A copy of a formula takes up new nodes only, and the formula that is copied
stays where it is; groups that own one ring are copied with a ring each.
-/

namespace Entail.Ring

namespace Store

variable {s : Store} {A R : Set Nat}

/-- The outcome is a new ring of the given parts. -/
def Copies (s : Store) (outcome : Except Error (Store × Nat)) (parts : List Part) : Prop :=
  ∃ s' copied B, outcome = .ok (s', copied) ∧ s'.HasRow copied parts B ∧ s.Evolves s' ∅ B

/-- A node is copied if the rings that it may own are. -/
theorem ShowsPart.copies {inner : Store → Nat → Except Error (Store × Nat)} {h : Nat} {p : Part}
    (part : s.ShowsPart h p)
    (each : ∀ head f, f.depth ≤ p.depth → s.Shows head f → s.Copies (inner s head) f.parts) :
    s.Copies (copyNodeWith inner s h) [p] := by
  cases part with
  | symbol holds =>
      rcases holds.exists_node with ⟨⟨_, _, _, _⟩, found, rfl, rfl⟩
      refine ⟨_, s.size, {s.size}, ?_, hasRow_singleton_iff.2 ⟨s.isRing_add _ _,
        .symbol (s.holds_add _ _)⟩, (s.evolves_add _ _ ∅).restrict (by simp)⟩
      simp only [copyNodeWith, found, bind, Except.bind]
      rfl
  | link holds =>
      rcases holds.exists_node with ⟨⟨_, negated, _, _⟩, found, rfl, same⟩
      replace same : negated = false := same
      subst same
      refine ⟨_, s.size, {s.size}, ?_, hasRow_singleton_iff.2 ⟨s.isRing_add _ _,
        .link (s.holds_add _ _)⟩, (s.evolves_add _ _ ∅).restrict (by simp)⟩
      simp only [copyNodeWith, found, bind, Except.bind]
      rfl
  | @group _ head negated _ content holds isRing row =>
      rcases each head content (Nat.le_refl _) ⟨_, isRing, row⟩ with
        ⟨s', copied, B, ran, ring, evolves⟩
      rcases Builder.yields_addGroup ring negated with ⟨g, s'', C, added, evolves', group⟩
      cases added
      refine ⟨_, s'.size, C, ?_, group, evolves.trans (evolves'.mono Set.subset_union_right)⟩
      rcases holds.exists_node with ⟨⟨_, _, _, _⟩, found, rfl, rfl⟩
      simp only [copyNodeWith, found, bind, Except.bind, ran]
      rfl

/-- The copies of the members of a row are put at the end of a ring of new nodes. -/
theorem ShowsParts.exists_foldlM_copy {inner : Store → Nat → Except Error (Store × Nat)}
    {members : List Nat} {parts done : List Part} {levels head : Nat}
    (row : s.ShowsParts members parts) (shallow : ∀ p ∈ parts, p.depth ≤ levels)
    (each : ∀ (s : Store) head f, f.depth ≤ levels → s.Shows head f →
      s.Copies (inner s head) f.parts) {s₁ : Store} (evolves : s.Evolves s₁ ∅ A)
    (ring : s₁.HasRow head done A) :
    ∃ s' B, members.foldlM (fun s n => do
        let (s, copied) ← copyNodeWith inner s n
        s.insertBefore head copied) s₁ = .ok s' ∧ s'.HasRow head (done ++ parts) B ∧
      s.Evolves s' ∅ B := by
  induction members generalizing s₁ parts done A with
  | nil =>
      cases row with
      | nil => exact ⟨s₁, A, rfl, by rwa [List.append_nil], evolves⟩
  | cons h members ih =>
      cases row with
      | @cons _ p _ _ part row =>
          rcases List.forall_mem_cons.1 shallow with ⟨first, rest⟩
          rcases (part.congr evolves.keeps).copies fun head f enough ring =>
            each s₁ head f (Nat.le_trans enough first) ring with
            ⟨s₂, copied, B, ran, single, evolves₂⟩
          rcases evolves₂.row ring (Set.empty_disjoint A) with ⟨ring, apart⟩
          rcases ring.exists_insertBefore single apart.symm with ⟨s₃, inserted, ring, evolves₃⟩
          have added := (evolves₂.mono (Set.empty_subset A)).trans evolves₃
          rcases ih row rest (evolves.trans (added.mono Set.subset_union_right)) ring with
            ⟨s', E, folded, ring, evolves⟩
          rw [List.append_assoc] at ring
          refine ⟨s', E, ?_, ring, evolves⟩
          simp only [List.foldlM_cons, ran, bind, Except.bind, inserted]
          exact folded

/-- The ring that shows a formula is copied. -/
theorem Shows.copies_copyTo {levels head : Nat} {f : Formula} (ring : s.Shows head f)
    (enough : f.depth ≤ levels) : s.Copies (copyTo levels s head) f.parts := by
  induction levels generalizing s head f with
  | zero => exact absurd (Nat.le_trans f.one_le_depth enough) (Nat.not_succ_le_zero 0)
  | succ levels ih =>
      rcases ring with ⟨rest, isRing, row⟩
      have shallow := Formula.depth_le_succ_iff.1 enough
      have each := fun s head f enough ring => @ih s head f ring enough
      rcases List.exists_cons_of_ne_nil f.parts_ne_nil with ⟨p, parts, split⟩
      rw [split] at row shallow ⊢
      rcases List.forall_mem_cons.1 shallow with ⟨first, shallow⟩
      cases row with
      | cons part row =>
          rcases part.copies fun head f enough ring =>
            each s head f (Nat.le_trans enough first) ring with
            ⟨s₁, copied, B, ran, single, evolves⟩
          rcases row.exists_foldlM_copy shallow each evolves single with
            ⟨s', E, folded, ring, evolves'⟩
          refine ⟨s', copied, E, ?_, ring, evolves'⟩
          simp only [bind, Except.bind] at folded
          simp only [copyTo, walk_ring isRing, bind, Except.bind, ran, List.tail_cons, folded]
          rfl

end Store

namespace Builder

open Store

variable {s : Store} {R : Set Nat}

theorem yields_takeOut {copied : Store → Except Error (Store × Nat)} {parts : List Part}
    (copies : s.Copies (copied s) parts) :
    (takeOut copied).Yields s ∅ fun h s' B => s'.HasRow h parts B := by
  rcases copies with ⟨s', h, B, ran, row, evolves⟩
  exact ⟨h, s', B, takeOut_of_ok ran, evolves, row⟩

theorem yields_copyNode {h : Nat} {p : Part} (part : s.ShowsPart h p) :
    (copyNode h).Yields s ∅ fun k s' B => s'.HasRow k [p] B :=
  yields_takeOut <| part.copies fun _ _ _ ring => ring.copies_copyTo ring.depth_le_size

/-- The copy of a ring that shows a formula takes up a region of its own. -/
theorem yields_copy {head : Nat} {f : Formula} (ring : s.Shows head f) :
    (copy head).Yields s ∅ fun k s' B => s'.HasRing k f B :=
  yields_takeOut (ring.copies_copyTo (Nat.le_succ_of_le ring.depth_le_size))

end Builder

end Entail.Ring
