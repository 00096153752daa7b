import Entail.Proofs.Ring.Rule

/-!
# Going through rings

A ring is gone through member by member.  What is done to a member may change
all that it owns but not its links, so that the ring stays as it is.
-/

namespace Entail.Ring

namespace Store

/-- The links of a node have not changed. -/
def SameLinks (s s' : Store) (h : Nat) : Prop :=
  s'.next h = s.next h ∧ s'.prev h = s.prev h

variable {s s' s'' : Store}

theorem SameLinks.of_node {h : Nat} (same : s'.node h = s.node h) : s.SameLinks s' h :=
  ⟨next_eq_of_node same, prev_eq_of_node same⟩

theorem SameLinks.trans {h : Nat} (first : s.SameLinks s' h) (second : s'.SameLinks s'' h) :
    s.SameLinks s'' h :=
  ⟨second.1.trans first.1, second.2.trans first.2⟩

theorem Retains.sameLinks {h : Nat} (retains : s.Retains s' h) (k : Nat) : s.SameLinks s' k :=
  ⟨retains.next k, retains.prev k⟩

theorem IsRing.congr_sameLinks {members : List Nat} (isRing : s.IsRing members)
    (same : ∀ m ∈ members, s.SameLinks s' m) : s'.IsRing members :=
  isRing.congr_links (fun m isMember => (same m isMember).1) fun m isMember => (same m isMember).2

end Store

open Store

namespace Builder

/-- The step turns a node that holds the one part into one that holds the other, and leaves its
links alone. -/
def Turns (step : Nat → Builder Unit) (p q : Part) : Prop :=
  ∀ (s : Store) h A, s.HasPart h p A → (step h).Yields s A fun _ s' B =>
    s'.HasPart h q B ∧ s.SameLinks s' h

variable {s : Store} {A : Set Nat} {step : Nat → Builder Unit} {ps qs : List Part}

theorem Turns.comp {step' : Nat → Builder Unit} {p q r : Part} (first : Turns step p q)
    (second : Turns step' q r) : Turns (fun h => do step h; step' h) p r := by
  intro s h A part
  refine (first s h A part).bind Set.Subset.rfl fun _ s₁ B _ turned => ?_
  rcases turned with ⟨part, same⟩
  refine ((second s₁ h B part).imp ?_).mono Set.subset_union_right
  rintro _ s₂ C _ ⟨part, same'⟩
  exact ⟨part, same.trans same'⟩

/-- The members of a row are turned one after the other. -/
theorem yields_forM_turns {members : List Nat} (row : s.HasParts members ps A)
    (turns : List.Forall₂ (Turns step) ps qs) :
    (members.forM step).Yields s A fun _ s' B => s'.HasParts members qs B ∧
      ∀ m ∈ members, s.SameLinks s' m := by
  induction turns generalizing s members A with
  | nil =>
      cases row
      exact .pure Set.Subset.rfl ⟨.nil, List.forall_mem_nil _⟩
  | cons turn _ ih =>
      cases row with
      | @cons h _ members _ X Y part row apart =>
          refine (turn s h X part).bind Set.subset_union_left fun _ s₁ X' evolves turned => ?_
          rcases turned with ⟨part', sameFirst⟩
          have kept := evolves.node_of_disjoint apart row.lt_size
          have sameRest : ∀ m ∈ members, s.SameLinks s₁ m := fun m isMember =>
            .of_node (kept m (row.mem m isMember))
          rcases evolves.parts row apart with ⟨row, apart'⟩
          refine (ih row).frame (R := X') (by grind) fun _ s₂ Y' evolves' turned => ?_
          rcases turned with ⟨row', sameLinks⟩
          have kept' := evolves'.node_of_disjoint apart'.symm part'.lt_size
          rcases evolves'.part part' apart'.symm with ⟨part', apart''⟩
          rw [Set.union_comm]
          refine ⟨.cons part' row' apart''.symm, List.forall_mem_cons.2 ⟨?_, fun m isMember => ?_⟩⟩
          · exact sameFirst.trans (.of_node (kept' h part'.mem))
          · exact (sameRest m isMember).trans (sameLinks m isMember)

/-- The members of a ring are turned one after the other, and the ring stays as it is. -/
theorem Yields.walk_turns {α : Type} {head : Nat} {x : Builder α}
    {post : α → Store → Set Nat → Prop} (row : s.HasRow head ps A)
    (turns : List.Forall₂ (Turns step) ps qs)
    (rest : ∀ s' B, s.Evolves s' A B → s'.HasRow head qs B → Yields x s' (A ∪ B) post) :
    Yields (do (← Builder.read (·.walk head)).forM step; x) s A post := by
  rcases row with ⟨others, isRing, row⟩
  refine .read (walk_ring isRing) ((yields_forM_turns row turns).bind Set.Subset.rfl ?_)
  rintro _ s' B evolves ⟨row', same⟩
  exact rest s' B evolves ⟨others, isRing.congr_sameLinks same, row'⟩

/-! ### Changing the rings of groups -/

theorem turns_regroup_symbol (inner : Nat → Builder Nat) (negated : Bool) (name : String) :
    Turns (regroup inner) (.operand (.symbol negated name)) (.operand (.symbol negated name)) := by
  intro s h A part
  have payload : s.payload h = .ok (.symbol name) := by
    cases part with
    | symbol holds => exact holds.payload
  exact .read payload (.pure Set.Subset.rfl ⟨part, .of_node rfl⟩)

theorem turns_regroup_link (inner : Nat → Builder Nat) (c : Connective) :
    Turns (regroup inner) (.link c) (.link c) := by
  intro s h A part
  have payload : s.payload h = .ok (.link c) := by
    cases part with
    | link holds => exact holds.payload
  exact .read payload (.pure Set.Subset.rfl ⟨part, .of_node rfl⟩)

/-- The ring of a group is changed as its head is. -/
theorem turns_regroup_group {inner : Nat → Builder Nat} {f g : Formula}
    (changes : ∀ (s : Store) head A, s.HasRing head f A →
      (inner head).Yields s A fun head' s' B => s'.HasRing head' g B) (negated : Bool) :
    Turns (regroup inner) (.operand (.group negated f)) (.operand (.group negated g)) := by
  intro s h A part
  rcases hasPart_group_iff.1 part with ⟨head, B, rfl, holds, ring, apart⟩
  refine .read holds.payload ?_
  have apart' : Disjoint B {h} := Set.disjoint_singleton_right.2 apart
  have old : ∀ k ∈ ({h} : Set Nat), k < s.size := by
    rintro k rfl
    exact holds.lt_size
  refine (changes s head B ring).bind (Set.subset_insert h B) fun head' s₁ C evolves ring' => ?_
  have same := evolves.node_of_disjoint apart' old h rfl
  have apart₁ := Set.disjoint_singleton_right.1 (evolves.disjoint apart' old)
  rcases (holds.congr_node same).exists_setPayload (.group head') with
    ⟨s₂, changed, holds', retains⟩
  refine .edit changed (retains.evolves (by grind) (B := insert h C) (by grind)) ⟨?_, ?_⟩
  · refine hasPart_group_iff.2 ⟨head', C, rfl, holds', ?_, apart₁⟩
    exact ring'.congr fun k isNode => retains.node k fun same => apart₁ (same ▸ isNode)
  · exact (SameLinks.of_node same).trans (retains.sameLinks h)

end Builder

end Entail.Ring
