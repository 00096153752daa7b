import Entail.Proofs.Ring.Ownership
import Entail.Proofs.Ring.Sequence

/-!
# Copies share nothing

Whatever is reached from a copy, through links and through the groups that own
rings, is new, is a member of one ring, and no two groups own that ring.  So
the copied ring, whose tree only old nodes decide, stays as it is whatever is
done to nodes that are reached from the copy.
-/

namespace Entail.Ring.Store

variable {s s' : Store} {A : Set Nat}

/-! ### Owners in a region -/

mutual

theorem HasTree.owned {levels h : Nat} {t : NodeTree} {A : Set Nat}
    (tree : s.HasTree levels h t A) {g b : Nat} (isNode : g ∈ A)
    (isGroup : s.payload g = .ok (.group b)) : b ∈ A ∧ b ≠ h := by
  match tree with
  | .symbol holds | .link holds =>
      cases isNode
      cases holds.payload.symm.trans isGroup
  | .group holds (.ring _ trees) apart =>
      rcases isNode with rfl | isContent
      · cases holds.payload.symm.trans isGroup
        have isHead := trees.mem _ List.mem_cons_self
        exact ⟨.inr isHead, fun same => apart (same ▸ isHead)⟩
      · have isOwned := (trees.owned isContent isGroup).1
        exact ⟨.inr isOwned, fun same => apart (same ▸ isOwned)⟩

/-- The groups of a region own rings that lie in the region and below its own nodes. -/
theorem HasTrees.owned {levels : Nat} {members : List Nat} {ts : List NodeTree} {A : Set Nat}
    (trees : s.HasTrees levels members ts A) {g b : Nat} (isNode : g ∈ A)
    (isGroup : s.payload g = .ok (.group b)) : b ∈ A ∧ b ∉ members := by
  match trees with
  | .nil => exact isNode.elim
  | .cons tree trees apart =>
      rw [List.mem_cons, not_or]
      rcases isNode with isFirst | isRest
      · rcases tree.owned isFirst isGroup with ⟨isOwned, isOther⟩
        exact ⟨.inl isOwned, isOther,
          fun isMember => Set.disjoint_left.1 apart isOwned (trees.mem b isMember)⟩
      · rcases trees.owned isRest isGroup with ⟨isOwned, isOther⟩
        exact ⟨.inr isOwned, fun same => Set.disjoint_left.1 apart (same ▸ tree.mem) isOwned,
          isOther⟩

end

/-- The ring of the node lies in the region apart from the given nodes, and one group of the region
owns it. -/
def OwnedWithin (s : Store) (A : Set Nat) (outer : List Nat) (k : Nat) : Prop :=
  ∃ ring g, k ∈ ring ∧ s.IsRing ring ∧ (∀ m ∈ ring, m ∈ A ∧ m ∉ outer) ∧ g ∈ A ∧ s.Owns g ring ∧
    ∀ other ∈ A, s.Owns other ring → other = g

/-- A region may be extended by nodes that own nothing of what lies below its own nodes. -/
theorem OwnedWithin.extend {A B : Set Nat} {outer outer' : List Nat} {k : Nat}
    (owned : s.OwnedWithin A outer k) (subset : A ⊆ B)
    (apart : ∀ m ∈ A, m ∉ outer → m ∉ outer')
    (others : ∀ g ∈ B, g ∉ A → ∀ b, s.payload g = .ok (.group b) → b ∈ A → b ∈ outer) :
    s.OwnedWithin B outer' k := by
  rcases owned with ⟨ring, g, isMember, isRing, within, isOwner, owns, unique⟩
  refine ⟨ring, g, isMember, isRing, fun m listed => ?_, subset isOwner, owns, ?_⟩
  · rcases within m listed with ⟨isNode, notOuter⟩
    exact ⟨subset isNode, apart m isNode notOuter⟩
  · rintro other isNode ⟨b, listed, isGroup⟩
    by_cases isInner : other ∈ A
    · exact unique other isInner ⟨b, listed, isGroup⟩
    · rcases within b listed with ⟨isOwned, notOuter⟩
      exact absurd (others other isNode isInner b isGroup isOwned) notOuter

mutual

theorem HasTree.ownedWithin {levels h : Nat} {t : NodeTree} {A : Set Nat}
    (tree : s.HasTree levels h t A) : ∀ k ∈ A, k = h ∨ s.OwnedWithin A [h] k := by
  match tree with
  | .symbol _ | .link _ => exact fun k isNode => .inl isNode
  | @HasTree.group _ _ _ head _ _ A holds (.ring isRing trees) apart =>
      rintro k (rfl | isContent)
      · exact .inl rfl
      · right
        rcases trees.ownedWithin k isContent with isMember | owned
        · refine ⟨_, h, isMember, isRing, fun m listed => ?_, .inl rfl,
            ⟨head, List.mem_cons_self, holds.payload⟩, ?_⟩
          · have isNode := trees.mem m listed
            exact ⟨.inr isNode, fun same => apart (List.mem_singleton.1 same ▸ isNode)⟩
          · rintro other (rfl | isInner) ⟨b, listed, isGroup⟩
            · rfl
            · exact absurd listed (trees.owned isInner isGroup).2
        · refine owned.extend (Set.subset_insert h A) ?_ ?_
          · exact fun m isNode _ same => apart (List.mem_singleton.1 same ▸ isNode)
          · rintro g (rfl | isInner) isOuter b isGroup _
            · cases holds.payload.symm.trans isGroup
              exact List.mem_cons_self
            · exact absurd isInner isOuter

/-- Every node of a region is one of its own nodes, or one group of the region owns its ring. -/
theorem HasTrees.ownedWithin {levels : Nat} {members : List Nat} {ts : List NodeTree} {A : Set Nat}
    (trees : s.HasTrees levels members ts A) :
    ∀ k ∈ A, k ∈ members ∨ s.OwnedWithin A members k := by
  match trees with
  | .nil => exact fun k isNode => isNode.elim
  | @HasTrees.cons _ _ h _ members _ A B tree trees apart =>
      have notBoth {k : Nat} (isFirst : k ∈ A) (isRest : k ∈ B) : False :=
        Set.disjoint_left.1 apart isFirst isRest
      rintro k (isFirst | isRest)
      · rcases tree.ownedWithin k isFirst with rfl | owned
        · exact .inl List.mem_cons_self
        · refine .inr (owned.extend Set.subset_union_left (fun m isNode notHead isMember => ?_) ?_)
          · rcases List.mem_cons.1 isMember with rfl | isMember
            · exact notHead List.mem_cons_self
            · exact notBoth isNode (trees.mem m isMember)
          · intro g isNode notFirst b isGroup isOwned
            have isRest := isNode.resolve_left notFirst
            exact (notBoth isOwned (trees.owned isRest isGroup).1).elim
      · rcases trees.ownedWithin k isRest with isMember | owned
        · exact .inl (List.mem_cons_of_mem h isMember)
        · refine .inr (owned.extend Set.subset_union_right (fun m isNode notMember isMember => ?_) ?_)
          · rcases List.mem_cons.1 isMember with rfl | isMember
            · exact notBoth tree.mem isNode
            · exact notMember isMember
          · intro g isNode notRest b isGroup isOwned
            have isFirst := isNode.resolve_right notRest
            exact (notBoth (tree.owned isFirst isGroup).1 isOwned).elim

end

/-! ### What a copy reaches -/

theorem HasTrees.exists_isRing {levels head : Nat} {rest : List Nat} {ts : List NodeTree}
    (trees : s.HasTrees levels (head :: rest) ts A) (isRing : s.IsRing (head :: rest)) :
    ∀ k ∈ A, ∃ members, k ∈ members ∧ s.IsRing members ∧ ∀ m ∈ members, m ∈ A := by
  intro k isNode
  rcases trees.ownedWithin k isNode with isMember | ⟨ring, _, isMember, isRing', within, _⟩
  · exact ⟨_, isMember, isRing, trees.mem⟩
  · exact ⟨ring, isMember, isRing', fun m listed => (within m listed).1⟩

/-- Links and groups do not lead out of the region of a ring. -/
theorem HasTrees.mem_of_reaches {levels head : Nat} {rest : List Nat} {ts : List NodeTree}
    (trees : s.HasTrees levels (head :: rest) ts A) (isRing : s.IsRing (head :: rest))
    {k : Nat} (reaches : s.Reaches head k) : k ∈ A := by
  induction reaches with
  | refl => exact trees.mem head List.mem_cons_self
  | @tail a b _ step ih =>
      rcases trees.exists_isRing isRing a ih with ⟨members, isMember, ring, within⟩
      rcases step with next | prev | isGroup
      · exact within b (ring.mem_of_link isMember (.inl next))
      · exact within b (ring.mem_of_link isMember (.inr prev))
      · exact (trees.owned ih isGroup).1

/-- The node is new, is a member of one ring, and one new group owns this ring, or none if it is the
ring of the head.  Groups do not count that held the handle of no node before. -/
structure IsSeparate (s s' : Store) (head k : Nat) : Prop where
  isNew : s.size ≤ k
  ring : ∃ members, k ∈ members ∧ s'.IsRing members ∧
    (∀ more, s'.IsRing more → k ∈ more → more ~r members) ∧
    (head ∈ members ∧ s.Unowned s' members ∨ head ∉ members ∧ s.OwnedOnce s' members)

/-- What lies in the region of a ring of new nodes is separate from all else. -/
theorem Allocates.isSeparate (allocates : s.Allocates s' A) {levels head : Nat} {rest : List Nat}
    {ts : List NodeTree} (trees : s'.HasTrees levels (head :: rest) ts A)
    (isRing : s'.IsRing (head :: rest)) {k : Nat} (isNode : k ∈ A) : s.IsSeparate s' head k := by
  -- a group that is not in the region was there before and has not changed
  have before {g : Nat} {members : List Nat} (owns : s'.Owns g members) (outside : g ∉ A) :
      s.Owns g members := by
    rcases owns with ⟨b, listed, isGroup⟩
    have old : g < s.size := by
      by_contra isNew
      exact outside (allocates.region ▸ ⟨Nat.le_of_not_lt isNew, lt_size_of_payload isGroup⟩)
    rw [payload, allocates.grown.node g old] at isGroup
    exact ⟨b, listed, isGroup⟩
  have isNew {m : Nat} (isNode : m ∈ A) : s.size ≤ m := by
    rw [allocates.region] at isNode
    exact isNode.1
  refine ⟨isNew isNode, ?_⟩
  rcases trees.ownedWithin k isNode with isMember | owned
  · refine ⟨_, isMember, isRing, fun more isRing' isOther =>
      isRing'.isRotated isRing isOther isMember, .inl ⟨List.mem_cons_self, fun g owns => ?_⟩⟩
    by_contra notBefore
    rcases owns with ⟨b, listed, isGroup⟩
    have isInner := not_not.1 (mt (before ⟨b, listed, isGroup⟩) notBefore)
    exact (trees.owned isInner isGroup).2 listed
  · rcases owned with ⟨ring, g, isMember, isRing', within, isOwner, owns, unique⟩
    refine ⟨ring, isMember, isRing', fun more isRing'' isOther =>
      isRing''.isRotated isRing' isOther isMember, .inr ⟨fun isHead => ?_, g, isNew isOwner, owns, ?_⟩⟩
    · exact (within head isHead).2 List.mem_cons_self
    · intro other owns'
      by_cases isInner : other ∈ A
      · exact .inl (unique other isInner owns')
      · exact .inr (before owns' isInner)

/-- Where no ring below a node contains itself, the ring of the node is copied to one of the same
tree, and no node that there was changes.  What is reached from the copy is separate from all else,
so that whatever is done to it afterwards, the tree of the copied ring stays the same. -/
theorem Consistent.copy_isSeparate (consistent : s.Consistent) {h : Nat}
    (acyclic : s.IsAcyclic h) :
    ∃ s' copied ts, s.copy h = .ok (s', copied) ∧ s.tree h = .ok ts ∧ s'.tree copied = .ok ts ∧
      s.Extends s' ∧ (∀ k, s'.Reaches copied k → s.IsSeparate s' copied k) ∧
      ∀ s'' : Store, s'.size ≤ s''.size →
        (∀ k < s'.size, ¬s'.Reaches copied k → s''.node k = s'.node k) →
        s''.tree h = .ok ts := by
  rcases consistent.exists_copy acyclic with ⟨ts, found, s', copied, A, ran, allocates, ring⟩
  have found' : s'.tree copied = .ok ts :=
    treeTo_mono ring.treeTo (Nat.succ_le_succ allocates.grown.size)
  rcases ring with ⟨isRing, trees⟩
  have separate : ∀ k, s'.Reaches copied k → s.IsSeparate s' copied k := fun k reaches =>
    allocates.isSeparate trees isRing (trees.mem_of_reaches isRing reaches)
  refine ⟨s', copied, ts, ran, found, found', allocates.grown, separate, ?_⟩
  intro s'' size kept
  have grown : s.Extends s'' := by
    refine ⟨Nat.le_trans allocates.grown.size size, fun k old => ?_⟩
    have notReached : ¬s'.Reaches copied k := fun reaches =>
      Nat.not_lt.2 (separate k reaches).isNew old
    rw [kept k (Nat.lt_of_lt_of_le old allocates.grown.size) notReached,
      allocates.grown.node k old]
  exact grown.tree consistent found

/-- Two groups that own one ring are copied with a ring each. -/
theorem Consistent.copy_isSeparate_of_shared_ring : ∃ (s s' : Store) (copied : Nat),
    s.Consistent ∧ s.IsAcyclic 1 ∧ s.text 1 = .ok "(a)&~(a)" ∧ s.copy 1 = .ok (s', copied) ∧
      s'.text copied = .ok "(a)&~(a)" ∧ ∀ k, s'.Reaches copied k → s.IsSeparate s' copied k := by
  have permitted : Operation.ArePermitted .empty [.add (.symbol "a") false, .add (.group 0) false,
      .add (.link .conj) false, .add (.group 0) true, .linkAll 1 [2, 3]] := by
    refine .cons rfl trivial (.cons rfl trivial (.cons rfl trivial (.cons rfl trivial
      (.cons rfl ?_ trivial))))
    exact ⟨by decide, by simp only [List.forall_mem_cons]; exact ⟨rfl, rfl, rfl, nofun⟩⟩
  rcases Operation.exists_foldlM_run consistent_empty permitted with ⟨s, ran, consistent⟩
  have known : s.size = 4 ∧ s.walk 0 = .ok [0] ∧ s.payload 0 = .ok (.symbol "a") ∧
      (∀ m b, s.payload m = .ok (.group b) → b = 0) ∧ s.text 1 = .ok "(a)&~(a)" ∧
      ∃ copy, s.copy 1 = .ok copy ∧ copy.1.text copy.2 = .ok "(a)&~(a)" := by
    cases ran
    refine ⟨rfl, rfl, rfl, ?_, by decide +kernel, by decide +kernel⟩
    rintro (_ | _ | _ | _ | m) b isGroup <;> cases isGroup <;> rfl
  rcases known with ⟨size, walked, symbol, groups, text, ⟨s', copied⟩, copies, text'⟩
  -- the only ring that is owned is that of the symbol, which owns none
  have contained {a b : Nat} (contains : s.Contains a b) : b = 0 ∧ a ≠ 0 := by
    rcases contains with ⟨members, m, walked', isMember, isGroup⟩
    refine ⟨groups m b isGroup, ?_⟩
    rintro rfl
    cases walked.symm.trans walked'
    rw [List.mem_singleton.1 isMember, symbol] at isGroup
    cases isGroup
  have acyclic : s.IsAcyclic 1 := by
    refine fun a reached => ⟨?_, fun cycle => ?_⟩
    · rcases Relation.ReflTransGen.cases_tail reached with rfl | ⟨_, _, contains⟩
      · omega
      · have := (contained contains).1
        omega
    · rcases Relation.TransGen.tail'_iff.1 cycle with ⟨_, _, last⟩
      rcases Relation.TransGen.head'_iff.1 cycle with ⟨_, first, _⟩
      exact (contained first).2 (contained last).1
  rcases consistent.copy_isSeparate acyclic with ⟨_, _, _, copies', _, _, _, separate, _⟩
  cases copies.symm.trans copies'
  exact ⟨s, s', copied, consistent, acyclic, text, copies, text', separate⟩

end Entail.Ring.Store
