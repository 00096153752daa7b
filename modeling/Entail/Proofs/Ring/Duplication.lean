import Mathlib.Order.Interval.Set.Disjoint
import Entail.Proofs.Ring.Region
import Entail.Proofs.Ring.Tree
import Entail.Ring.Copy

/-!
# Copies in consistent stores

A ring can be copied whatever its nodes hold, if no ring below it leads back to
itself through the groups that own rings.  The copy has the same tree, and it
takes up all the nodes that are new, each of them in one place of the tree even
where the original has a ring that several groups own.
-/

namespace Entail.Ring.Store

variable {s s' s'' : Store}

/-! ### Regions of trees -/

mutual

/-- The node has the tree, up to the given number of levels of groups, and it takes up the region
with the rings below it. -/
inductive HasTree (s : Store) : Nat → Nat → NodeTree → Set Nat → Prop
  | symbol {levels h : Nat} {negated : Bool} {name : String} : s.Holds h (.symbol name) negated →
      HasTree s levels h (.symbol negated name) {h}
  | link {levels h : Nat} {negated : Bool} {c : Connective} : s.Holds h (.link c) negated →
      HasTree s levels h (.link negated c) {h}
  | group {levels h head : Nat} {negated : Bool} {content : List NodeTree} {A : Set Nat} :
      s.Holds h (.group head) negated → HasTreeRing s levels head content A → h ∉ A →
      HasTree s levels h (.group negated content) (insert h A)

/-- The nodes have the trees, which take up disjoint parts of the region. -/
inductive HasTrees (s : Store) : Nat → List Nat → List NodeTree → Set Nat → Prop
  | nil {levels : Nat} : HasTrees s levels [] [] ∅
  | cons {levels h : Nat} {t : NodeTree} {members : List Nat} {ts : List NodeTree}
      {A B : Set Nat} : HasTree s levels h t A → HasTrees s levels members ts B → Disjoint A B →
      HasTrees s levels (h :: members) (t :: ts) (A ∪ B)

/-- The members of the ring have the trees, which take up the region. -/
inductive HasTreeRing (s : Store) : Nat → Nat → List NodeTree → Set Nat → Prop
  | ring {levels head : Nat} {rest : List Nat} {ts : List NodeTree} {A : Set Nat} :
      s.IsRing (head :: rest) → HasTrees s levels (head :: rest) ts A →
      HasTreeRing s (levels + 1) head ts A

end

theorem HasTree.mem {levels h : Nat} {t : NodeTree} {A : Set Nat}
    (tree : s.HasTree levels h t A) : h ∈ A := by
  cases tree with
  | symbol | link => exact Set.mem_singleton h
  | group => exact Set.mem_insert ..

theorem HasTrees.mem {levels : Nat} {members : List Nat} {ts : List NodeTree} {A : Set Nat}
    (trees : s.HasTrees levels members ts A) : ∀ m ∈ members, m ∈ A := by
  match trees with
  | .nil => exact List.forall_mem_nil _
  | .cons tree trees _ =>
      exact List.forall_mem_cons.2 ⟨.inl tree.mem, fun m isMember => .inr (trees.mem m isMember)⟩

mutual

theorem HasTree.congr {levels h : Nat} {t : NodeTree} {A : Set Nat}
    (tree : s.HasTree levels h t A) (node : ∀ k ∈ A, s'.node k = s.node k) :
    s'.HasTree levels h t A := by
  match tree with
  | .symbol holds => exact .symbol (holds.congr_node (node _ rfl))
  | .link holds => exact .link (holds.congr_node (node _ rfl))
  | .group holds ring apart =>
      exact .group (holds.congr_node (node _ (.inl rfl)))
        (ring.congr fun k isContent => node k (.inr isContent)) apart

/-- The trees stay where they are while their region does not change. -/
theorem HasTrees.congr {levels : Nat} {members : List Nat} {ts : List NodeTree} {A : Set Nat}
    (trees : s.HasTrees levels members ts A) (node : ∀ k ∈ A, s'.node k = s.node k) :
    s'.HasTrees levels members ts A := by
  match trees with
  | .nil => exact .nil
  | .cons tree trees apart =>
      exact .cons (tree.congr fun k isFirst => node k (.inl isFirst))
        (trees.congr fun k isRest => node k (.inr isRest)) apart

theorem HasTreeRing.congr {levels head : Nat} {ts : List NodeTree} {A : Set Nat}
    (ring : s.HasTreeRing levels head ts A) (node : ∀ k ∈ A, s'.node k = s.node k) :
    s'.HasTreeRing levels head ts A := by
  match ring with
  | .ring isRing trees =>
      exact .ring (isRing.congr fun k isMember => node k (trees.mem k isMember)) (trees.congr node)

end

mutual

theorem HasTree.readsTree {levels h : Nat} {t : NodeTree} {A : Set Nat}
    (tree : s.HasTree levels h t A) :
    s.ReadsTree (s.treeTo levels) h t := by
  match tree with
  | .symbol holds => exact .symbol holds
  | .link holds => exact .link holds
  | .group holds ring _ => exact .group holds ring.treeTo

theorem HasTrees.mapM {levels : Nat} {members : List Nat} {ts : List NodeTree} {A : Set Nat}
    (trees : s.HasTrees levels members ts A) :
    members.mapM (s.nodeTreeWith (s.treeTo levels)) = .ok ts := by
  match trees with
  | .nil => rfl
  | .cons tree trees _ =>
      rw [List.mapM_cons, nodeTreeWith_eq_ok_iff.2 tree.readsTree, trees.mapM]
      rfl

/-- The trees that lie in a region are found there. -/
theorem HasTreeRing.treeTo {levels head : Nat} {ts : List NodeTree} {A : Set Nat}
    (ring : s.HasTreeRing levels head ts A) : s.treeTo levels head = .ok ts := by
  match ring with
  | .ring isRing trees => exact treeTo_succ_eq_ok_iff.2 ⟨_, walk_ring isRing, trees.mapM⟩

end

/-- Another tree is put behind the others. -/
theorem HasTrees.concat {levels : Nat} {members : List Nat} {ts : List NodeTree} {h : Nat}
    {t : NodeTree} {A B : Set Nat} (trees : s.HasTrees levels members ts A)
    (tree : s.HasTree levels h t B) (apart : Disjoint A B) :
    s.HasTrees levels (members ++ [h]) (ts ++ [t]) (A ∪ B) := by
  match trees with
  | .nil => simpa using HasTrees.cons tree .nil (Set.disjoint_empty B)
  | .cons first trees apart' =>
      rcases Set.disjoint_union_left.1 apart with ⟨apartFirst, apartRest⟩
      rw [Set.union_assoc]
      exact .cons first (trees.concat tree apartRest)
        (Set.disjoint_union_right.2 ⟨apart', apartFirst⟩)

theorem HasTree.relinks {changed : List Nat} {levels h : Nat} {t : NodeTree} {A : Set Nat}
    (tree : s.HasTree levels h t A) (relinks : s.Relinks s' changed)
    (outside : ∀ k ∈ A, k ∈ changed → k = h) : s'.HasTree levels h t A := by
  cases tree with
  | symbol holds => exact .symbol (holds.congr (relinks.payload h) (relinks.negated h))
  | link holds => exact .link (holds.congr (relinks.payload h) (relinks.negated h))
  | group holds ring apart =>
      refine .group (holds.congr (relinks.payload h) (relinks.negated h)) (ring.congr ?_) apart
      intro k isContent
      exact relinks.node k fun isChanged => apart (outside k (.inr isContent) isChanged ▸ isContent)

/-- The trees stay where they are if links of their own nodes are changed. -/
theorem HasTrees.relinks {members changed : List Nat} {levels : Nat} {ts : List NodeTree}
    {A : Set Nat} (trees : s.HasTrees levels members ts A)
    (relinks : s.Relinks s' changed) (outside : ∀ k ∈ A, k ∈ changed → k ∈ members) :
    s'.HasTrees levels members ts A := by
  match trees with
  | .nil => exact .nil
  | .cons tree trees apart =>
      refine .cons (tree.relinks relinks ?_) (trees.relinks relinks ?_) apart
      · intro k isFirst isChanged
        refine (List.mem_cons.1 (outside k (.inl isFirst) isChanged)).resolve_right fun isRest => ?_
        exact Set.disjoint_left.1 apart isFirst (trees.mem k isRest)
      · intro k isRest isChanged
        refine (List.mem_cons.1 (outside k (.inr isRest) isChanged)).resolve_left ?_
        rintro rfl
        exact Set.disjoint_left.1 apart tree.mem isRest

/-! ### Copies -/

variable {levels : Nat} {A B : Set Nat}

/-- The second store is consistent and has all nodes of the first one as they were, and the region
consists of its other nodes. -/
structure Allocates (s s' : Store) (A : Set Nat) : Prop where
  consistent : s'.Consistent
  grown : s.Extends s'
  region : A = Set.Ico s.size s'.size

theorem Consistent.allocates (consistent : s.Consistent) : s.Allocates s ∅ :=
  ⟨consistent, .refl s, (Set.Ico_self s.size).symm⟩

namespace Allocates

theorem trans (first : s.Allocates s' A) (second : s'.Allocates s'' B) :
    s.Allocates s'' (A ∪ B) where
  consistent := second.consistent
  grown := first.grown.trans second.grown
  region := by
    rw [first.region, second.region,
      Set.Ico_union_Ico_eq_Ico first.grown.size second.grown.size]

theorem disjoint (first : s.Allocates s' A) (second : s'.Allocates s'' B) : Disjoint A B := by
  rw [first.region, second.region]
  exact Set.Ico_disjoint_Ico_same

/-- What lies in the region of the first nodes stays there. -/
theorem node (first : s.Allocates s' A) (second : s'.Extends s'') :
    ∀ k ∈ A, s''.node k = s'.node k := by
  rw [first.region]
  exact fun k isNew => second.node k isNew.2

theorem add (allocates : s.Allocates s' A) (payload : Payload) (negated : Bool) :
    s.Allocates (s'.add payload negated) (insert s'.size A) where
  consistent := allocates.consistent.add payload negated
  grown := allocates.grown.trans (.add s' payload negated)
  region := by
    have whole := allocates.grown.size
    ext k
    rw [allocates.region, size_add, Set.mem_insert_iff, Set.mem_Ico, Set.mem_Ico]
    omega

/-- Links of new nodes are changed. -/
theorem relinks (allocates : s.Allocates s' A) {changed : List Nat}
    (relinks : s'.Relinks s'' changed) (consistent : s''.Consistent)
    (within : ∀ k ∈ changed, k ∈ A) : s.Allocates s'' A := by
  refine ⟨consistent, ⟨relinks.size.symm ▸ allocates.grown.size, fun k old => ?_⟩,
    relinks.size.symm ▸ allocates.region⟩
  rw [relinks.node k fun isChanged => ?_, allocates.grown.node k old]
  have isNew := within k isChanged
  rw [allocates.region] at isNew
  exact absurd old (Nat.not_lt.2 isNew.1)

end Allocates

/-- The outcome is a ring of new nodes with the given trees. -/
def Duplicates (s : Store) (levels : Nat) (outcome : Except Error (Store × Nat))
    (ts : List NodeTree) : Prop :=
  ∃ s' copied A, outcome = .ok (s', copied) ∧ s.Allocates s' A ∧ s'.HasTreeRing levels copied ts A

/-- A node is copied to a ring by itself, if the ring that it may own is copied. -/
theorem Consistent.exists_copyNodeWith {inner : Store → Nat → Except Error (Store × Nat)}
    (consistent : s.Consistent) {h : Nat} {t : NodeTree}
    (reads : s.ReadsTree (s.treeTo levels) h t)
    (each : ∀ head ts, s.treeTo levels head = .ok ts → s.Duplicates levels (inner s head) ts) :
    ∃ s' copied A, copyNodeWith inner s h = .ok (s', copied) ∧ s.Allocates s' A ∧
      s'.IsRing [copied] ∧ s'.HasTree levels copied t A := by
  cases reads with
  | @symbol negated name holds =>
      rcases holds.exists_node with ⟨⟨_, sign, _, _⟩, found, rfl, rfl⟩
      refine ⟨_, s.size, _, ?_, consistent.allocates.add (.symbol name) sign, s.isRing_add _ _, ?_⟩
      · simp only [copyNodeWith, found, bind, Except.bind]
        rfl
      · rw [insert_empty_eq]
        exact .symbol (s.holds_add _ _)
  | @link negated c holds =>
      rcases holds.exists_node with ⟨⟨_, sign, _, _⟩, found, rfl, rfl⟩
      refine ⟨_, s.size, _, ?_, consistent.allocates.add (.link c) sign, s.isRing_add _ _, ?_⟩
      · simp only [copyNodeWith, found, bind, Except.bind]
        rfl
      · rw [insert_empty_eq]
        exact .link (s.holds_add _ _)
  | @group negated head content holds inside =>
      rcases each head content inside with ⟨s', copied, A, ran, allocates, ring⟩
      rcases holds.exists_node with ⟨⟨_, sign, _, _⟩, found, rfl, rfl⟩
      refine ⟨_, s'.size, _, ?_, allocates.add (.group copied) sign, s'.isRing_add _ _,
        .group (s'.holds_add _ _) (ring.congr (allocates.node (.add s' _ _))) ?_⟩
      · simp only [copyNodeWith, found, bind, Except.bind, ran]
        rfl
      · rw [allocates.region]
        exact fun isOld => Nat.lt_irrefl _ isOld.2

/-- The copies of nodes are put at the end of a ring of new nodes one after the other. -/
theorem Consistent.exists_foldlM_copy {inner : Store → Nat → Except Error (Store × Nat)}
    {members rest : List Nat} {head : Nat} {ts done : List NodeTree} (consistent : s.Consistent)
    (reads : List.Forall₂ (s.ReadsTree (s.treeTo levels)) members ts)
    (each : ∀ (s : Store) head ts, s.Consistent → s.treeTo levels head = .ok ts →
      s.Duplicates levels (inner s head) ts)
    {s₁ : Store} (allocates : s.Allocates s₁ A) (ring : s₁.IsRing (head :: rest))
    (trees : s₁.HasTrees levels (head :: rest) done A) :
    ∃ s', members.foldlM (fun s n => do
        let (s, copied) ← copyNodeWith inner s n
        s.insertBefore head copied) s₁ = .ok s' ∧
      ∃ B, s.Allocates s' B ∧ s'.HasTreeRing (levels + 1) head (done ++ ts) B := by
  induction reads generalizing s₁ rest done A with
  | nil => exact ⟨s₁, rfl, A, allocates, by simpa using HasTreeRing.ring ring trees⟩
  | @cons m t members ts first reads ih =>
      have grown := allocates.grown
      rcases allocates.consistent.exists_copyNodeWith (grown.readsTree consistent first)
        (fun head ts => each s₁ head ts allocates.consistent) with
        ⟨s₂, copied, B, ran, allocates₂, single, tree⟩
      have apart := allocates.disjoint allocates₂
      have kept := allocates.node allocates₂.grown
      have trees₂ := trees.congr kept
      have ring₂ := ring.congr fun k isMember => kept k (trees.mem k isMember)
      have isNew : copied ∉ head :: rest := fun isMember =>
        Set.disjoint_left.1 apart (trees.mem copied isMember) tree.mem
      rcases allocates₂.consistent.exists_append ring₂ single isNew with
        ⟨s₃, ran', consistent₃, ring₃, relinks⟩
      have both := trees₂.concat tree apart
      have trees₃ := both.relinks relinks fun k _ isChanged => isChanged
      rcases ih ((allocates.trans allocates₂).relinks relinks consistent₃ both.mem) ring₃ trees₃ with
        ⟨s', folded, whole⟩
      rw [List.append_assoc] at whole
      refine ⟨s', ?_, whole⟩
      simp only [List.foldlM_cons, ran, bind, Except.bind, ran']
      exact folded

/-- A ring is copied with the levels that find its trees. -/
theorem Consistent.duplicates_copyTo (consistent : s.Consistent) {h : Nat} {ts : List NodeTree}
    (found : s.treeTo levels h = .ok ts) : s.Duplicates levels (copyTo levels s h) ts := by
  induction levels generalizing s h ts with
  | zero => cases found
  | succ levels ih =>
      have each := fun s head ts consistent found => @ih s consistent head ts found
      rcases treeTo_succ_eq_ok_iff.1 found with ⟨members, walked, found⟩
      rcases consistent.exists_walk (lt_size_of_walk walked) with ⟨rest, walked', _⟩
      cases walked.symm.trans walked'
      have reads := (forall₂_of_mapM found).imp fun _ _ => nodeTreeWith_eq_ok_iff.1
      rcases reads with _ | @⟨_, t, _, ts, first, reads⟩
      rcases consistent.exists_copyNodeWith first (fun head ts => each s head ts consistent) with
        ⟨s₁, copied, A, ran, allocates, single, tree⟩
      have trees : s₁.HasTrees levels [copied] [t] A := by
        simpa using HasTrees.cons tree .nil (Set.disjoint_empty A)
      rcases consistent.exists_foldlM_copy reads each allocates single trees with
        ⟨s', folded, B, whole, ring⟩
      refine ⟨s', copied, B, ?_, whole, ring⟩
      simp only [bind, Except.bind] at folded
      simp only [copyTo, walked, bind, Except.bind, ran, List.tail_cons, folded]
      rfl

/-- A ring whose groups lead to no ring that contains itself is copied. -/
theorem Consistent.exists_copy (consistent : s.Consistent) {h : Nat} (acyclic : s.IsAcyclic h) :
    ∃ ts, s.tree h = .ok ts ∧ s.Duplicates (s.size + 1) (s.copy h) ts := by
  rcases consistent.exists_tree acyclic with ⟨ts, found⟩
  exact ⟨ts, found, consistent.duplicates_copyTo found⟩

/-- A node is copied if the ring that it may own can be copied. -/
theorem Consistent.exists_copyNode (consistent : s.Consistent) {h : Nat} (inRange : h < s.size)
    (acyclic : ∀ head, s.payload h = .ok (.group head) → s.IsAcyclic head) :
    ∃ s' copied, s.copyNode h = .ok (s', copied) ∧ s'.Consistent := by
  rcases exists_nodeTreeWith inRange fun head isGroup =>
    consistent.exists_treeTo_of_group isGroup inRange (acyclic head isGroup) with ⟨t, read⟩
  rcases consistent.exists_copyNodeWith (nodeTreeWith_eq_ok_iff.1 read) fun head ts =>
    consistent.duplicates_copyTo with ⟨s', copied, A, ran, allocates, _⟩
  exact ⟨s', copied, ran, allocates.consistent⟩

end Entail.Ring.Store
