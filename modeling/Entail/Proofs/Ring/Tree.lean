import Entail.Proofs.Outcome
import Entail.Proofs.Ring.Extension

/-!
# Trees of rings

A walk through a ring and through the rings that its groups own finds a tree,
whatever the nodes hold and however many groups own one ring, unless a ring is
below itself.  The tree is found again while no node changes that was there.
-/

namespace Entail.Ring

/-- What a node holds besides its links, with the trees of the ring that it owns. -/
inductive NodeTree
  | symbol (negated : Bool) (name : String)
  | link (negated : Bool) (connective : Connective)
  | group (negated : Bool) (content : List NodeTree)

namespace Store

variable {s s' : Store}

/-- The tree of a node; `inner` finds the trees of the ring of a group. -/
def nodeTreeWith (s : Store) (inner : Nat → Except Error (List NodeTree)) (h : Nat) :
    Except Error NodeTree := do
  let n ← s.node h
  match n.payload with
  | .symbol name => return .symbol n.negated name
  | .link c => return .link n.negated c
  | .group head => return .group n.negated (← inner head)

/-- The trees of the members of a ring, up to the given number of levels of groups. -/
def treeTo (s : Store) : Nat → Nat → Except Error (List NodeTree)
  | 0, _ => .error .endlessGroup
  | levels + 1, h => do
    (← s.walk h).mapM (s.nodeTreeWith (s.treeTo levels))

/-- The trees of the members of a ring. -/
def tree (s : Store) (h : Nat) : Except Error (List NodeTree) :=
  s.treeTo (s.size + 1) h

theorem treeTo_succ_eq_ok_iff {levels h : Nat} {ts : List NodeTree} :
    s.treeTo (levels + 1) h = .ok ts ↔ ∃ members, s.walk h = .ok members ∧
      members.mapM (s.nodeTreeWith (s.treeTo levels)) = .ok ts :=
  bind_eq_ok_iff

/-! ### Nodes that hold trees -/

/-- The tree of a node is told by what the node holds. -/
inductive ReadsTree (s : Store) (inner : Nat → Except Error (List NodeTree)) (h : Nat) :
    NodeTree → Prop
  | symbol {negated : Bool} {name : String} : s.Holds h (.symbol name) negated →
      ReadsTree s inner h (.symbol negated name)
  | link {negated : Bool} {c : Connective} : s.Holds h (.link c) negated →
      ReadsTree s inner h (.link negated c)
  | group {negated : Bool} {head : Nat} {content : List NodeTree} :
      s.Holds h (.group head) negated → inner head = .ok content →
      ReadsTree s inner h (.group negated content)

theorem nodeTreeWith_eq_ok_iff {inner : Nat → Except Error (List NodeTree)} {h : Nat}
    {t : NodeTree} : s.nodeTreeWith inner h = .ok t ↔ s.ReadsTree inner h t := by
  constructor
  · intro read
    rcases bind_eq_ok_iff.1 read with ⟨⟨payload, negated, _, _⟩, found, read⟩
    have holds : s.Holds h payload negated := by
      constructor
      · rw [Store.payload, found]
        rfl
      · rw [Store.negated, found]
        rfl
    cases payload with
    | symbol name =>
        cases read
        exact .symbol holds
    | link c =>
        cases read
        exact .link holds
    | group head =>
        rcases bind_eq_ok_iff.1 read with ⟨content, inside, read⟩
        cases read
        exact .group holds inside
  · rintro (holds | holds | ⟨holds, inside⟩)
    · rcases holds.exists_node with ⟨⟨_, _, _, _⟩, found, rfl, rfl⟩
      simp only [nodeTreeWith, found, bind, Except.bind]
      rfl
    · rcases holds.exists_node with ⟨⟨_, _, _, _⟩, found, rfl, rfl⟩
      simp only [nodeTreeWith, found, bind, Except.bind]
      rfl
    · rcases holds.exists_node with ⟨⟨_, _, _, _⟩, found, rfl, rfl⟩
      simp only [nodeTreeWith, found, bind, Except.bind, inside]
      rfl

theorem ReadsTree.imp {inner inner' : Nat → Except Error (List NodeTree)} {h : Nat} {t : NodeTree}
    (reads : s.ReadsTree inner h t) (node : s'.node h = s.node h)
    (inside : ∀ head ts, inner head = .ok ts → inner' head = .ok ts) : s'.ReadsTree inner' h t := by
  cases reads with
  | symbol holds => exact .symbol (holds.congr_node node)
  | link holds => exact .link (holds.congr_node node)
  | group holds found => exact .group (holds.congr_node node) (inside _ _ found)

/-- More levels find the same trees. -/
theorem treeTo_mono {levels more h : Nat} {ts : List NodeTree} (found : s.treeTo levels h = .ok ts)
    (enough : levels ≤ more) : s.treeTo more h = .ok ts := by
  induction levels generalizing more h ts with
  | zero => cases found
  | succ levels ih =>
      rcases Nat.exists_eq_add_one_of_ne_zero (Nat.ne_zero_of_lt enough) with ⟨more, rfl⟩
      have inside := fun head ts found =>
        @ih more head ts found (Nat.le_of_succ_le_succ enough)
      rcases treeTo_succ_eq_ok_iff.1 found with ⟨members, walked, found⟩
      refine treeTo_succ_eq_ok_iff.2 ⟨members, walked, mapM_eq_ok_of_imp found fun m t read => ?_⟩
      exact nodeTreeWith_eq_ok_iff.2 ((nodeTreeWith_eq_ok_iff.1 read).imp rfl inside)

theorem ReadsTree.lt_size {inner : Nat → Except Error (List NodeTree)} {h : Nat} {t : NodeTree}
    (reads : s.ReadsTree inner h t) : h < s.size := by
  cases reads with
  | symbol holds | link holds | group holds _ => exact holds.lt_size

/-- The trees are found again in a store that has gained nodes. -/
theorem Extends.treeTo (grown : s.Extends s') (consistent : s.Consistent) {levels h : Nat}
    {ts : List NodeTree} (found : s.treeTo levels h = .ok ts) : s'.treeTo levels h = .ok ts := by
  induction levels generalizing h ts with
  | zero => cases found
  | succ levels ih =>
      rcases treeTo_succ_eq_ok_iff.1 found with ⟨members, walked, found⟩
      rw [← grown.walk consistent (lt_size_of_walk walked)] at walked
      refine treeTo_succ_eq_ok_iff.2 ⟨_, walked, mapM_eq_ok_of_imp found fun m t read => ?_⟩
      have reads := nodeTreeWith_eq_ok_iff.1 read
      exact nodeTreeWith_eq_ok_iff.2
        (reads.imp (grown.node m reads.lt_size) fun head ts found => ih found)

theorem Extends.tree (grown : s.Extends s') (consistent : s.Consistent) {h : Nat}
    {ts : List NodeTree} (found : s.tree h = .ok ts) : s'.tree h = .ok ts :=
  treeTo_mono (grown.treeTo consistent found) (Nat.succ_le_succ grown.size)

theorem Extends.readsTree (grown : s.Extends s') (consistent : s.Consistent) {levels h : Nat}
    {t : NodeTree} (reads : s.ReadsTree (s.treeTo levels) h t) :
    s'.ReadsTree (s'.treeTo levels) h t :=
  reads.imp (grown.node h reads.lt_size) fun _ _ => grown.treeTo consistent

/-! ### Rings that are not below themselves -/

/-- A member of the ring of the first node is a group that contains the ring of the second. -/
def Contains (s : Store) (a b : Nat) : Prop :=
  ∃ members m, s.walk a = .ok members ∧ m ∈ members ∧ s.payload m = .ok (.group b)

/-- No ring that is reached from that of the node through groups contains itself, and all those
rings have nodes. -/
def IsAcyclic (s : Store) (h : Nat) : Prop :=
  ∀ a, Relation.ReflTransGen s.Contains h a → a < s.size ∧ ¬Relation.TransGen s.Contains a a

/-- A node has a tree if the ring that it may own has. -/
theorem exists_nodeTreeWith {inner : Nat → Except Error (List NodeTree)} {h : Nat}
    (inRange : h < s.size)
    (each : ∀ head, s.payload h = .ok (.group head) → ∃ ts, inner head = .ok ts) :
    ∃ t, s.nodeTreeWith inner h = .ok t := by
  rcases exists_node inRange with ⟨⟨payload, negated, _, _⟩, found⟩
  cases payload with
  | symbol name => exact ⟨.symbol negated name, by simp only [nodeTreeWith, found]; rfl⟩
  | link c => exact ⟨.link negated c, by simp only [nodeTreeWith, found]; rfl⟩
  | group head =>
      rcases each head (by rw [Store.payload, found]; rfl) with ⟨ts, inside⟩
      exact ⟨.group negated ts, by simp only [nodeTreeWith, found, bind, Except.bind, inside]; rfl⟩

/-- The trees of a ring are found if the levels suffice: the rings above it are distinct, and all
contain it in the end. -/
theorem exists_treeTo {levels h : Nat} (above : List Nat) (consistent : s.Consistent)
    (acyclic : s.IsAcyclic h) (distinct : above.Nodup) (inRange : ∀ a ∈ above, a < s.size)
    (within : ∀ a ∈ above, Relation.TransGen s.Contains a h)
    (enough : s.size < above.length + levels) : ∃ ts, s.treeTo levels h = .ok ts := by
  induction levels generalizing h above with
  | zero => exact absurd (length_le_size distinct inRange) (Nat.not_le.2 enough)
  | succ levels ih =>
      rcases acyclic h .refl with ⟨isNode, notWithin⟩
      rcases consistent.exists_walk isNode with ⟨rest, walked, members⟩
      have each : ∀ m ∈ h :: rest, ∃ t, s.nodeTreeWith (s.treeTo levels) m = .ok t := by
        intro m isMember
        refine exists_nodeTreeWith (members m isMember) fun head isGroup => ?_
        have contains : s.Contains h head := ⟨h :: rest, m, walked, isMember, isGroup⟩
        refine ih (h :: above) (fun a below => acyclic a (.head contains below))
          (List.nodup_cons.2 ⟨fun isAbove => notWithin (within h isAbove), distinct⟩)
          (List.forall_mem_cons.2 ⟨isNode, inRange⟩)
          (List.forall_mem_cons.2
            ⟨.single contains, fun a isAbove => (within a isAbove).tail contains⟩) ?_
        rw [List.length_cons]
        omega
      rcases exists_mapM_eq_ok each with ⟨ts, found⟩
      exact ⟨ts, treeTo_succ_eq_ok_iff.2 ⟨_, walked, found⟩⟩

namespace Consistent

variable (consistent : s.Consistent)
include consistent

/-- A ring whose groups lead to no ring that contains itself has a tree. -/
theorem exists_tree {h : Nat} (acyclic : s.IsAcyclic h) : ∃ ts, s.tree h = .ok ts :=
  exists_treeTo [] consistent acyclic List.nodup_nil (List.forall_mem_nil _)
    (List.forall_mem_nil _) (by simp)

/-- The trees of the ring of a group are found with one level less. -/
theorem exists_treeTo_of_group {h head : Nat} (isGroup : s.payload h = .ok (.group head))
    (inRange : h < s.size) (acyclic : s.IsAcyclic head) : ∃ ts, s.treeTo s.size head = .ok ts := by
  rcases consistent.exists_walk inRange with ⟨rest, walked, _⟩
  have contains : s.Contains h head := ⟨h :: rest, h, walked, List.mem_cons_self, isGroup⟩
  refine exists_treeTo [h] consistent acyclic (List.nodup_singleton h)
    (List.forall_mem_singleton.2 inRange) (List.forall_mem_singleton.2 (.single contains)) ?_
  rw [List.length_singleton]
  omega

end Consistent

end Store

end Entail.Ring
