import Entail.Proofs.Ring.Operation

/-!
# Edits as operations on sequences

The walk from a node of a consistent store lists the members of its ring, and
each edit does to these lists what its name says: two nodes exchange their
places, a list is put in front of or behind a node, and a node is left out.
Whatever is not on a list that the edit names stays as it is.
-/

namespace Entail.Ring.Store

variable {s s' : Store}

/-! ### Walks and rings -/

namespace Consistent

variable (consistent : s.Consistent)
include consistent

theorem isRing_of_walk {h : Nat} {members : List Nat} (linked : s.IsLinked h)
    (walked : s.walk h = .ok members) : ∃ rest, members = h :: rest ∧ s.IsRing (h :: rest) := by
  rcases consistent.exists_isRing linked with ⟨rest, ring⟩
  cases walked.symm.trans (walk_ring ring)
  exact ⟨rest, rfl, ring⟩

/-- The node in front of a member of a ring is a member. -/
theorem mem_of_forward {members : List Nat} (ring : s.IsRing members) {x k : Nat}
    (isMember : k ∈ members) (ahead : s.forward x = some k) : x ∈ members := by
  have behind := (consistent.joined x k).1 ahead
  exact ring.mem_of_link isMember (.inr (by rw [prev_eq_of_lt (ring.lt_size k isMember), behind]))

/-- The node behind a member of a ring is a member. -/
theorem mem_of_backward {members : List Nat} (ring : s.IsRing members) {x k : Nat}
    (isMember : k ∈ members) (behind : s.backward x = some k) : x ∈ members := by
  have ahead := (consistent.joined k x).2 behind
  exact ring.mem_of_link isMember (.inl (by rw [next_eq_of_lt (ring.lt_size k isMember), ahead]))

end Consistent

/-! ### What an edit leaves alone -/

/-- The given nodes are all that their walks list. -/
def IsWalked (s : Store) (nodes : List Nat) : Prop :=
  ∀ h ∈ nodes, ∀ members, s.walk h = .ok members → members ⊆ nodes

theorem IsRing.isWalked {members : List Nat} (ring : s.IsRing members) : s.IsWalked members := by
  intro h isMember walk walked
  rcases ring.exists_walk h isMember with ⟨rotated, walked', isRotated⟩
  cases walked.symm.trans walked'
  exact isRotated.perm.subset

theorem IsWalked.append {nodes more : List Nat} (walked : s.IsWalked nodes)
    (walked' : s.IsWalked more) : s.IsWalked (nodes ++ more) := by
  intro h listed members ran
  rcases List.mem_append.1 listed with isNode | isMore
  · exact List.subset_append_of_subset_left _ (walked h isNode members ran)
  · exact List.subset_append_of_subset_right _ (walked' h isMore members ran)

/-- The only changes are in links of the given nodes, and all other nodes are walked as before. -/
structure Confined (s s' : Store) (nodes : List Nat) : Prop extends s.Relinks s' nodes where
  walk : ∀ k ∉ nodes, s'.walk k = s.walk k

/-- What is changed in whole rings does not show elsewhere. -/
theorem Relinks.confined {nodes : List Nat} (relinks : s.Relinks s' nodes)
    (consistent : s.Consistent) (walked : s.IsWalked nodes) : s.Confined s' nodes := by
  refine ⟨relinks, fun k outside => ?_⟩
  rcases Nat.lt_or_ge k s.size with inRange | outOfRange
  · by_cases linked : s.IsLinked k
    · rcases consistent.exists_isRing linked with ⟨rest, ring⟩
      have apart : ∀ x ∈ k :: rest, x ∉ nodes := by
        intro x isMember listed
        rcases ring.exists_walk x isMember with ⟨rotated, walk, isRotated⟩
        exact outside (walked x listed rotated walk (isRotated.mem_iff.2 List.mem_cons_self))
      have ring' := ring.congr fun x isMember => relinks.node x (apart x isMember)
      rw [walk_ring ring, walk_ring ring']
    · have unlinked : ¬s'.IsLinked k := by
        rwa [IsLinked, forward, relinks.node k outside]
      rw [walk_unlinked inRange linked, walk_unlinked (relinks.size ▸ inRange) unlinked]
  · rw [walk_of_size_le outOfRange, walk_of_size_le (relinks.size.symm ▸ outOfRange)]

/-! ### Splicing rings -/

/-- A ring goes behind a node as it goes in front of the next one. -/
theorem Joined.extendBack_eq {h n : Nat} (joined : s.Joined h n) (head : Nat) :
    s.extendBack h head = s.extendFront n head := by
  simp only [extendBack, extendFront, joined.1, joined.2, bind, Except.bind]

/-- The ring of a head is put behind the first node of another ring. -/
theorem exists_extendBack {h k : Nat} {rest more : List Nat} (ring : s.IsRing (h :: rest))
    (ring' : s.IsRing (k :: more)) (apart : ∀ x ∈ h :: rest, x ∉ k :: more) :
    ∃ s', s.extendBack h k = .ok s' ∧ s'.IsRing (h :: k :: more ++ rest) ∧
      s.Relinks s' (h :: rest ++ k :: more) := by
  cases rest with
  | nil =>
      have joined : s.Joined h h := ring.1
      rw [joined.extendBack_eq]
      rcases exists_extendFront ring ring' apart with ⟨s', ran, ring'', relinks⟩
      exact ⟨s', ran, by simpa using ring'', relinks⟩
  | cons n rest =>
      have joined : s.Joined h n := ring.1.1
      have leading : s.IsRing ([h] ++ n :: rest) := ring
      have turned : s.IsRing (n :: (rest ++ [h])) := by simpa using leading.rotate
      rw [joined.extendBack_eq]
      rcases exists_extendFront turned ring' (by grind) with ⟨s', ran, ring'', relinks⟩
      have split : n :: (rest ++ [h]) ++ k :: more = (n :: rest) ++ (h :: k :: more) := by simp
      exact ⟨s', ran, IsRing.rotate (split ▸ ring''), relinks.mono (by grind)⟩

/-! ### Taking nodes out -/

theorem exists_setLinks_eq {h : Nat} (inRange : h < s.size) (target : Option Nat) :
    ∃ s', s.setLinks h target = .ok s' ∧ s'.next h = .ok target ∧ s'.prev h = .ok target ∧
      s.Relinks s' [h] := by
  rcases exists_modify inRange fun n => { n with prev := target, next := target } with
    ⟨s', changed⟩
  rcases exists_node inRange with ⟨n, found⟩
  have found' := node_of_modify changed found
  refine ⟨s', changed, ?_, ?_, relinks_of_modify changed (fun _ => rfl) fun _ => rfl⟩
  · rw [next, found']
    rfl
  · rw [prev, found']
    rfl

/-- What both links of a node were set to does not matter once they are set again. -/
theorem setLinks_setLinks (s : Store) (h : Nat) (first second : Option Nat) :
    (s.setLinks h first >>= fun s => s.setLinks h second) = s.setLinks h second := by
  rcases Nat.lt_or_ge h s.size with inRange | outOfRange
  · rcases exists_node inRange with ⟨n, found⟩
    rw [size] at inRange
    simp [setLinks, modify, node, inRange, Except.map, bind, Except.bind]
  · simp only [setLinks, modify, node_of_size_le outOfRange]
    rfl

/-- A node that is to lose its links might be made a ring by itself first. -/
theorem isolate_eq_setLinks (s : Store) (h : Nat) (full : Bool) :
    s.isolate h full = s.isolate h false >>= fun s =>
      s.setLinks h (if full then none else some h) := by
  rw [isolate, isolate, bind_assoc]
  congr 1
  funext n
  by_cases several : (n.prev.isSome && n.prev != some h) = true
  · simp only [several, if_true, bind_assoc, setLinks_setLinks]
  · simp only [if_neg several, pure_bind, setLinks_setLinks]

/-- A node that has no other neighbours is isolated by setting its links. -/
theorem isolate_of_alone {h : Nat} (inRange : h < s.size)
    (alone : ∀ p, s.backward h = some p → p = h) (full : Bool) :
    s.isolate h full = s.setLinks h (if full then none else some h) := by
  rw [isolate_eq inRange]
  cases behind : s.backward h with
  | none => rfl
  | some p =>
      rw [alone p behind]
      simp only [Option.isSome_some, bne_self_eq_false, Bool.and_false]
      rfl

/-- A node that is taken out of its ring leaves the other members in their order. -/
theorem Consistent.exists_isolate_walk (consistent : s.Consistent) {h : Nat} {hs : List Nat}
    (walked : s.walk h = .ok hs) (full : Bool) :
    ∃ s', s.isolate h full = .ok s' ∧ s.Confined s' hs ∧
      s'.next h = .ok (if full then none else some h) ∧
      s'.prev h = .ok (if full then none else some h) ∧
      ∀ left k right, hs = h :: (left ++ k :: right) → s'.walk k = .ok (k :: right ++ left) := by
  have inRange := lt_size_of_walk walked
  by_cases linked : s.IsLinked h
  · rcases consistent.isRing_of_walk linked walked with ⟨rest, rfl, ring⟩
    cases rest with
    | nil =>
        have behind : s.backward h = some h := by
          have prev := prev_eq_of_lt inRange
          rw [ring.1.2] at prev
          exact (Except.ok.inj prev).symm
        rw [isolate_of_alone inRange (by simp [behind])]
        rcases exists_setLinks_eq inRange (if full then none else some h) with
          ⟨s', ran, next, prev, relinks⟩
        exact ⟨s', ran, relinks.confined consistent ring.isWalked, next, prev, by simp⟩
    | cons n rest =>
        rcases Store.exists_isolate ring (by simp) with ⟨s₁, ran, ring₁, single, relinks₁⟩
        rcases exists_setLinks_eq (single.lt_size h (by simp)) (if full then none else some h) with
          ⟨s', ran', next, prev, relinks'⟩
        have isolated : s.isolate h full = .ok s' := by
          rw [isolate_eq_setLinks, ran]
          exact ran'
        have relinks := relinks₁.trans (relinks'.mono (by simp))
        refine ⟨s', isolated, relinks.confined consistent ring.isWalked, next, prev, ?_⟩
        intro left k right split
        have ring' : s'.IsRing (n :: rest) := ring₁.congr fun x isMember => relinks'.node x (by
          rintro isFirst
          exact (List.nodup_cons.1 ring.nodup).1 (List.mem_singleton.1 isFirst ▸ isMember))
        rw [(List.cons.inj split).2] at ring'
        exact ring'.walk_eq
  · cases walked.symm.trans (walk_unlinked inRange linked)
    have behind := (consistent.both h).1 (not_not.1 linked)
    rw [isolate_of_alone inRange (by simp [behind])]
    rcases exists_setLinks_eq inRange (if full then none else some h) with
      ⟨s', ran, next, prev, relinks⟩
    refine ⟨s', ran, relinks.confined consistent ?_, next, prev, by simp⟩
    intro k listed members ran
    cases List.mem_singleton.1 listed
    cases walked.symm.trans ran
    exact List.Subset.refl _

/-! ### Exchanging nodes -/

/-- Two nodes have been renamed to each other in all links, and nothing else has changed. -/
abbrev Renames (s s' : Store) (h o : Nat) : Prop :=
  s.Rewires s' (Consistent.renamed s.forward h o) (Consistent.renamed s.backward h o)

theorem swap_of_size_le {h o k : Nat} (isFirst : h < s.size) (isSecond : o < s.size)
    (outOfRange : s.size ≤ k) : Equiv.swap h o k = k :=
  Equiv.swap_apply_of_ne_of_ne (Nat.ne_of_gt (Nat.lt_of_lt_of_le isFirst outOfRange))
    (Nat.ne_of_gt (Nat.lt_of_lt_of_le isSecond outOfRange))

theorem swap_lt_size {h o k : Nat} (isFirst : h < s.size) (isSecond : o < s.size)
    (inRange : k < s.size) : Equiv.swap h o k < s.size := by
  rw [Equiv.swap_apply_def]
  grind

namespace Renames

variable {h o : Nat} (renames : s.Renames s' h o) (isFirst : h < s.size) (isSecond : o < s.size)
include renames isFirst isSecond

theorem next_eq (k : Nat) :
    s'.next k = (s.next (Equiv.swap h o k)).map (Option.map (Equiv.swap h o)) := by
  rcases Nat.lt_or_ge k s.size with inRange | outOfRange
  · rw [next_eq_of_lt (renames.size.symm ▸ inRange), renames.forward,
      next_eq_of_lt (swap_lt_size isFirst isSecond inRange)]
    rfl
  · rw [swap_of_size_le isFirst isSecond outOfRange, next, next, node_of_size_le outOfRange,
      node_of_size_le (renames.size.symm ▸ outOfRange)]
    rfl

theorem prev_eq (k : Nat) :
    s'.prev k = (s.prev (Equiv.swap h o k)).map (Option.map (Equiv.swap h o)) := by
  rcases Nat.lt_or_ge k s.size with inRange | outOfRange
  · rw [prev_eq_of_lt (renames.size.symm ▸ inRange), renames.backward,
      prev_eq_of_lt (swap_lt_size isFirst isSecond inRange)]
    rfl
  · rw [swap_of_size_le isFirst isSecond outOfRange, prev, prev, node_of_size_le outOfRange,
      node_of_size_le (renames.size.symm ▸ outOfRange)]
    rfl

theorem joined {a b : Nat} (joined : s.Joined a b) :
    s'.Joined (Equiv.swap h o a) (Equiv.swap h o b) := by
  constructor
  · rw [renames.next_eq isFirst isSecond, Equiv.swap_apply_self, joined.1]
    rfl
  · rw [renames.prev_eq isFirst isSecond, Equiv.swap_apply_self, joined.2]
    rfl

theorem path {a b : Nat} {rest : List Nat} (path : s.Path a rest b) :
    s'.Path (Equiv.swap h o a) (rest.map (Equiv.swap h o)) (Equiv.swap h o b) := by
  induction rest generalizing a with
  | nil => exact renames.joined isFirst isSecond path
  | cons x rest ih => exact ⟨renames.joined isFirst isSecond path.1, ih path.2⟩

/-- The two nodes exchange their places in every ring. -/
theorem isRing {members : List Nat} (ring : s.IsRing members) :
    s'.IsRing (members.map (Equiv.swap h o)) := by
  cases members with
  | nil => exact ring
  | cons k rest =>
      exact ⟨renames.path isFirst isSecond ring.1, ring.2.map (Equiv.swap h o).injective⟩

theorem walk_eq (consistent : s.Consistent) (k : Nat) :
    s'.walk k = (s.walk (Equiv.swap h o k)).map (List.map (Equiv.swap h o)) := by
  rcases Nat.lt_or_ge k s.size with inRange | outOfRange
  · have inRange' := swap_lt_size isFirst isSecond inRange
    by_cases linked : s.IsLinked (Equiv.swap h o k)
    · rcases consistent.exists_isRing linked with ⟨rest, ring⟩
      have ring' := renames.isRing isFirst isSecond ring
      rw [List.map_cons, Equiv.swap_apply_self] at ring'
      rw [walk_ring ring, walk_ring ring', Except.map, List.map_cons, Equiv.swap_apply_self]
    · have unlinked : ¬s'.IsLinked k := by
        rw [IsLinked, not_not] at linked ⊢
        rw [renames.forward, Consistent.renamed, linked]
        rfl
      rw [walk_unlinked inRange' linked, walk_unlinked (renames.size.symm ▸ inRange) unlinked,
        Except.map, List.map_singleton, Equiv.swap_apply_self]
  · rw [swap_of_size_le isFirst isSecond outOfRange, walk_of_size_le outOfRange,
      walk_of_size_le (renames.size.symm ▸ outOfRange)]
    rfl

end Renames

/-- Nodes outside of the rings of two nodes that are exchanged keep their links. -/
theorem Renames.relinks {h o : Nat} {rest more : List Nat} (renames : s.Renames s' h o)
    (consistent : s.Consistent) (ring : s.IsRing (h :: rest)) (ring' : s.IsRing (o :: more)) :
    s.Relinks s' (h :: rest ++ o :: more) := by
  refine ⟨renames.size, renames.payload, renames.negated, fun x outside => ?_⟩
  rw [List.mem_append, not_or] at outside
  rcases Nat.lt_or_ge x s.size with inRange | outOfRange
  · have fixed : Equiv.swap h o x = x := Equiv.swap_apply_of_ne_of_ne
      (fun same => outside.1 (same ▸ List.mem_cons_self))
      fun same => outside.2 (same ▸ List.mem_cons_self)
    apply renames.node inRange
    · rw [Consistent.renamed, fixed]
      exact map_swap_of_ne
        (fun ahead => outside.1 (consistent.mem_of_forward ring List.mem_cons_self ahead))
        fun ahead => outside.2 (consistent.mem_of_forward ring' List.mem_cons_self ahead)
    · rw [Consistent.renamed, fixed]
      exact map_swap_of_ne
        (fun behind => outside.1 (consistent.mem_of_backward ring List.mem_cons_self behind))
        fun behind => outside.2 (consistent.mem_of_backward ring' List.mem_cons_self behind)
  · rw [node_of_size_le outOfRange, node_of_size_le (renames.size.symm ▸ outOfRange)]

/-! ### Sequences -/

/-- Each edit acts on what the walks of a store list: exchanged nodes are renamed to each other in
all links and lists; a ring goes in front of a node or behind it as a whole; the members that an
isolated node leaves keep their cyclic order.  All else stays as it is. -/
structure EditsSequences (s : Store) : Prop where
  swap : ∀ {h o : Nat} {hs os : List Nat}, s.IsLinked h → s.IsLinked o → s.walk h = .ok hs →
    s.walk o = .ok os → ∃ s', s.swap h o = .ok s' ∧ s.Confined s' (hs ++ os) ∧
      (∀ k, s'.next k = (s.next (Equiv.swap h o k)).map (Option.map (Equiv.swap h o))) ∧
      (∀ k, s'.prev k = (s.prev (Equiv.swap h o k)).map (Option.map (Equiv.swap h o))) ∧
      ∀ k, s'.walk k = (s.walk (Equiv.swap h o k)).map (List.map (Equiv.swap h o))
  extendFront : ∀ {h head : Nat} {hs ks : List Nat}, s.IsLinked h → s.IsLinked head →
    s.walk h = .ok hs → s.walk head = .ok ks → head ∉ hs →
    ∃ s', s.extendFront h head = .ok s' ∧ s.Confined s' (hs ++ ks) ∧ s'.walk head = .ok (ks ++ hs)
  extendBack : ∀ {h head : Nat} {hs ks : List Nat}, s.IsLinked h → s.IsLinked head →
    s.walk h = .ok hs → s.walk head = .ok ks → head ∉ hs →
    ∃ s', s.extendBack h head = .ok s' ∧ s.Confined s' (hs ++ ks) ∧
      s'.walk h = .ok (h :: ks ++ hs.tail)
  isolate : ∀ {h : Nat} {hs : List Nat} (full : Bool), s.walk h = .ok hs →
    ∃ s', s.isolate h full = .ok s' ∧ s.Confined s' hs ∧
      s'.next h = .ok (if full then none else some h) ∧
      s'.prev h = .ok (if full then none else some h) ∧
      ∀ left k right, hs = h :: (left ++ k :: right) → s'.walk k = .ok (k :: right ++ left)

namespace Consistent

variable (consistent : s.Consistent) {h head : Nat} {hs ks : List Nat}
include consistent

theorem exists_rings (linked : s.IsLinked h) (linked' : s.IsLinked head)
    (walked : s.walk h = .ok hs) (walked' : s.walk head = .ok ks) (apart : head ∉ hs) :
    ∃ rest more, hs = h :: rest ∧ ks = head :: more ∧ s.IsRing (h :: rest) ∧
      s.IsRing (head :: more) ∧ ∀ x ∈ h :: rest, x ∉ head :: more := by
  rcases consistent.isRing_of_walk linked walked with ⟨rest, rfl, ring⟩
  rcases consistent.isRing_of_walk linked' walked' with ⟨more, rfl, ring'⟩
  refine ⟨rest, more, rfl, rfl, ring, ring', fun x isFirst isSecond => apart ?_⟩
  exact (ring.isRotated ring' isFirst isSecond).mem_iff.2 List.mem_cons_self

end Consistent

/-- In a consistent store the edits act on the sequences that its walks list. -/
theorem Consistent.edits_act_on_sequences (consistent : s.Consistent) : s.EditsSequences where
  swap := by
    intro h o hs os linked linked' walked walked'
    rcases consistent.isRing_of_walk linked walked with ⟨rest, rfl, ring⟩
    rcases consistent.isRing_of_walk linked' walked' with ⟨more, rfl, ring'⟩
    rcases consistent.exists_swap linked linked' with ⟨s', ran, _, renames⟩
    have renames : s.Renames s' h o := renames
    exact ⟨s', ran,
      (renames.relinks consistent ring ring').confined consistent (ring.isWalked.append ring'.isWalked),
      renames.next_eq linked.lt_size linked'.lt_size,
      renames.prev_eq linked.lt_size linked'.lt_size,
      renames.walk_eq linked.lt_size linked'.lt_size consistent⟩
  extendFront := by
    intro h head hs ks linked linked' walked walked' apart
    rcases consistent.exists_rings linked linked' walked walked' apart with
      ⟨rest, more, rfl, rfl, ring, ring', apart⟩
    rcases Store.exists_extendFront ring ring' apart with ⟨s', ran, whole, relinks⟩
    exact ⟨s', ran, relinks.confined consistent (ring.isWalked.append ring'.isWalked),
      walk_ring whole.rotate⟩
  extendBack := by
    intro h head hs ks linked linked' walked walked' apart
    rcases consistent.exists_rings linked linked' walked walked' apart with
      ⟨rest, more, rfl, rfl, ring, ring', apart⟩
    rcases Store.exists_extendBack ring ring' apart with ⟨s', ran, whole, relinks⟩
    exact ⟨s', ran, relinks.confined consistent (ring.isWalked.append ring'.isWalked),
      walk_ring whole⟩
  isolate := fun full walked => consistent.exists_isolate_walk walked full

/-- A ring of three nodes and one of two exchange their heads, one of them is spliced into the other
in front or behind, and the longer one loses a node. -/
theorem Consistent.edits_act_on_sequences_of_two_rings : ∃ s : Store, s.Consistent ∧
    s.walk 0 = .ok [0, 1, 2] ∧ s.walk 3 = .ok [3, 4] ∧
    (∃ s', s.swap 0 3 = .ok s' ∧ s'.walk 3 = .ok [3, 1, 2] ∧ s'.walk 0 = .ok [0, 4]) ∧
    (∃ s', s.extendFront 0 3 = .ok s' ∧ s'.walk 3 = .ok [3, 4, 0, 1, 2]) ∧
    (∃ s', s.extendBack 0 3 = .ok s' ∧ s'.walk 0 = .ok [0, 3, 4, 1, 2]) ∧
    ∃ s', s.isolate 1 true = .ok s' ∧ s'.walk 2 = .ok [2, 0] ∧ s'.walk 4 = .ok [4, 3] := by
  have permitted : Operation.ArePermitted .empty [.add (.symbol "a") false,
      .add (.link .conj) false, .add (.symbol "b") true, .add (.symbol "c") false,
      .add (.link .disj) false, .linkAll 0 [1, 2], .linkAll 3 [4]] := by
    refine .cons rfl trivial (.cons rfl trivial (.cons rfl trivial (.cons rfl trivial
      (.cons rfl trivial (.cons rfl ?_ (.cons rfl ?_ trivial))))))
    · exact ⟨by decide, by simp only [List.forall_mem_cons]; exact ⟨rfl, rfl, rfl, nofun⟩⟩
    · exact ⟨by decide, by simp only [List.forall_mem_cons]; exact ⟨rfl, rfl, nofun⟩⟩
  rcases Operation.exists_foldlM_run consistent_empty permitted with ⟨s, ran, consistent⟩
  cases ran
  have edits := consistent.edits_act_on_sequences
  refine ⟨_, consistent, rfl, rfl, ?_, ?_, ?_, ?_⟩
  · rcases @edits.swap 0 3 _ _ (Option.some_ne_none 1) (Option.some_ne_none 4) rfl rfl with
      ⟨s', ran, _, _, _, walks⟩
    exact ⟨s', ran, walks 3, walks 0⟩
  · rcases @edits.extendFront 0 3 _ _ (Option.some_ne_none 1) (Option.some_ne_none 4)
      rfl rfl (by decide) with ⟨s', ran, _, walk⟩
    exact ⟨s', ran, walk⟩
  · rcases @edits.extendBack 0 3 _ _ (Option.some_ne_none 1) (Option.some_ne_none 4)
      rfl rfl (by decide) with ⟨s', ran, _, walk⟩
    exact ⟨s', ran, walk⟩
  · rcases @edits.isolate 1 [1, 2, 0] true rfl with ⟨s', ran, confined, _, _, walks⟩
    exact ⟨s', ran, walks [] 2 [0] rfl, confined.walk 4 (by decide)⟩

end Entail.Ring.Store
