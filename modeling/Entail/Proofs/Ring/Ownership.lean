import Entail.Proofs.Ring.Rows

/-!
# Owners of rings

In a layout whose nodes are distinct, each ring but the outermost one is owned
by one group node, and each node is a member of one ring.
-/

namespace Entail.Ring

variable {base s : Store}

namespace Store

/-- The given nodes form a ring of one operand, or of two with a connective between them. -/
inductive IsFormulaRing (s : Store) : List Nat → Prop
  | single {x : Nat} : s.IsRing [x] → s.isLink x = .ok false → IsFormulaRing s [x]
  | pair {x op y : Nat} : s.IsRing [x, op, y] → s.isLink x = .ok false →
      s.isLink op = .ok true → s.isLink y = .ok false → IsFormulaRing s [x, op, y]

/-- A group node owns the ring with the given members. -/
def Owns (s : Store) (g : Nat) (members : List Nat) : Prop :=
  ∃ h ∈ members, s.payload g = .ok (.group h)

/-- No node owns the ring with the given members, those of `base` aside that held one of these
handles already. -/
def Unowned (base s : Store) (members : List Nat) : Prop :=
  ∀ g, s.Owns g members → base.Owns g members

/-- One node that is not in `base` owns the ring with the given members, and no other node does,
those of `base` aside that held one of these handles already. -/
def OwnedOnce (base s : Store) (members : List Nat) : Prop :=
  ∃ g, base.size ≤ g ∧ s.Owns g members ∧ ∀ other, s.Owns other members →
    other = g ∨ base.Owns other members

theorem lt_size_of_payload {h : Nat} {p : Payload} (found : s.payload h = .ok p) : h < s.size := by
  cases isNode : s.node h with
  | ok n => exact lt_size_of_node isNode
  | error e =>
      rw [payload, isNode] at found
      contradiction

end Store

/-! ### Groups of a layout -/

mutual

/-- The group nodes of an operand, each with the ring that it owns. -/
def OperandLayout.groups : OperandLayout → List (Nat × RingLayout)
  | .symbol _ _ _ => []
  | .group handle _ content => (handle, content) :: content.groups

/-- The group nodes of a formula, each with the ring that it owns. -/
def RingLayout.groups : RingLayout → List (Nat × RingLayout)
  | .single x => x.groups
  | .pair left _ _ right => left.groups ++ right.groups

end

mutual

theorem OperandLayout.perm_owned (x : OperandLayout) :
    x.owned.Perm (x.groups.flatMap fun group => group.2.members) := by
  cases x with
  | symbol => exact .refl []
  | group _ _ content => exact content.perm_handles

/-- The nodes of a layout are the members of its rings. -/
theorem RingLayout.perm_handles (ring : RingLayout) :
    ring.handles.Perm (ring.members ++ ring.groups.flatMap fun group => group.2.members) := by
  cases ring with
  | single x => exact x.perm_owned.cons x.handle
  | pair left op c right =>
      have first := left.perm_owned
      have second := right.perm_owned
      rw [List.perm_iff_count] at first second ⊢
      intro h
      simp only [RingLayout.handles, RingLayout.members, RingLayout.groups, List.flatMap_append,
        List.count_append, List.count_cons, List.cons_append, List.nil_append, first h, second h]
      omega

end

mutual

theorem OperandLayout.mem_of_group {x : OperandLayout} :
    ∀ group ∈ x.groups, group.1 ∈ x.handle :: x.owned := by
  cases x with
  | symbol => exact List.forall_mem_nil _
  | group h _ content =>
      have inner (group : Nat × RingLayout) (isGroup : group ∈ content.groups) :
          group.1 ∈ h :: content.handles :=
        List.mem_cons_of_mem h (content.mem_of_group group isGroup)
      exact List.forall_mem_cons.2 ⟨List.mem_cons_self, inner⟩

/-- The groups of a layout are nodes of it. -/
theorem RingLayout.mem_of_group (ring : RingLayout) :
    ∀ group ∈ ring.groups, group.1 ∈ ring.handles := by
  cases ring with
  | single x => exact x.mem_of_group
  | pair left op c right =>
      intro group isGroup
      rcases List.mem_append.1 isGroup with isLeft | isRight
      · exact List.mem_append_left _ (left.mem_of_group group isLeft)
      · exact List.mem_append_right _
          (List.mem_cons_of_mem _ (right.mem_of_group group isRight))

end

mutual

theorem OperandLayout.Laid.laid_groups {x : OperandLayout} (laid : x.Laid s) :
    ∀ group ∈ x.groups, group.2.Laid s ∧ s.payload group.1 = .ok (.group group.2.head) := by
  cases laid with
  | symbol => exact List.forall_mem_nil _
  | group holds laid => exact List.forall_mem_cons.2 ⟨⟨laid, holds.payload⟩, laid.laid_groups⟩

/-- The rings of groups lie in the store, and their nodes hold their heads. -/
theorem RingLayout.Laid.laid_groups {ring : RingLayout} (laid : ring.Laid s) :
    ∀ group ∈ ring.groups, group.2.Laid s ∧ s.payload group.1 = .ok (.group group.2.head) := by
  cases laid with
  | single _ laid => exact laid.laid_groups
  | pair _ laid _ laid' => exact List.forall_mem_append.2 ⟨laid.laid_groups, laid'.laid_groups⟩

end

mutual

theorem OperandLayout.Laid.mem_groups {x : OperandLayout} (laid : x.Laid s) {g head : Nat}
    (listed : g = x.handle ∨ g ∈ x.owned) (payload : s.payload g = .ok (.group head)) :
    ∃ group ∈ x.groups, group.1 = g ∧ group.2.head = head := by
  cases laid with
  | symbol holds =>
      rcases listed with rfl | isOwned
      · cases holds.payload.symm.trans payload
      · exact absurd isOwned List.not_mem_nil
  | @group _ _ content holds laid =>
      rcases listed with rfl | isOwned
      · cases holds.payload.symm.trans payload
        exact ⟨(g, content), List.mem_cons_self, rfl, rfl⟩
      · rcases laid.mem_groups isOwned payload with ⟨group, isGroup, found⟩
        exact ⟨group, List.mem_cons_of_mem _ isGroup, found⟩

/-- Every group node of a layout is one of its groups. -/
theorem RingLayout.Laid.mem_groups {ring : RingLayout} (laid : ring.Laid s) {g head : Nat}
    (listed : g ∈ ring.handles) (payload : s.payload g = .ok (.group head)) :
    ∃ group ∈ ring.groups, group.1 = g ∧ group.2.head = head := by
  cases laid with
  | single _ laid => exact laid.mem_groups (List.mem_cons.1 listed) payload
  | pair _ laid holds laid' =>
      rcases List.mem_append.1 listed with isLeft | isRight
      · rcases laid.mem_groups (List.mem_cons.1 isLeft) payload with ⟨group, isGroup, found⟩
        exact ⟨group, List.mem_append_left _ isGroup, found⟩
      · rcases List.mem_cons.1 isRight with rfl | isRight
        · cases holds.payload.symm.trans payload
        · rcases laid'.mem_groups (List.mem_cons.1 isRight) payload with ⟨group, isGroup, found⟩
          exact ⟨group, List.mem_append_right _ isGroup, found⟩

end

namespace RingLayout

variable {ring : RingLayout}

theorem head_mem_members (ring : RingLayout) : ring.head ∈ ring.members := by
  cases ring <;> exact List.mem_cons_self

theorem head_mem_handles (ring : RingLayout) : ring.head ∈ ring.handles :=
  ring.perm_handles.mem_iff.2 (List.mem_append_left _ ring.head_mem_members)

theorem Laid.isFormulaRing (laid : ring.Laid s) : s.IsFormulaRing ring.members := by
  cases laid with
  | single isRing laid => exact .single isRing laid.isLink
  | pair isRing laid holds laid' =>
      apply Store.IsFormulaRing.pair isRing laid.isLink
      · rw [Store.isLink, holds.payload]
        rfl
      · exact laid'.isLink

/-- Two rings of a layout with a common member are one. -/
theorem disjoint_groups (distinct : ring.handles.Nodup) :
    (∀ group ∈ ring.groups, ∀ h ∈ ring.members, h ∉ group.2.members) ∧
      ∀ group ∈ ring.groups, ∀ other ∈ ring.groups, ∀ h ∈ group.2.members,
        h ∈ other.2.members → group = other := by
  rcases List.nodup_append.1 (ring.perm_handles.nodup_iff.1 distinct) with ⟨_, inner, apart⟩
  constructor
  · intro group isGroup h isMember isInner
    exact apart h isMember h (List.mem_flatMap.2 ⟨group, isGroup, isInner⟩) rfl
  · intro group isGroup other isOther
    have disjoint := (List.nodup_flatMap.1 inner).2
    let OnlyWith (group other : Nat × RingLayout) : Prop :=
      ∀ h ∈ group.2.members, h ∈ other.2.members → group = other
    have reflexive : ∀ group ∈ ring.groups, OnlyWith group group := fun _ _ _ _ _ => rfl
    have forwards : ring.groups.Pairwise OnlyWith :=
      disjoint.imp fun apart h isMember isMember' => (apart isMember isMember').elim
    have backwards : ring.groups.Pairwise (flip OnlyWith) := by
      apply disjoint.imp
      rintro _ _ apart h isMember isMember'
      exact (apart isMember' isMember).elim
    exact List.Pairwise.forall_of_forall_of_flip reflexive forwards backwards isGroup isOther

/-- In a layout of new nodes, each node is a member of a ring, and each ring but the outermost one
has one owner. -/
theorem Laid.exists_members (laid : ring.Laid s) (adds : base.Adds s ring.handles) {h : Nat}
    (isNew : base.size ≤ h) (inRange : h < s.size) :
    ∃ members, h ∈ members ∧ s.IsFormulaRing members ∧
      (ring.head ∈ members ∧ base.Unowned s members ∨
        ring.head ∉ members ∧ base.OwnedOnce s members) := by
  rcases disjoint_groups adds.distinct with ⟨outside, apart⟩
  -- an owner is an old node or one of the groups
  have owner {g : Nat} {members : List Nat} (owns : s.Owns g members) :
      base.Owns g members ∨ ∃ group ∈ ring.groups, group.1 = g ∧ group.2.head ∈ members := by
    rcases owns with ⟨head, isMember, payload⟩
    by_cases old : g < base.size
    · rw [Store.payload, adds.node g old] at payload
      exact .inl ⟨head, isMember, payload⟩
    · have listed := (adds.mem_iff g).2 ⟨Nat.le_of_not_lt old, Store.lt_size_of_payload payload⟩
      rcases laid.mem_groups listed payload with ⟨group, isGroup, same, rfl⟩
      exact .inr ⟨group, isGroup, same, isMember⟩
  have listed := ring.perm_handles.mem_iff.1 ((adds.mem_iff h).2 ⟨isNew, inRange⟩)
  rcases List.mem_append.1 listed with isOuter | isInner
  · have unowned : base.Unowned s ring.members := by
      intro g owns
      rcases owner owns with old | ⟨group, isGroup, _, isMember⟩
      · exact old
      · exact absurd group.2.head_mem_members (outside group isGroup _ isMember)
    exact ⟨ring.members, isOuter, laid.isFormulaRing, .inl ⟨ring.head_mem_members, unowned⟩⟩
  · rcases List.mem_flatMap.1 isInner with ⟨group, isGroup, isMember⟩
    rcases laid.laid_groups group isGroup with ⟨laidGroup, payload⟩
    have groupNew := ((adds.mem_iff _).1 (ring.mem_of_group group isGroup)).1
    have owns : s.Owns group.1 group.2.members := ⟨group.2.head, group.2.head_mem_members, payload⟩
    have noOther : ∀ other, s.Owns other group.2.members →
        other = group.1 ∨ base.Owns other group.2.members := by
      intro other owns
      rcases owner owns with old | ⟨group', isGroup', rfl, isMember'⟩
      · exact .inr old
      · rw [apart group' isGroup' group isGroup _ group'.2.head_mem_members isMember']
        exact .inl rfl
    exact ⟨group.2.members, isMember, laidGroup.isFormulaRing,
      .inr ⟨outside group isGroup _ ring.head_mem_members, group.1, groupNew, owns, noOther⟩⟩

end RingLayout

end Entail.Ring
