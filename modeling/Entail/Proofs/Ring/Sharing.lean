import Entail.Proofs.Ring.Parsed

/-!
# Formulas that share no nodes

Where no node is reached twice from the head of a ring, its layout is a region,
and what is done to the ring is what is done to its formula.
-/

namespace Entail.Ring

namespace Store

/-- A node and the nodes that are reached from it; `inner` lists those of the ring of a group. -/
def reachedWith (s : Store) (inner : Nat → Except Error (List Nat)) (h : Nat) :
    Except Error (List Nat) := do
  match ← s.payload h with
  | .group head => return h :: (← inner head)
  | _ => return [h]

/-- The nodes of a ring and of the rings in it, up to the given number of levels, each as often as
it is reached. -/
def reachedTo (s : Store) : Nat → Nat → Except Error (List Nat)
  | 0, _ => .error .endlessGroup
  | levels + 1, h => do
    return (← (← s.walk h).mapM (s.reachedWith (s.reachedTo levels))).flatten

/-- No node is reached twice from the head of a ring. -/
def IsUnshared (s : Store) (head : Nat) : Prop :=
  ∃ nodes, s.reachedTo (s.size + 1) head = .ok nodes ∧ nodes.Nodup

instance (s : Store) (head : Nat) : Decidable (s.IsUnshared head) :=
  inferInstanceAs (Decidable (∃ _, _ ∧ _))

end Store

variable {s : Store}

mutual

theorem OperandLayout.Laid.reachedWith {x : OperandLayout} (laid : x.Laid s) {levels : Nat}
    (enough : x.depth ≤ levels) :
    s.reachedWith (s.reachedTo levels) x.handle = .ok (x.handle :: x.owned) := by
  cases laid with
  | symbol holds =>
      simp only [Store.reachedWith, OperandLayout.handle, holds.payload, bind, Except.bind]
      rfl
  | group holds laid =>
      simp only [Store.reachedWith, OperandLayout.handle, holds.payload, bind, Except.bind,
        laid.reachedTo enough]
      rfl

/-- The nodes of a layout are reached in order. -/
theorem RingLayout.Laid.reachedTo {ring : RingLayout} (laid : ring.Laid s) {levels : Nat}
    (enough : ring.depth ≤ levels) : s.reachedTo levels ring.head = .ok ring.handles := by
  cases levels with
  | zero => cases ring <;> exact absurd enough (Nat.not_succ_le_zero _)
  | succ levels =>
      cases laid with
      | single isRing laid =>
          have first := laid.reachedWith (Nat.le_of_succ_le_succ enough)
          simp [Store.reachedTo, RingLayout.head, RingLayout.handles, Store.walk_ring isRing, first,
            bind, Except.bind, pure, Except.pure]
      | @pair left right h c isRing laid holds laid' =>
          have enough : max left.depth right.depth ≤ levels := Nat.le_of_succ_le_succ enough
          have first := laid.reachedWith (Nat.le_trans (Nat.le_max_left _ _) enough)
          have second := laid'.reachedWith (Nat.le_trans (Nat.le_max_right _ _) enough)
          have link : s.reachedWith (s.reachedTo levels) h = .ok [h] := by
            simp only [Store.reachedWith, holds.payload, bind, Except.bind]
            rfl
          simp [Store.reachedTo, RingLayout.head, RingLayout.handles, Store.walk_ring isRing, first,
            link, second, bind, Except.bind, pure, Except.pure]

end

mutual

theorem OperandLayout.Laid.hasPart {x : OperandLayout} (laid : x.Laid s)
    (distinct : (x.handle :: x.owned).Nodup) :
    s.HasPart x.handle (.operand x.operand) {h | h ∈ x.handle :: x.owned} := by
  rcases List.nodup_cons.1 distinct with ⟨apart, distinct⟩
  cases laid with
  | @symbol h _ _ holds =>
      have single : {k | k ∈ [h]} = ({h} : Set Nat) := Set.ext fun k => List.mem_singleton
      exact single ▸ .symbol holds
  | @group h _ content holds laid =>
      have whole : {k | k ∈ h :: content.handles} = insert h {k | k ∈ content.handles} :=
        Set.ext fun k => List.mem_cons
      rcases laid.hasRing distinct with ⟨rest, isRing, row⟩
      exact whole ▸ .group holds isRing row apart

/-- A layout that shares no nodes is a region. -/
theorem RingLayout.Laid.hasRing {ring : RingLayout} (laid : ring.Laid s)
    (distinct : ring.handles.Nodup) : s.HasRing ring.head ring.formula {h | h ∈ ring.handles} := by
  cases laid with
  | single isRing laid => exact Store.hasRow_singleton_iff.2 ⟨isRing, laid.hasPart distinct⟩
  | @pair left right h c isRing laid holds laid' =>
      rcases List.nodup_append.1 distinct with ⟨first, behind, apart⟩
      rcases List.nodup_cons.1 behind with ⟨apart', second⟩
      have whole : {k | k ∈ (RingLayout.pair left h c right).handles} =
          {k | k ∈ left.handle :: left.owned} ∪ ({h} ∪ {k | k ∈ right.handle :: right.owned}) := by
        ext k
        simp only [RingLayout.handles, Set.mem_ofPred_eq, List.mem_append, Set.mem_union,
          Set.mem_singleton_iff, List.mem_cons]
      have row : s.HasParts [h, right.handle] [.link c, .operand right.operand]
          ({h} ∪ {k | k ∈ right.handle :: right.owned}) :=
        .cons (.link holds) (Store.hasParts_singleton_iff.2 (laid'.hasPart second))
          (Set.disjoint_singleton_left.2 apart')
      refine ⟨_, isRing, whole ▸ .cons (laid.hasPart first) row ?_⟩
      refine Set.disjoint_left.2 fun k isFirst isBehind => apart k isFirst k ?_ rfl
      rcases isBehind with isLink | isSecond
      · exact isLink ▸ List.mem_cons_self
      · exact List.mem_cons_of_mem _ isSecond

end

/-- A formula of which no node is reached twice has a region of its own. -/
theorem Store.HasLayout.exists_hasRing {head : Nat} {f : Formula} (layout : s.HasLayout head f)
    (unshared : s.IsUnshared head) : ∃ A, s.HasRing head f A := by
  rcases layout with ⟨ring, laid, deep, rfl, rfl⟩
  rcases unshared with ⟨nodes, reached, distinct⟩
  rw [laid.reachedTo (Nat.le_succ_of_le deep)] at reached
  cases reached
  exact ⟨_, laid.hasRing distinct⟩

end Entail.Ring
