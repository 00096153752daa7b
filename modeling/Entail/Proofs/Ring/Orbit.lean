import Mathlib.Order.Interval.Finset.Nat
import Mathlib.Order.Preorder.Finite
import Mathlib.Dynamics.PeriodicPts.Defs
import Entail.Proofs.Ring.Consistent
import Entail.Proofs.Ring.Reach

/-!
# Rings of consistent stores

Where links are consistent, following them forward is injective.  As a store
has finitely many nodes, it comes back to the node where it started, so that
each node with links belongs to a ring, and a walk from it lists exactly the
nodes that the links lead to.
-/

namespace Entail.Ring.Store

variable {s : Store}

/-- The node that the forward link of a node leads to, or the node itself. -/
def turn (s : Store) (h : Nat) : Nat :=
  (s.forward h).getD h

theorem forward_eq_turn {h : Nat} (linked : s.IsLinked h) : s.forward h = some (s.turn h) := by
  rcases Option.ne_none_iff_exists'.1 linked with ⟨n, ahead⟩
  rw [turn, ahead]
  rfl

theorem turn_eq_self {h : Nat} (unlinked : ¬s.IsLinked h) : s.turn h = h := by
  rw [turn, not_not.1 unlinked]
  rfl

namespace Consistent

variable (consistent : s.Consistent)
include consistent

theorem isLinked_turn {h : Nat} (linked : s.IsLinked h) : s.IsLinked (s.turn h) := by
  have behind := (consistent.joined _ _).1 (forward_eq_turn linked)
  rw [IsLinked, Ne, consistent.both, behind]
  exact Option.some_ne_none h

theorem isLinked_iterate {h : Nat} (linked : s.IsLinked h) (n : Nat) :
    s.IsLinked (s.turn^[n] h) := by
  induction n with
  | zero => exact linked
  | succ n ih =>
      rw [Function.iterate_succ_apply']
      exact consistent.isLinked_turn ih

theorem isLinked_turn_iff {h : Nat} : s.IsLinked (s.turn h) ↔ s.IsLinked h := by
  constructor
  · intro linked
    by_contra unlinked
    rw [turn_eq_self unlinked] at linked
    exact unlinked linked
  · exact consistent.isLinked_turn

theorem turn_injective : Function.Injective s.turn := by
  intro a b same
  by_cases linked : s.IsLinked a
  · have linked' : s.IsLinked b := by
      rw [← consistent.isLinked_turn_iff, ← same]
      exact consistent.isLinked_turn linked
    have behind := (consistent.joined _ _).1 (forward_eq_turn linked)
    have behind' := (consistent.joined _ _).1 (forward_eq_turn linked')
    rw [same] at behind
    exact Option.some.inj (behind.symm.trans behind')
  · have unlinked : ¬s.IsLinked b := by
      rwa [← consistent.isLinked_turn_iff, ← same, consistent.isLinked_turn_iff]
    rwa [turn_eq_self linked, turn_eq_self unlinked] at same

/-- Following the links from a node comes back to the node. -/
theorem minimalPeriod_pos {h : Nat} (linked : s.IsLinked h) :
    0 < Function.minimalPeriod s.turn h := by
  have inRange (n : Nat) : s.turn^[n] h ∈ Set.Iio s.size :=
    (consistent.isLinked_iterate linked n).lt_size
  rcases Set.Finite.exists_lt_map_eq_of_forall_mem inRange (Set.finite_Iio s.size) with
    ⟨m, n, less, same⟩
  have periodic : Function.IsPeriodicPt s.turn (n - m) h :=
    Function.iterate_cancel consistent.turn_injective same.symm
  exact periodic.minimalPeriod_pos (Nat.sub_pos_of_lt less)

theorem joined_turn {h : Nat} (linked : s.IsLinked h) : s.Joined h (s.turn h) := by
  have ahead := forward_eq_turn linked
  have behind := (consistent.joined _ _).1 ahead
  constructor
  · rw [next_eq_of_lt linked.lt_size, ahead]
  · rw [prev_eq_of_lt (consistent.isLinked_turn linked).lt_size, behind]

theorem path_iterate {h : Nat} (linked : s.IsLinked h) (n : Nat) :
    s.Path h ((List.range n).map fun i => s.turn^[i + 1] h) (s.turn^[n + 1] h) := by
  induction n generalizing h with
  | zero => exact consistent.joined_turn linked
  | succ n ih =>
      rw [List.range_succ_eq_map, List.map_cons, List.map_map]
      exact ⟨consistent.joined_turn linked, ih (consistent.isLinked_turn linked)⟩

/-- A node with links belongs to a ring. -/
theorem exists_isRing {h : Nat} (linked : s.IsLinked h) : ∃ rest, s.IsRing (h :: rest) := by
  rcases Nat.exists_eq_add_one.2 (consistent.minimalPeriod_pos linked) with ⟨n, period⟩
  have path := consistent.path_iterate linked n
  rw [← period, Function.iterate_minimalPeriod] at path
  refine ⟨_, path, ?_⟩
  have orbit : h :: (List.range n).map (fun i => s.turn^[i + 1] h) =
      (List.range (n + 1)).map fun i => s.turn^[i] h := by
    rw [List.range_succ_eq_map, List.map_cons, List.map_map]
    rfl
  rw [orbit]
  refine List.nodup_range.map_on fun i isStep j isStep' same => ?_
  rw [List.mem_range, ← period] at isStep isStep'
  exact Function.iterate_injOn_Iio_minimalPeriod isStep isStep' same

end Consistent

theorem walk_unlinked {h : Nat} (inRange : h < s.size) (unlinked : ¬s.IsLinked h) :
    s.walk h = .ok [h] := by
  rcases exists_node inRange with ⟨n, found⟩
  rcases Nat.exists_eq_add_one.2 (Nat.zero_lt_of_lt inRange) with ⟨bound, size⟩
  have next := next_eq_of_lt inRange
  rw [not_not.1 unlinked] at next
  simp only [walk, discard, found, size, walkFrom, next, Functor.mapConst, Function.comp,
    Except.map, bind, Except.bind]
  rfl

/-- A walk from a node lists nodes, the one it begins with first. -/
theorem Consistent.exists_walk (consistent : s.Consistent) {h : Nat} (inRange : h < s.size) :
    ∃ rest, s.walk h = .ok (h :: rest) ∧ ∀ m ∈ h :: rest, m < s.size := by
  by_cases linked : s.IsLinked h
  · rcases consistent.exists_isRing linked with ⟨rest, ring⟩
    exact ⟨rest, walk_ring ring, ring.lt_size⟩
  · exact ⟨[], walk_unlinked inRange linked, List.forall_mem_singleton.2 inRange⟩

end Entail.Ring.Store
