import Mathlib.Logic.Relation
import Entail.Proofs.Ring.Builder
import Entail.Proofs.Ring.Orbit
import Entail.Proofs.Ring.Splicing

/-!
# Stores that grow

A store may gain nodes while all nodes that it had stay as they are; in a
consistent store, these are walked as before.
-/

namespace Entail.Ring.Store

open Function (update)

variable {s s' s'' : Store}

/-- All nodes of the first store are as they were in the second one, which may hold more. -/
structure Extends (s s' : Store) : Prop where
  size : s.size ≤ s'.size
  node : ∀ h < s.size, s'.node h = s.node h

namespace Extends

theorem refl (s : Store) : s.Extends s :=
  ⟨Nat.le_refl _, fun _ _ => rfl⟩

theorem trans (first : s.Extends s') (second : s'.Extends s'') : s.Extends s'' :=
  ⟨Nat.le_trans first.size second.size, fun h inRange => by
    rw [second.node h (Nat.lt_of_lt_of_le inRange first.size), first.node h inRange]⟩

theorem add (s : Store) (payload : Payload) (negated : Bool) : s.Extends (s.add payload negated) :=
  ⟨Nat.le_of_lt (by rw [size_add]; exact Nat.lt_succ_self _),
    fun _ inRange => s.node_add_of_lt payload negated inRange⟩

theorem forward (grown : s.Extends s') {h : Nat} (inRange : h < s.size) :
    s'.forward h = s.forward h := by
  rw [Store.forward, Store.forward, grown.node h inRange]

/-- In consistent stores, nodes are walked as before. -/
theorem walk (grown : s.Extends s') (consistent : s.Consistent) {h : Nat} (inRange : h < s.size) :
    s'.walk h = s.walk h := by
  by_cases linked : s.IsLinked h
  · rcases consistent.exists_isRing linked with ⟨rest, ring⟩
    have ring' := ring.congr fun x isMember => grown.node x (ring.lt_size x isMember)
    rw [walk_ring ring, walk_ring ring']
  · have unlinked : ¬s'.IsLinked h := by rwa [IsLinked, grown.forward inRange]
    rw [walk_unlinked inRange linked,
      walk_unlinked (Nat.lt_of_lt_of_le inRange grown.size) unlinked]

end Extends

theorem forward_of_size_le {h : Nat} (outside : s.size ≤ h) : s.forward h = none :=
  not_not.1 fun linked => absurd (IsLinked.lt_size linked) (Nat.not_lt.2 outside)

theorem node_of_size_le {h : Nat} (outside : s.size ≤ h) : s.node h = .error .outOfRange := by
  rw [size] at outside
  rw [node, List.getElem?_eq_none outside]

theorem walk_of_size_le {h : Nat} (outside : s.size ≤ h) : s.walk h = .error .outOfRange := by
  rw [walk, node_of_size_le outside]
  rfl

theorem lt_size_of_walk {h : Nat} {members : List Nat} (walked : s.walk h = .ok members) :
    h < s.size := by
  by_contra outside
  rw [walk_of_size_le (Nat.le_of_not_lt outside)] at walked
  contradiction

/-- A node that is added is linked to itself. -/
theorem node_add (s : Store) (payload : Payload) (negated : Bool) (x : Nat) :
    (s.add payload negated).node x =
      if x = s.size then .ok ⟨payload, negated, some s.size, some s.size⟩ else s.node x := by
  rcases Nat.lt_trichotomy x s.size with old | rfl | outside
  · rw [if_neg (Nat.ne_of_lt old), s.node_add_of_lt payload negated old]
  · rw [if_pos rfl, s.node_add_size]
  · rw [if_neg (Nat.ne_of_gt outside), node_of_size_le (Nat.le_of_lt outside),
      node_of_size_le (by rw [size_add]; exact outside)]

theorem forward_add (s : Store) (payload : Payload) (negated : Bool) :
    (s.add payload negated).forward = update s.forward s.size (some s.size) := by
  funext x
  rw [forward, node_add, Function.update_apply]
  split <;> rfl

theorem backward_add (s : Store) (payload : Payload) (negated : Bool) :
    (s.add payload negated).backward = update s.backward s.size (some s.size) := by
  funext x
  rw [backward, node_add, Function.update_apply]
  split <;> rfl

theorem Consistent.add (consistent : s.Consistent) (payload : Payload) (negated : Bool) :
    (s.add payload negated).Consistent := by
  rw [Consistent, forward_add, backward_add]
  exact Inverse.close consistent (by simp [forward_of_size_le (Nat.le_refl s.size)])

theorem IsRing.isLinked {h : Nat} {rest : List Nat} (ring : s.IsRing (h :: rest)) :
    s.IsLinked h := by
  cases rest with
  | nil => simp [IsLinked, forward_of_next ring.1.1]
  | cons x rest => simp [IsLinked, forward_of_next ring.1.1.1]

/-- A node that is a ring by itself is put at the end of a ring. -/
theorem Consistent.exists_append (consistent : s.Consistent) {head new : Nat} {rest : List Nat}
    (ring : s.IsRing (head :: rest)) (single : s.IsRing [new]) (isNew : new ∉ head :: rest) :
    ∃ s', s.insertBefore head new = .ok s' ∧ s'.Consistent ∧ s'.IsRing (head :: rest ++ [new]) ∧
      s.Relinks s' (head :: rest ++ [new]) := by
  rcases Store.exists_insertBefore ring single isNew with ⟨s', ran, longer, relinks⟩
  have alone : s.forward new = some new := forward_of_next single.1.1
  rcases consistent.exists_insertBefore ring.isLinked (single.lt_size new List.mem_cons_self)
    (by simp [alone]) (fun same => isNew (same ▸ List.mem_cons_self)) with ⟨_, _, ran', kept, _⟩
  cases ran.symm.trans ran'
  exact ⟨s', ran, kept, longer, relinks⟩

end Entail.Ring.Store
