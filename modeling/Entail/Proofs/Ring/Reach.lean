import Mathlib.Data.List.Rotate
import Mathlib.Logic.Relation
import Entail.Proofs.Ring.Links

/-!
# What is reached from a node

The forward links lead from a member of a ring to all other members, and the
backward links lead nowhere else.  From a group, the ring that it owns is
reached as well.
-/

namespace Entail.Ring.Store

variable {s : Store}

/-! ### Members of rings -/

/-- The forward link of the first node leads to the second. -/
def Leads (s : Store) (a b : Nat) : Prop :=
  s.next a = .ok (some b)

theorem Path.leads {a b : Nat} {rest : List Nat} (path : s.Path a rest b) :
    ∀ x ∈ a :: rest, Relation.ReflTransGen s.Leads a x := by
  induction rest generalizing a with
  | nil =>
      rw [List.forall_mem_singleton]
  | cons y rest ih =>
      rcases path with ⟨⟨leads, _⟩, path⟩
      rw [List.forall_mem_cons]
      exact ⟨.refl, fun x listed => .head leads (ih path x listed)⟩

theorem Path.mem_of_leads {a b : Nat} {rest : List Nat} (path : s.Path a rest b) {x y : Nat}
    (listed : x ∈ a :: rest) (leads : s.Leads x y) : y ∈ rest ++ [b] := by
  induction rest generalizing a with
  | nil =>
      rw [List.mem_singleton] at listed
      subst listed
      have same := leads.symm.trans path.1
      simp only [Except.ok.injEq, Option.some.injEq] at same
      exact List.mem_singleton.2 same
  | cons z rest ih =>
      rcases path with ⟨⟨leads', _⟩, path⟩
      rcases List.mem_cons.1 listed with rfl | isRest
      · have same := leads.symm.trans leads'
        simp only [Except.ok.injEq, Option.some.injEq] at same
        exact same ▸ List.mem_cons_self
      · exact List.mem_cons_of_mem _ (ih path isRest)

namespace IsRing

variable {members more : List Nat}

/-- The members of a ring are the nodes that the links lead to from any of them. -/
theorem mem_iff {h : Nat} {rest : List Nat} (ring : s.IsRing (h :: rest)) {x : Nat} :
    x ∈ h :: rest ↔ Relation.ReflTransGen s.Leads h x := by
  constructor
  · exact ring.1.leads x
  · intro leads
    induction leads with
    | refl => exact List.mem_cons_self
    | tail _ leads ih =>
        have isMember := ring.1.mem_of_leads ih leads
        rwa [List.mem_append, List.mem_singleton, or_comm, ← List.mem_cons] at isMember

/-- Each member of a ring is its first member after a rotation. -/
theorem exists_isRotated (ring : s.IsRing members) {k : Nat} (isMember : k ∈ members) :
    ∃ rest, s.IsRing (k :: rest) ∧ (k :: rest) ~r members := by
  rcases List.append_of_mem isMember with ⟨left, right, rfl⟩
  exact ⟨right ++ left, ring.rotate, List.isRotated_append (l := k :: right)⟩

/-- The walk from a node of a ring lists the ring from this node on. -/
theorem walk_eq {h : Nat} {left right : List Nat} (ring : s.IsRing (left ++ h :: right)) :
    s.walk h = .ok (h :: right ++ left) :=
  walk_ring ring.rotate

theorem exists_walk (ring : s.IsRing members) :
    ∀ k ∈ members, ∃ rotated, s.walk k = .ok rotated ∧ rotated ~r members := by
  intro k isMember
  rcases ring.exists_isRotated isMember with ⟨rest, ring', isRotated⟩
  exact ⟨_, walk_ring ring', isRotated⟩

/-- Rings that share a node are one ring. -/
theorem isRotated (ring : s.IsRing members) (ring' : s.IsRing more) {k : Nat}
    (isMember : k ∈ members) (isOther : k ∈ more) : members ~r more := by
  rcases ring.exists_walk k isMember with ⟨rotated, walked, isRotated⟩
  rcases ring'.exists_walk k isOther with ⟨rotated', walked', isRotated'⟩
  cases walked.symm.trans walked'
  exact isRotated.symm.trans isRotated'

/-- The links of a member of a ring lead to members. -/
theorem mem_of_link (ring : s.IsRing members) {a b : Nat} (isMember : a ∈ members)
    (link : s.next a = .ok (some b) ∨ s.prev a = .ok (some b)) : b ∈ members := by
  rcases ring.exists_isRotated isMember with ⟨rest, ring', isRotated⟩
  rw [← isRotated.mem_iff]
  rcases link with next | prev
  · exact ring'.mem_iff.2 (.single next)
  · rcases ring'.1.redirect ring'.2 with ⟨last, listed, ⟨_, front⟩, _⟩
    cases front.symm.trans prev
    exact listed

end IsRing

/-! ### Links and groups -/

/-- A link leads from the first node to the second, or the first node owns the ring of the
second. -/
def Steps (s : Store) (a b : Nat) : Prop :=
  s.next a = .ok (some b) ∨ s.prev a = .ok (some b) ∨ s.payload a = .ok (.group b)

/-- Links and groups lead from the first node to the second. -/
def Reaches (s : Store) : Nat → Nat → Prop :=
  Relation.ReflTransGen s.Steps

/-- The members of a ring are reached from its head. -/
theorem IsRing.reaches {h : Nat} {rest : List Nat} (ring : s.IsRing (h :: rest)) :
    ∀ x ∈ h :: rest, s.Reaches h x :=
  fun x isMember => Relation.ReflTransGen.mono (fun _ _ => .inl) h x (ring.mem_iff.1 isMember)

/-- A group reaches the ring that it owns. -/
theorem Reaches.of_group {h head : Nat} {rest : List Nat}
    (payload : s.payload h = .ok (.group head)) (ring : s.IsRing (head :: rest)) :
    ∀ x ∈ head :: rest, s.Reaches h x :=
  fun x isMember => .head (.inr (.inr payload)) (ring.reaches x isMember)

end Entail.Ring.Store
