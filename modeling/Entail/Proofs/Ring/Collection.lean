import Mathlib.Data.List.Forall2
import Entail.Proofs.Ring.Copy

/-!
# Several rings

What is done to the elements of a list one after the other comes to the list of
what it comes to for each, as long as no step disturbs what the others work on:
either every ring has a region of its own, or no node that there was changes.
-/

namespace Entail.Ring

namespace Store

variable {s s' : Store} {A B : Set Nat}

/-! ### Regions of several rings -/

/-- The rings of the given heads hold the formulas, which take up disjoint parts of the region. -/
inductive HasRings (s : Store) : List Nat → List Formula → Set Nat → Prop
  | nil : HasRings s [] [] ∅
  | cons {head : Nat} {f : Formula} {heads : List Nat} {fs : List Formula} {A B : Set Nat} :
      s.HasRing head f A → HasRings s heads fs B → Disjoint A B →
      HasRings s (head :: heads) (f :: fs) (A ∪ B)

theorem HasRings.lt_size {heads : List Nat} {fs : List Formula} (rings : s.HasRings heads fs A) :
    ∀ k ∈ A, k < s.size := by
  induction rings with
  | nil => exact fun k isNode => isNode.elim
  | cons ring _ _ ih => exact fun k isNode => isNode.elim (ring.lt_size k) (ih k)

theorem HasRings.congr {heads : List Nat} {fs : List Formula} (rings : s.HasRings heads fs A)
    (node : ∀ k ∈ A, s'.node k = s.node k) : s'.HasRings heads fs A := by
  induction rings with
  | nil => exact .nil
  | cons ring _ apart ih =>
      exact .cons (ring.congr fun k isFirst => node k (.inl isFirst))
        (ih fun k isRest => node k (.inr isRest)) apart

theorem HasRings.append {heads heads' : List Nat} {fs fs' : List Formula}
    (rings : s.HasRings heads fs A) (rings' : s.HasRings heads' fs' B) (apart : Disjoint A B) :
    s.HasRings (heads ++ heads') (fs ++ fs') (A ∪ B) := by
  induction rings with
  | nil => rwa [Set.empty_union]
  | cons ring _ apart' ih =>
      rcases Set.disjoint_union_left.1 apart with ⟨first, rest⟩
      rw [Set.union_assoc]
      exact .cons ring (ih rest) (Set.disjoint_union_right.2 ⟨apart', first⟩)

theorem hasRings_singleton {head : Nat} {f : Formula} (ring : s.HasRing head f A) :
    s.HasRings [head] [f] A := by
  simpa using HasRings.cons ring .nil (Set.disjoint_empty A)

theorem HasRings.shows {heads : List Nat} {fs : List Formula} (rings : s.HasRings heads fs A) :
    List.Forall₂ s.Shows heads fs := by
  induction rings with
  | nil => exact .nil
  | cons ring _ _ ih => exact .cons ring.shows ih

theorem Evolves.rings {R : Set Nat} (evolves : s.Evolves s' A B) {heads : List Nat}
    {fs : List Formula} (rings : s.HasRings heads fs R) (apart : Disjoint A R) :
    s'.HasRings heads fs R ∧ Disjoint B R :=
  ⟨rings.congr (evolves.node_of_disjoint apart rings.lt_size),
    evolves.disjoint apart rings.lt_size⟩

/-! ### What lasts while no node changes -/

/-- The property lasts as long as no node that there was changes. -/
def Lasting (P : Store → Prop) : Prop :=
  ∀ ⦃s s' : Store⦄ ⦃B : Set Nat⦄, s.Evolves s' ∅ B → P s → P s'

theorem lasting_const (p : Prop) : Lasting fun _ => p :=
  fun _ _ _ _ holds => holds

theorem lasting_showsRow (head : Nat) (parts : List Part) :
    Lasting fun s => s.ShowsRow head parts :=
  fun _ _ _ evolves row => row.congr evolves.keeps

theorem lasting_shows (head : Nat) (f : Formula) : Lasting fun s => s.Shows head f :=
  lasting_showsRow head f.parts

theorem Lasting.forall₂ {α β : Type} {P : Store → α → β → Prop}
    (each : ∀ a b, Lasting fun s => P s a b) (as : List α) (bs : List β) :
    Lasting fun s => List.Forall₂ (P s) as bs :=
  fun _ _ _ evolves all => all.imp fun a b => each a b evolves

end Store

namespace Builder

open Store

variable {s : Store} {A : Set Nat}

/-- What is done to each of several rings in regions of their own is done to all of them. -/
theorem comesTo_mapM {x : Nat → Builder Nat} {g : Formula → Except Error Formula}
    {heads : List Nat} {fs : List Formula} (rings : s.HasRings heads fs A)
    (each : ∀ (s : Store) head f A, s.HasRing head f A →
      (x head).ComesTo s A (g f) fun h c s' B => s'.HasRing h c B) :
    (heads.mapM x).ComesTo s A (fs.mapM g) fun hs cs s' B => s'.HasRings hs cs B := by
  induction heads generalizing s fs A with
  | nil =>
      cases rings
      exact Yields.pure Set.Subset.rfl .nil
  | cons head heads ih =>
      cases rings with
      | @cons _ f _ fs X Y ring rings apart =>
          rw [List.mapM_cons, List.mapM_cons]
          refine (each s head f X ring).bind Set.subset_union_left fun h g s₁ C evolves first => ?_
          rcases evolves.rings rings apart with ⟨rings, apart⟩
          refine (ih rings).bind (by grind) fun hs gs s₂ D evolves rest => ?_
          rcases evolves.row first apart.symm with ⟨first, apart⟩
          exact Yields.pure (B := C ∪ D) (by grind) (.cons first rest apart.symm)

/-- What is done to each element of a list without changing any node is done to all of them. -/
theorem comesTo_mapM_of_lasting {α β γ δ : Type} {x : α → Builder β} {g : γ → Except Error δ}
    {pre : Store → α → γ → Prop} {post : Store → β → δ → Prop}
    (preLasts : ∀ a c, Lasting fun s => pre s a c) (postLasts : ∀ b d, Lasting fun s => post s b d)
    (each : ∀ s a c, pre s a c → (x a).ComesTo s ∅ (g c) fun b d s' _ => post s' b d)
    {as : List α} {cs : List γ} (given : List.Forall₂ (pre s) as cs) :
    (as.mapM x).ComesTo s ∅ (cs.mapM g) fun bs ds s' _ => List.Forall₂ (post s') bs ds := by
  induction as generalizing s cs with
  | nil =>
      cases given
      exact Yields.pure Set.Subset.rfl .nil
  | cons a as ih =>
      cases given with
      | @cons _ c _ cs first rest =>
          rw [List.mapM_cons, List.mapM_cons]
          refine (each s a c first).bind Set.Subset.rfl fun b d s₁ C evolves done => ?_
          have rest' := Lasting.forall₂ preLasts as cs evolves rest
          refine (ih rest').bind (Set.empty_subset _) fun bs ds s₂ D evolves' all => ?_
          exact Yields.pure (B := ∅) (Set.empty_subset _)
            (.cons (postLasts b d evolves' done) all)

end Builder

end Entail.Ring
