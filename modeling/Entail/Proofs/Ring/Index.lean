import Entail.Proofs.Horn.Rules
import Entail.Proofs.Ring.Base
import Entail.Ring.Index

/-!
# Horn indexes of what a store shows

A copy of a clause is taken apart into rings that hold its conjuncts, each in a
region of its own, so that bringing one of them into Horn form spares the rest.
-/

namespace Entail

namespace Formula

theorem depth_unwrap_le (f : Formula) : f.unwrap.depth ≤ f.depth := by
  fun_induction unwrap f with
  | case1 content ih => exact Nat.le_succ_of_le ih
  | case2 => exact Nat.le_refl _

theorem conjuncts_single (x : Operand) : (single x).conjuncts = x.conjuncts := by
  simp [conjuncts, links, rowConjuncts]

theorem conjuncts_unwrap (f : Formula) : f.unwrap.conjuncts = f.conjuncts := by
  fun_induction unwrap f with
  | case1 content ih =>
      rw [ih, conjuncts_single, Operand.conjuncts, if_neg Bool.false_ne_true, conjuncts]
  | case2 => rfl

/-- What is unwrapped of an operand has less levels of rows than the row. -/
theorem depth_unwrap_lt {f : Formula} {x : Operand} (isOperand : x ∈ f.operands)
    (opens : (single x).unwrap.links ≠ []) : (single x).unwrap.depth < f.depth := by
  match x with
  | .symbol _ _ => exact absurd rfl opens
  | .group true _ => exact absurd rfl opens
  | .group false content =>
      rcases Nat.exists_eq_succ_of_ne_zero (Nat.ne_of_gt f.one_le_depth) with ⟨levels, same⟩
      have inner := depth_le_succ_iff.1 (Nat.le_of_eq same) _ (operand_mem_parts.2 isOperand)
      rw [same]
      exact Nat.lt_succ_of_le (Nat.le_trans content.depth_unwrap_le inner)

theorem rowConjuncts_eq_flatMap (f : Formula) :
    f.rowConjuncts = f.operands.flatMap fun x => (single x).conjuncts := by
  cases f with
  | single x => simp [rowConjuncts, operands, conjuncts_single]
  | chain x c rest =>
      simp [rowConjuncts, operands, conjuncts_single, rowConjuncts_eq_flatMap rest]

theorem unwrap_ne_group (f content : Formula) : f.unwrap ≠ single (.group false content) := by
  fun_induction unwrap f with
  | case1 _ ih => exact ih
  | case2 f notGroup => exact fun same => notGroup content same

/-- Once it is unwrapped, a formula is taken apart if it is a row of conjunctions. -/
theorem conjuncts_eq (f : Formula) :
    f.conjuncts = if f.unwrap.links.isEmpty || f.unwrap.links.any (· != .conj) then [f.unwrap]
      else f.unwrap.operands.flatMap fun x => (single x).conjuncts := by
  rw [← conjuncts_unwrap]
  cases same : f.unwrap with
  | single x =>
      rw [conjuncts_single]
      match x with
      | .symbol _ _ => rfl
      | .group true _ => rfl
      | .group false content => exact absurd same (f.unwrap_ne_group content)
  | chain x c rest =>
      have opposite : (chain x c rest).links.any (· != .conj) =
          !(chain x c rest).links.all (· == .conj) := by
        rw [List.all_eq_not_any_not, Bool.not_not]
        rfl
      rw [opposite, conjuncts, rowConjuncts_eq_flatMap]
      cases (chain x c rest).links.all (· == .conj) <;> rfl

end Formula

namespace Ring.Builder

open Store

variable {s : Store} {A B D : Set Nat}

/-- Each operand of a ring is taken out of it and then taken apart. -/
theorem yields_mapM_isolate {step : Nat → Builder (List Nat)} {g : Operand → List Formula}
    {hs : List Nat} {xs : List Operand} (row : s.HasParts hs (xs.map .operand) B)
    (closed : s.IsClosed D) (member : ∀ k ∈ hs, k ∈ D) (only : ∀ k ∈ B, k ∈ D → k ∈ hs)
    (each : ∀ x ∈ xs, ∀ (s : Store) h A, s.HasRing h (.single x) A →
      (step h).Yields s A fun heads s' B => s'.HasRings heads (g x) B) :
    (hs.mapM fun h => do isolate h; step h).Yields s (D ∪ B)
      fun lists s' C => s'.HasRings lists.flatten (xs.flatMap g) C := by
  induction hs generalizing s xs B D with
  | nil =>
      cases xs with
      | nil => exact .pure (Set.empty_subset _) .nil
      | cons => cases row
  | cons h hs ih =>
      cases xs with
      | nil => cases row
      | cons x xs =>
          rcases List.forall_mem_cons.1 each with ⟨first, rest⟩
          rcases row.exists_isolate closed member only with
            ⟨s₁, X, Y, rfl, isolated, ring, row, closed, member, only, apart, evolves⟩
          rw [List.mapM_cons, bind_assoc]
          refine .edit_bind isolated (evolves.mono Set.subset_union_left) ?_
          refine (first s₁ h X ring).bind (by grind) fun heads s₂ C evolves rings => ?_
          rcases Set.disjoint_union_left.1 apart with ⟨apartClosed, apartRow⟩
          rcases evolves.parts row apartRow.symm with ⟨row, apartRow⟩
          have apart := evolves.disjoint apartClosed.symm closed.lt_size
          have closed := closed.congr (evolves.node_of_disjoint apartClosed.symm closed.lt_size)
          refine (ih row closed member only rest).bind (by grind) fun lists s₃ E evolves others => ?_
          rcases evolves.rings rings (by grind) with ⟨rings, apart⟩
          exact .pure (B := C ∪ E) (by grind) (rings.append others apart.symm)

/-- A ring is taken apart into rings of its conjuncts.  A row of conjunctions takes a level more than
there are levels of rows in it. -/
theorem yields_conjunctsTo {levels head : Nat} {f : Formula} (ring : s.HasRing head f A)
    (positive : 0 < levels) (enough : f.unwrap.links ≠ [] → f.unwrap.depth < levels) :
    (conjunctsTo levels head).Yields s A fun heads s' B => s'.HasRings heads f.conjuncts B := by
  induction levels generalizing s head f A with
  | zero => exact absurd positive (Nat.lt_irrefl 0)
  | succ levels ih =>
      rw [f.conjuncts_eq]
      refine .get ?_
      refine (yields_unwrapTo ring (Nat.le_succ_of_le ring.depth_le_size)).bind Set.Subset.rfl ?_
      intro inner s₁ B _ ring
      refine .read ring.shows.connectives ?_
      split
      · exact .pure Set.subset_union_right (hasRings_singleton ring)
      · next conjunction =>
          have several : f.unwrap.links ≠ [] := by grind
          have deep := Nat.le_of_lt_succ (enough several)
          rcases ring with ⟨rest, isRing, row⟩
          rcases row.exists_operands with ⟨operands, C, filtered, parts, within, listed, only⟩
          have read : s₁.operands inner = .ok operands := by
            simp only [Store.operands, walk_ring isRing, bind, Except.bind, filtered]
          refine .read read ?_
          have inRow := row.mem
          have each : ∀ x ∈ f.unwrap.operands, ∀ (s : Store) h A, s.HasRing h (.single x) A →
              (conjunctsTo levels h).Yields s A fun heads s' B =>
                s'.HasRings heads (Formula.single x).conjuncts B := by
            intro x isOperand s h A ring
            refine ih ring (Nat.le_trans f.unwrap.one_le_depth deep) fun opens => ?_
            exact Nat.lt_of_lt_of_le (Formula.depth_unwrap_lt isOperand opens) deep
          refine ((yields_mapM_isolate parts isRing.isClosed listed (by grind) each).bind
            (by grind) fun lists s₂ D _ rings => ?_)
          exact .pure Set.subset_union_right rings

/-! ### Adding conjuncts -/

theorem comesTo_addHorn {head : Nat} {f : Formula} (ring : s.HasRing head f A)
    (index : HornIndex) :
    (addHorn index head).ComesTo s A (index.insertHorn f) fun made index' _ _ => made = index' := by
  have bound : index.insertHorn f = f.horn >>= fun g => .ok (index.insert g) := by
    rw [HornIndex.insertHorn]
    cases f.horn <;> rfl
  rw [addHorn, bound]
  refine (comesTo_horn ring).bind Set.Subset.rfl fun normal g s₁ B _ ring => ?_
  exact .read ring.formula (Yields.pure (B := ∅) (Set.empty_subset _) rfl)

theorem comesTo_foldlM_addHorn {heads : List Nat} {fs : List Formula}
    (rings : s.HasRings heads fs A) (index : HornIndex) :
    (heads.foldlM addHorn index).ComesTo s A (fs.foldlM HornIndex.insertHorn index)
      fun made index' _ _ => made = index' := by
  induction heads generalizing s fs A index with
  | nil =>
      cases rings
      exact Yields.pure (B := ∅) Set.Subset.rfl rfl
  | cons head heads ih =>
      cases rings with
      | cons ring rings apart =>
          rw [List.foldlM_cons, List.foldlM_cons]
          refine (comesTo_addHorn ring index).bind Set.subset_union_left ?_
          rintro index _ s₁ B evolves rfl
          exact (ih (evolves.rings rings apart).1 index).mono (by grind)

theorem comesTo_addClauseTo {head : Nat} {f : Formula} (shown : s.Shows head f)
    (index : HornIndex) :
    (addClauseTo index head).ComesTo s ∅ (f.conjuncts.foldlM HornIndex.insertHorn index)
      fun made index' _ _ => made = index' := by
  refine .after_yields (yields_copy shown) Set.Subset.rfl fun copied s₁ B _ ring => ?_
  refine .get ?_
  have deep : f.unwrap.depth < s₁.size + 1 :=
    Nat.lt_succ_of_le (Nat.le_trans f.depth_unwrap_le ring.depth_le_size)
  refine .after_yields (yields_conjunctsTo ring (Nat.succ_pos _) fun _ => deep)
    Set.subset_union_right fun heads s₂ C _ rings => ?_
  exact (comesTo_foldlM_addHorn rings index).mono Set.subset_union_right

end Ring.Builder

open Entail.Ring Entail.Ring.Store Entail.Ring.Builder

/-- The index of a knowledge base in a store is that of what its rings show, and if a clause has no
Horn form, the same one has none. -/
theorem Ring.Base.Shows.comesTo_index {kb : Base} {base : KnowledgeBase} {s : Store}
    (shown : kb.Shows s base) :
    kb.index.ComesTo s ∅ (HornIndex.ofKnowledgeBase base) fun made index _ _ => made = index := by
  have each {heads : List Nat} {fs : List Formula} (s : Store)
      (shown : List.Forall₂ s.Shows heads fs) (index : HornIndex) :
      (heads.foldlM addClauseTo index).ComesTo s ∅
        (fs.foldlM (fun index f => f.conjuncts.foldlM HornIndex.insertHorn index) index)
        fun made index' _ _ => made = index' := by
    induction heads generalizing s fs index with
    | nil =>
        cases shown
        exact Yields.pure (B := ∅) Set.Subset.rfl rfl
    | cons head heads ih =>
        cases shown with
        | @cons _ f _ fs first rest =>
            rw [List.foldlM_cons, List.foldlM_cons]
            refine (comesTo_addClauseTo first index).bind Set.Subset.rfl ?_
            rintro index _ s₁ B evolves rfl
            have rest := Lasting.forall₂ lasting_shows heads fs evolves rest
            exact (ih s₁ rest index).mono (Set.empty_subset _)
  rw [HornIndex.ofKnowledgeBase_eq_foldlM]
  exact each s shown .empty

end Entail
