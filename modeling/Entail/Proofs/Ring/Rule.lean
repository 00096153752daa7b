import Entail.Proofs.NormalForm.Rule
import Entail.Proofs.Ring.Copy

/-!
# Rules on nodes

What a rule makes of two nodes is the ring of what it makes of their operands.
A rule is applied to the neighbours of a connective by taking them out of their
ring; the connective becomes the group of the result.
-/

namespace Entail

namespace Rule

theorem operandsOf?_eq_none_iff {dual : Connective} {x : Operand} :
    operandsOf? dual x = none ↔ x.isFlat dual = false := by
  rcases x with _ | ⟨_ | _, content⟩
  · exact iff_of_true rfl rfl
  · cases isFlat : content.links.all (· == dual) <;> simp [operandsOf?, Operand.isFlat, isFlat]
  · exact iff_of_true rfl rfl

theorem partsOf_of_not_isFlat {dual : Connective} {x : Operand}
    (notFlat : x.isFlat dual = false) : partsOf dual x = [x] := by
  rw [partsOf, operandsOf?_eq_none_iff.2 notFlat, Option.getD_none]

theorem partsOf_group {dual : Connective} {content : Formula}
    (isFlat : (Operand.group false content).isFlat dual = true) :
    partsOf dual (.group false content) = content.operands := by
  rw [Operand.isFlat] at isFlat
  rw [partsOf, operandsOf?, if_pos isFlat, Option.getD_some]

/-- Where neither side is a group of the dual, the pair is left as it is. -/
theorem distributeOver_of_not_isFlat {c dual : Connective} {x y : Operand}
    (left : x.isFlat dual = false) (right : y.isFlat dual = false) :
    distributeOver c dual x y = .pair x c y := by
  rw [distributeOver, operandsOf?_eq_none_iff.2 left, operandsOf?_eq_none_iff.2 right]

/-- Where one side is a group of the dual, all pairs of parts are joined. -/
theorem exists_distributeOver_of_isFlat {c dual : Connective} {x y : Operand}
    (isFlat : x.isFlat dual = true ∨ y.isFlat dual = true) :
    ∃ first rest, pairings c (partsOf dual x) (partsOf dual y) = first :: rest ∧
      distributeOver c dual x y = .join dual first rest := by
  rcases distributeOver_cases c dual x y with ⟨noLeft, noRight, _⟩ | distributed
  · rw [operandsOf?_eq_none_iff] at noLeft noRight
    rw [noLeft, noRight] at isFlat
    simp at isFlat
  · exact distributed

end Rule

namespace Ring

namespace Store

variable {s s' : Store} {A B : Set Nat}

/-! ### Changing what a node holds -/

/-- The only change is in what the given node holds. -/
structure Retains (s s' : Store) (h : Nat) : Prop where
  size : s'.size = s.size
  next : ∀ k, s'.next k = s.next k
  prev : ∀ k, s'.prev k = s.prev k
  node : ∀ k, k ≠ h → s'.node k = s.node k

namespace Retains

variable {h : Nat}

theorem of_modify {f : Node → Node} (modified : s.modify h f = .ok s')
    (next : ∀ n, (f n).next = n.next) (prev : ∀ n, (f n).prev = n.prev) : s.Retains s' h :=
  ⟨size_of_modify modified, map_node_of_modify modified _ next,
    map_node_of_modify modified _ prev, fun _ different => node_of_modify_of_ne modified different⟩

theorem isRing (retains : s.Retains s' h) {members : List Nat} (isRing : s.IsRing members) :
    s'.IsRing members :=
  isRing.congr_links (fun k _ => retains.next k) fun k _ => retains.prev k

theorem evolves (retains : s.Retains s' h) (isNode : h ∈ A) (subset : B ⊆ A) :
    s.Evolves s' A B :=
  ⟨Nat.le_of_eq retains.size.symm,
    fun k _ outside => retains.node k fun same => outside (same ▸ isNode),
    fun _ isNode => .inl (subset isNode)⟩

end Retains

theorem Regroups.retains {h head : Nat} (regroups : s.Regroups s' h head) : s.Retains s' h :=
  ⟨regroups.size, regroups.next, regroups.prev, regroups.node⟩

/-- A node that comes to hold a ring is a group; its negation is left as it was. -/
theorem Holds.exists_setPayload {h : Nat} {payload : Payload} {negated : Bool}
    (holds : s.Holds h payload negated) (payload' : Payload) :
    ∃ s', s.setPayload h payload' = .ok s' ∧ s'.Holds h payload' negated ∧ s.Retains s' h := by
  rcases exists_modify holds.lt_size fun n => { n with payload := payload' } with ⟨s', modified⟩
  rcases holds.exists_node with ⟨n, found, _, rfl⟩
  refine ⟨s', modified, ⟨?_, ?_⟩, .of_modify modified (fun _ => rfl) fun _ => rfl⟩
  · rw [Store.payload, node_of_modify modified found]
    rfl
  · rw [Store.negated, node_of_modify modified found]
    rfl

theorem Holds.exists_toggle {h : Nat} {payload : Payload} {negated : Bool}
    (holds : s.Holds h payload negated) :
    ∃ s', s.toggle h = .ok s' ∧ s'.Holds h payload !negated ∧ s.Retains s' h := by
  rcases exists_modify holds.lt_size fun n => { n with negated := !n.negated } with ⟨s', modified⟩
  rcases holds.exists_node with ⟨n, found, rfl, rfl⟩
  refine ⟨s', modified, ⟨?_, ?_⟩, .of_modify modified (fun _ => rfl) fun _ => rfl⟩
  · rw [Store.payload, node_of_modify modified found]
    rfl
  · rw [Store.negated, node_of_modify modified found]
    rfl

theorem HasPart.exists_toggle {h : Nat} {x : Operand} (part : s.HasPart h (.operand x) A) :
    ∃ s', s.toggle h = .ok s' ∧ s'.HasPart h (.operand x.toggle) A ∧ s.Retains s' h := by
  cases part with
  | symbol holds =>
      rcases holds.exists_toggle with ⟨s', toggled, holds, retains⟩
      exact ⟨s', toggled, .symbol holds, retains⟩
  | group holds isRing row apart =>
      rcases holds.exists_toggle with ⟨s', toggled, holds, retains⟩
      have kept := row.congr fun k isNode => retains.node k fun same => apart (same ▸ isNode)
      exact ⟨s', toggled, .group holds (retains.isRing isRing) kept apart, retains⟩

theorem HasRow.exists_toggle {h : Nat} {x : Operand} (row : s.HasRow h [.operand x] A) :
    ∃ s', s.toggle h = .ok s' ∧ s'.HasRow h [.operand x.toggle] A ∧ s.Evolves s' A A := by
  rcases hasRow_singleton_iff.1 row with ⟨isRing, part⟩
  rcases part.exists_toggle with ⟨s', toggled, part', retains⟩
  exact ⟨s', toggled, hasRow_singleton_iff.2 ⟨retains.isRing isRing, part'⟩,
    retains.evolves part.mem Set.Subset.rfl⟩

/-- The operands of a node as a row of `dual`. -/
theorem ShowsPart.exists_operandsOf {h : Nat} {x : Operand} (part : s.ShowsPart h (.operand x))
    (dual : Connective) :
    ∃ operands, (do if ← s.isFlat h dual then s.operands (← s.content h) else return [h]) =
        Except.ok operands ∧
      s.ShowsParts operands ((Rule.partsOf dual x).map .operand) := by
  rw [part.isFlat]
  cases isFlat : x.isFlat dual with
  | false =>
      rw [Rule.partsOf_of_not_isFlat isFlat]
      exact ⟨[h], rfl, .cons part .nil⟩
  | true =>
      match x, part with
      | .group false content, .group holds isRing row =>
          rcases row.exists_operands with ⟨operands, filtered, row⟩
          rw [Rule.partsOf_group isFlat]
          refine ⟨operands, ?_, row⟩
          simp only [bind, Except.bind, if_true, holds.content, Store.operands, walk_ring isRing,
            filtered]

end Store

namespace Builder

open Store

variable {s : Store} {A B : Set Nat}

/-! ### Rules -/

section Rules

variable {left right : Nat} {x y : Operand}

theorem yields_implication (first : s.HasRow left [.operand x] A)
    (second : s.HasRow right [.operand y] B) (apart : Disjoint A B) (c : Connective) :
    (implication left c right).Yields s (A ∪ B)
      fun h s' C => s'.HasRing h (Rule.implication x c y) C := by
  cases c with
  | conj | iff => exact yields_pair first second apart _
  | impl =>
      rcases first.exists_toggle with ⟨s₁, toggled, first', evolves⟩
      rcases evolves.row second apart with ⟨second', _⟩
      refine .edit_bind toggled (evolves.mono Set.subset_union_left) ?_
      exact (yields_pair first' second' apart .disj).mono (by grind)
  | disj =>
      have leftSign := (hasRow_singleton_iff.1 first).2.shows.negated
      have rightSign := (hasRow_singleton_iff.1 second).2.shows.negated
      refine .read leftSign (.read rightSign ?_)
      rw [Rule.implication]
      split
      · exact yields_pair first second apart .disj
      · split
        · rcases first.exists_toggle with ⟨s₁, toggled, first', evolves⟩
          rcases evolves.row second apart with ⟨second', _⟩
          refine .edit_bind toggled (evolves.mono Set.subset_union_left) ?_
          exact (yields_pair first' second' apart .impl).mono (by grind)
        · rcases second.exists_toggle with ⟨s₁, toggled, second', evolves⟩
          rcases evolves.row first apart.symm with ⟨first', _⟩
          refine .edit_bind toggled (evolves.mono Set.subset_union_right) ?_
          exact (yields_pair second' first' apart.symm .impl).mono (by grind)

theorem yields_addGroup_pair (first : s.HasRow left [.operand x] A)
    (second : s.HasRow right [.operand y] B) (apart : Disjoint A B) (c : Connective) :
    Yields (do addGroup (← pair left c right) false) s (A ∪ B)
      fun h s' C => s'.HasRow h [.operand (.group false (.pair x c y))] C := by
  refine (yields_pair first second apart c).bind Set.Subset.rfl fun ring s₁ C _ row => ?_
  exact (yields_addGroup row false).mono Set.subset_union_right

/-- Two nodes are copied one after the other. -/
theorem Yields.copy_both {α : Type} {p q : Part} {R : Set Nat} {f : Nat → Nat → Builder α}
    {post : α → Store → Set Nat → Prop} (first : s.ShowsPart left p) (second : s.ShowsPart right q)
    (rest : ∀ left' right' s' C D, s.Evolves s' ∅ (C ∪ D) → s'.HasRow left' [p] C →
      s'.HasRow right' [q] D → Disjoint C D → Yields (f left' right') s' (R ∪ (C ∪ D)) post) :
    Yields (do let left' ← copyNode left; let right' ← copyNode right; f left' right') s R
      post := by
  refine (yields_copyNode first).bind (Set.empty_subset _) fun left' s₁ C evolves first' => ?_
  have second := second.congr evolves.keeps
  refine (yields_copyNode second).bind (Set.empty_subset _) fun right' s₂ D evolves' second' => ?_
  rcases evolves'.row first' (Set.empty_disjoint C) with ⟨first', apart⟩
  have both : s.Evolves s₂ ∅ (C ∪ D) := evolves.comp evolves' (by grind) (by grind)
  exact (rest left' right' s₂ C D both first' second' apart.symm).mono (by grind)

/-- Two nodes are toggled one after the other. -/
theorem Yields.toggle_both {α : Type} {R : Set Nat} {f : Builder α}
    {post : α → Store → Set Nat → Prop} (first : s.HasRow left [.operand x] A)
    (second : s.HasRow right [.operand y] B) (apart : Disjoint A B) (within : A ∪ B ⊆ R)
    (rest : ∀ s', s.Evolves s' (A ∪ B) (A ∪ B) → s'.HasRow left [.operand x.toggle] A →
      s'.HasRow right [.operand y.toggle] B → Yields f s' R post) :
    Yields (do toggle left; toggle right; f) s R post := by
  rcases first.exists_toggle with ⟨s₁, toggled, first', evolves⟩
  rcases evolves.row second apart with ⟨second, _⟩
  rcases second.exists_toggle with ⟨s₂, toggled', second', evolves'⟩
  rcases evolves'.row first' apart.symm with ⟨first', _⟩
  have both : s.Evolves s₂ (A ∪ B) (A ∪ B) :=
    (evolves.mono Set.subset_union_left).comp evolves' (by grind) (by grind)
  refine .edit_bind toggled (evolves.mono (by grind)) ?_
  refine .edit_bind toggled' (evolves'.mono (by grind)) ?_
  exact (rest s₂ both first' second').mono (by grind)

/-- A pair of nodes becomes the ring of a new group. -/
theorem Yields.group_pair {α : Type} {R : Set Nat} {c : Connective} {f : Nat → Builder α}
    {post : α → Store → Set Nat → Prop} (first : s.HasRow left [.operand x] A)
    (second : s.HasRow right [.operand y] B) (apart : Disjoint A B) (within : A ∪ B ⊆ R)
    (rest : ∀ g s' C, s.Evolves s' (A ∪ B) C →
      s'.HasRow g [.operand (.group false (.pair x c y))] C → Yields (f g) s' (R ∪ C) post) :
    Yields (do let g ← addGroup (← pair left c right) false; f g) s R post := by
  refine (yields_pair first second apart c).bind within fun ring s₁ C evolves row => ?_
  refine (yields_addGroup row false).bind Set.subset_union_right fun g s₂ D evolves' group => ?_
  exact (rest g s₂ D (evolves.comp evolves' (by grind) (by grind)) group).mono (by grind)

theorem yields_biconditional (first : s.HasRow left [.operand x] A)
    (second : s.HasRow right [.operand y] B) (apart : Disjoint A B) (c : Connective) :
    (biconditional left c right).Yields s (A ∪ B)
      fun h s' C => s'.HasRing h (Rule.biconditional x c y) C := by
  cases c with
  | conj | disj | impl => exact yields_pair first second apart _
  | iff =>
      have part := (hasRow_singleton_iff.1 first).2.shows
      have part' := (hasRow_singleton_iff.1 second).2.shows
      refine .copy_both part part' ?_
      intro left' right' s₁ A' B' evolves first' second' apart'
      rcases evolves.row first (Set.empty_disjoint A) with ⟨first, apartFirst⟩
      rcases evolves.row second (Set.empty_disjoint B) with ⟨second, apartSecond⟩
      have apartBoth : Disjoint (A ∪ B) (A' ∪ B') :=
        Set.disjoint_union_left.2 ⟨apartFirst.symm, apartSecond.symm⟩
      refine .toggle_both first second apart Set.subset_union_left fun s₂ evolves first second => ?_
      rcases Set.disjoint_union_right.1 apartBoth with ⟨apartFirst', apartSecond'⟩
      rcases evolves.row first' apartFirst' with ⟨first', _⟩
      rcases evolves.row second' apartSecond' with ⟨second', _⟩
      refine .group_pair first second apart (by grind) fun neither s₃ C evolves group => ?_
      rcases evolves.row first' apartFirst' with ⟨first', apartFirst'⟩
      rcases evolves.row second' apartSecond' with ⟨second', apartSecond'⟩
      refine .group_pair first' second' apart' (by grind) fun both s₄ D evolves group' => ?_
      rcases evolves.row group (by grind) with ⟨group, apartGroup⟩
      exact (yields_pair group group' (by grind) .disj).mono (by grind)

/-! ### Distribution -/

theorem yields_addPairing (first : s.ShowsPart left (.operand x))
    (second : s.ShowsPart right (.operand y)) (c : Connective) :
    (addPairing c left right).Yields s ∅
      fun h s' C => s'.HasRow h [.operand (.group false (.pair x c y))] C := by
  refine .copy_both first second fun left' right' s₁ C D _ first' second' apart => ?_
  exact (yields_addGroup_pair first' second' apart c).mono (by grind)

/-- A node is paired with every node of a row. -/
theorem yields_mapM_addPairing {rights : List Nat} {ys : List Operand}
    (first : s.ShowsPart left (.operand x)) (row : s.ShowsParts rights (ys.map .operand))
    (c : Connective) :
    (rights.mapM (addPairing c left)).Yields s ∅ fun hs s' C =>
      s'.HasSingles hs ((ys.map fun y => .group false (.pair x c y)).map .operand) C := by
  induction ys generalizing s rights with
  | nil =>
      cases row
      exact .pure Set.Subset.rfl (.nil s)
  | cons y ys ih =>
      cases row with
      | cons second row =>
          rw [List.mapM_cons]
          refine (yields_addPairing first second c).bind Set.Subset.rfl ?_
          intro h s₁ C evolves pairing
          have first := first.congr evolves.keeps
          have row := row.congr evolves.keeps
          refine (ih first row).bind (Set.empty_subset _) fun hs s₂ D evolves pairings => ?_
          rcases evolves.row pairing (Set.empty_disjoint C) with ⟨pairing, apart⟩
          refine .pure (B := C ∪ D) (by grind) ?_
          exact hasSingles_cons_iff.2 ⟨C, D, rfl, pairing, pairings, apart.symm⟩

/-- Every node of a row is paired with every node of another one. -/
theorem yields_pairings {lefts rights : List Nat} {xs ys : List Operand}
    (row : s.ShowsParts lefts (xs.map .operand)) (row' : s.ShowsParts rights (ys.map .operand))
    (c : Connective) :
    (lefts.mapM fun x => rights.mapM fun y => addPairing c x y).Yields s ∅ fun hss s' C =>
      s'.HasSingles hss.flatten ((Rule.pairings c xs ys).map .operand) C := by
  induction xs generalizing s lefts with
  | nil =>
      cases row
      exact .pure Set.Subset.rfl (.nil s)
  | cons x xs ih =>
      cases row with
      | cons first row =>
          rw [List.mapM_cons]
          refine (yields_mapM_addPairing first row' c).bind Set.Subset.rfl ?_
          intro hs s₁ C evolves pairings
          have row := row.congr evolves.keeps
          have row' := row'.congr evolves.keeps
          refine (ih row row').bind (Set.empty_subset _) fun hss s₂ D evolves pairings' => ?_
          rcases evolves.singles pairings (Set.empty_disjoint C) with ⟨pairings, apart⟩
          refine .pure (B := C ∪ D) (by grind) ?_
          rw [Rule.pairings, List.flatMap_cons, List.map_append]
          exact pairings.append pairings' apart.symm

/-- Where one node is a group of the dual, the new ring is all of new nodes. -/
theorem yields_distribute_of_isFlat (first : s.ShowsPart left (.operand x))
    (second : s.ShowsPart right (.operand y)) {c dual : Connective} (isDual : c.dual? = some dual)
    (isFlat : x.isFlat dual = true ∨ y.isFlat dual = true) :
    (distribute left c right).Yields s ∅
      fun h s' C => s'.HasRing h (Rule.distributeOver c dual x y) C := by
  rw [distribute, isDual]
  refine .read (second.isFlat dual) (.read (first.isFlat dual) ?_)
  rw [if_pos (by rwa [Bool.or_eq_true, or_comm])]
  rcases first.exists_operandsOf dual with ⟨lefts, read, row⟩
  rcases second.exists_operandsOf dual with ⟨rights, read', row'⟩
  refine .read read (.read read' ?_)
  refine (yields_pairings row row' c).bind Set.Subset.rfl fun hss s₁ E _ pairings => ?_
  rcases Rule.exists_distributeOver_of_isFlat (c := c) isFlat with ⟨z, zs, pairs, distributed⟩
  rw [pairs] at pairings
  rw [distributed]
  cases made : hss.flatten with
  | nil =>
      rw [made] at pairings
      cases pairings.parts
  | cons h hs =>
      rw [made] at pairings
      exact (yields_join pairings dual).mono Set.subset_union_right

/-- Where neither node is a group of the dual, the two are left as they are. -/
theorem distribute_eq_pair (first : s.ShowsPart left (.operand x))
    (second : s.ShowsPart right (.operand y)) {c dual : Connective} (isDual : c.dual? = some dual)
    (notFlat : ¬(x.isFlat dual = true ∨ y.isFlat dual = true)) :
    distribute left c right s = pair left c right s := by
  rw [distribute, isDual]
  dsimp only
  rw [bind_of_ok (read_of_ok (second.isFlat dual)), bind_of_ok (read_of_ok (first.isFlat dual)),
    if_neg (by rwa [Bool.or_eq_true, or_comm])]

/-- A connective is distributed over groups of its dual. -/
theorem yields_distribute (first : s.HasRow left [.operand x] A)
    (second : s.HasRow right [.operand y] B) (apart : Disjoint A B) {c dual : Connective}
    (isDual : c.dual? = some dual) :
    (distribute left c right).Yields s (A ∪ B)
      fun h s' C => s'.HasRing h (Rule.distributeOver c dual x y) C := by
  have part := (hasRow_singleton_iff.1 first).2.shows
  have part' := (hasRow_singleton_iff.1 second).2.shows
  by_cases isFlat : x.isFlat dual = true ∨ y.isFlat dual = true
  · exact (yields_distribute_of_isFlat part part' isDual isFlat).mono (Set.empty_subset _)
  · have notFlat := isFlat
    rw [not_or, Bool.not_eq_true, Bool.not_eq_true] at notFlat
    rw [Yields, distribute_eq_pair part part' isDual isFlat,
      Rule.distributeOver_of_not_isFlat notFlat.1 notFlat.2]
    exact yields_pair first second apart c

end Rules

/-! ### Rewriting in a ring -/

/-- The neighbours of a connective are taken out of its ring, each as a ring by itself. -/
theorem exists_takeOut_neighbours {before after : List Nat} {l op r : Nat} {left right : List Part}
    {x y : Operand} {c : Connective} {C : Set Nat}
    (isRing : s.IsRing (before ++ l :: op :: r :: after)) (row : s.HasParts before left A)
    (middle : s.HasParts [l, op, r] [.operand x, .link c, .operand y] B)
    (row' : s.HasParts after right C) (apart : Disjoint A (B ∪ C)) (apart' : Disjoint B C) :
    ∃ s₁ s' X Y, X ∪ Y ⊆ B ∧ op ∈ B ∧ op ∉ X ∪ Y ∧ Disjoint X Y ∧ s.connective op = .ok c ∧
      takeOut (·.removeFront op false) s = .ok l s₁ ∧
      takeOut (·.removeBack op false) s₁ = .ok r s' ∧
      s.Evolves s' (A ∪ (B ∪ C)) (A ∪ (B ∪ C)) ∧ s'.IsRing (before ++ op :: after) ∧
      s'.HasRow l [.operand x] X ∧ s'.HasRow r [.operand y] Y ∧ s'.HasParts before left A ∧
      s'.HasParts after right C := by
  rcases exists_removeNeighbours isRing with
    ⟨s₁, s', removed, removed', outer, single, single', relinks⟩
  cases middle with
  | @cons _ _ _ _ X _ first rest apartFirst =>
  cases rest with
  | @cons _ _ _ _ L _ link rest apartLink =>
  rcases hasParts_singleton_iff.1 rest with second
  rename_i Y
  have isLink : op ∈ L := link.mem
  have changed : ∀ k ∈ before ++ l :: op :: r :: after,
      k ∈ before ∨ k = l ∨ k = op ∨ k = r ∨ k ∈ after := by
    simp
  have inLeft := row.mem
  have inFirst := first.mem
  have inSecond := second.mem
  have inRight := row'.mem
  refine ⟨s₁, s', X, Y, by grind, by grind, by grind, by grind, link.shows.connective,
    takeOut_of_ok removed, takeOut_of_ok removed', relinks.evolves (by grind) Set.Subset.rfl, outer,
    ?_, ?_, row.relinks relinks (by grind), row'.relinks relinks (by grind)⟩
  · exact hasRow_singleton_iff.2 ⟨single, first.relinks relinks (by grind)⟩
  · exact hasRow_singleton_iff.2 ⟨single', second.relinks relinks (by grind)⟩

/-- A node of a ring becomes a group of another ring. -/
theorem exists_regroup {before after : List Nat} {op inner : Nat} {left right : List Part}
    {g : Formula} {C D : Set Nat} (isRing : s.IsRing (before ++ op :: after))
    (row : s.HasParts before left A) (row' : s.HasParts after right C) (ring : s.HasRing inner g D)
    (apart : Disjoint A C) (apartRing : Disjoint (A ∪ ({op} ∪ C)) D) (notInRow : op ∉ A ∪ C) :
    ∃ s₁ s', setContent op inner s = .ok () s₁ ∧ edit (·.setNegated op false) s₁ = .ok () s' ∧
      s.Evolves s' (A ∪ (insert op D ∪ C)) (A ∪ (insert op D ∪ C)) ∧
      s'.IsRing (before ++ op :: after) ∧
      s'.HasParts (before ++ op :: after) (left ++ .operand (.group false g) :: right)
        (A ∪ (insert op D ∪ C)) := by
  have inRange := isRing.lt_size op (by simp)
  rcases exists_setGroup inRange inner with ⟨s₁, s', setPayload, setNegated, regroups⟩
  have retains := regroups.retains
  have kept : s'.HasParts before left A := row.congr (by grind [Retains])
  have kept' : s'.HasParts after right C := row'.congr (by grind [Retains])
  have content : s'.HasRing inner g D := ring.congr (by grind [Retains])
  have group : s'.HasPart op (.operand (.group false g)) (insert op D) :=
    hasPart_group_iff.2 ⟨inner, D, rfl, regroups.group, content, by grind⟩
  exact ⟨s₁, s', edit_of_ok setPayload, edit_of_ok setNegated,
    retains.evolves (by grind) Set.Subset.rfl, retains.isRing isRing,
    kept.append (.cons group kept' (by grind)) (by grind)⟩

/-- A connective of a ring becomes a group of what the rule makes of its neighbours. -/
theorem yields_rewriteAt {rule : Nat → Connective → Nat → Builder Nat}
    {before after tail : List Nat} {head l op r : Nat} {left right : List Part} {x y : Operand}
    {c : Connective} {g : Formula} {C : Set Nat}
    (split : head :: tail = before ++ l :: op :: r :: after) (isRing : s.IsRing (head :: tail))
    (row : s.HasParts before left A)
    (middle : s.HasParts [l, op, r] [.operand x, .link c, .operand y] B)
    (row' : s.HasParts after right C) (apart : Disjoint A (B ∪ C)) (apart' : Disjoint B C)
    (rewrites : ∀ (s : Store) X Y, s.HasRow l [.operand x] X → s.HasRow r [.operand y] Y →
      Disjoint X Y → (rule l c r).Yields s (X ∪ Y) fun h s' D => s'.HasRing h g D) :
    (rewriteAt head op rule).Yields s (A ∪ (B ∪ C))
      fun h s' D => s'.HasRow h (left ++ .operand (.group false g) :: right) D := by
  rw [split] at isRing
  rcases not_mem_of_nodup isRing.nodup with ⟨_, others⟩
  rcases exists_takeOut_neighbours isRing row middle row' apart apart' with
    ⟨s₁, s₂, X, Y, within, isLink, notTaken, different, connective, removed, removed', evolves, outer,
      first, second, left', right'⟩
  have started : rewriteAt head op rule s = (do
      setContent op (← rule l c r)
      edit (·.setNegated op false)
      return if l = head then op else head : Builder Nat) s₂ := by
    rw [rewriteAt, bind_of_ok (read_of_ok connective), bind_of_ok removed, bind_of_ok removed']
  refine .after started evolves ?_
  refine (rewrites s₂ X Y first second different).bind (by grind) ?_
  intro inner s₃ D evolves ring
  have old : ∀ k ∈ A ∪ ({op} ∪ C), k < s₂.size := by
    rintro k (isNode | rfl | isNode)
    · exact left'.lt_size k isNode
    · exact outer.lt_size k (by simp)
    · exact right'.lt_size k isNode
  have kept := evolves.node_of_disjoint (R := A ∪ ({op} ∪ C)) (by grind) old
  have apartInner := evolves.disjoint (R := A ∪ ({op} ∪ C)) (by grind) old
  have inLeft := row.mem
  have inRight := row'.mem
  have outer' : s₃.IsRing (before ++ op :: after) := outer.congr (by grind)
  rcases exists_regroup outer' (left'.congr (by grind)) (right'.congr (by grind)) ring (by grind)
    apartInner.symm (by grind) with ⟨s₄, s₅, setPayload, setNegated, evolves', isRing', whole⟩
  have finished : (do
      setContent op inner
      edit (·.setNegated op false)
      return if l = head then op else head : Builder Nat) s₃ =
        .ok (if l = head then op else head) s₅ := by
    rw [bind_of_ok setPayload, bind_of_ok setNegated]
    rfl
  refine ⟨_, s₅, _, finished, evolves'.mono (by grind), ?_⟩
  cases before with
  | nil =>
      cases split
      rw [if_pos rfl]
      exact ⟨after, isRing', whole⟩
  | cons _ before =>
      cases split
      have other := (others head (by simp)).1
      rw [if_neg (Ne.symm other)]
      exact ⟨before ++ op :: after, isRing', whole⟩

end Builder

end Ring

end Entail
