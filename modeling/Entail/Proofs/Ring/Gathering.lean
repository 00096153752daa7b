import Entail.Proofs.NormalForm.Associate
import Entail.Proofs.Ring.Making
import Entail.Ring.Associate

/-!
# Gathering operands

The operands of a ring are gathered from several rings, those of the groups
that are opened included.  One after the other is taken out of its ring; for
that it does not matter which rings there are, as long as each node that is
left has its neighbours among those that are left.
-/

namespace Entail

namespace Operand

variable {c : Connective} {x : Operand}

theorem gather_of_not_isFlat (notFlat : x.isFlat c = false) : x.gather c = [x] := by
  rcases x with _ | ⟨_ | _, content⟩
  · rfl
  · rw [isFlat] at notFlat
    rw [gather, Bool.not_false, Bool.true_and, if_neg (ne_true_of_eq_false notFlat)]
  · rfl

theorem exists_gather_of_isFlat (isFlat : x.isFlat c = true) :
    ∃ content, x = .group false content ∧ x.gather c = content.gather c := by
  rcases x with _ | ⟨_ | _, content⟩
  · contradiction
  · refine ⟨content, rfl, ?_⟩
    rw [Operand.isFlat] at isFlat
    rw [gather, Bool.not_false, Bool.true_and, if_pos isFlat]
  · contradiction

end Operand

namespace Ring

namespace Store

variable {s s' : Store} {A B D E : Set Nat}

/-! ### Nodes with their neighbours -/

/-- Each node of the region has its neighbours in the region. -/
def IsClosed (s : Store) (D : Set Nat) : Prop :=
  ∀ h ∈ D, ∃ p ∈ D, ∃ n ∈ D, s.Joined p h ∧ s.Joined h n

theorem isClosed_empty (s : Store) : s.IsClosed ∅ :=
  fun _ isNode => isNode.elim

theorem IsClosed.lt_size (closed : s.IsClosed D) : ∀ k ∈ D, k < s.size := by
  intro k isNode
  rcases closed k isNode with ⟨_, _, _, _, _, joined⟩
  exact lt_size_of_next joined.1

theorem IsClosed.union (closed : s.IsClosed D) (closed' : s.IsClosed E) : s.IsClosed (D ∪ E) := by
  rintro h (isNode | isNode)
  · rcases closed h isNode with ⟨p, inD, n, inD', joined⟩
    exact ⟨p, .inl inD, n, .inl inD', joined⟩
  · rcases closed' h isNode with ⟨p, inE, n, inE', joined⟩
    exact ⟨p, .inr inE, n, .inr inE', joined⟩

theorem IsRing.isClosed {members : List Nat} (ring : s.IsRing members) :
    s.IsClosed {k | k ∈ members} := by
  intro h isMember
  rcases List.append_of_mem isMember with ⟨left, right, rfl⟩
  have rotated : s.IsRing (h :: (right ++ left)) := ring.rotate
  rcases rotated.1.redirect rotated.2 with ⟨last, listed, joined, _⟩
  have inRing {k : Nat} (listed : k ∈ h :: (right ++ left)) : k ∈ left ++ h :: right := by
    grind
  refine ⟨last, inRing listed, ?_⟩
  cases others : right ++ left with
  | nil =>
      rw [others] at rotated
      exact ⟨h, isMember, joined, rotated.1⟩
  | cons n rest =>
      rw [others] at rotated inRing
      exact ⟨n, inRing (List.mem_cons_of_mem _ List.mem_cons_self), joined, rotated.1.1⟩

/-- What a node was linked to, its neighbours are linked to when it is taken out. -/
theorem isClosed_of_bypass {h p n : Nat} (closed : s.IsClosed D) (front : s.Joined p h)
    (back : s.Joined h n) (isPrev : p ∈ D) (isNext : n ∈ D)
    (bypass : p ≠ h → s'.Joined p n)
    (otherNext : ∀ k, k ≠ h → k ≠ p → s'.next k = s.next k)
    (otherPrev : ∀ k, k ≠ h → k ≠ n → s'.prev k = s.prev k) : s'.IsClosed (D \ {h}) := by
  rintro k ⟨isNode, other⟩
  replace other : k ≠ h := other
  rcases closed k isNode with ⟨p', inD, n', inD', ⟨forward, backward⟩, ⟨forward', backward'⟩⟩
  rcases front with ⟨toNode, fromNode⟩
  rcases back with ⟨toNext, fromNext⟩
  have before : ∃ q ∈ D \ {h}, s'.Joined q k := by
    by_cases isNext' : p' = h
    · subst isNext'
      have same : k = n := by grind
      subst same
      have notAlone : p ≠ p' := by grind
      exact ⟨p, ⟨isPrev, notAlone⟩, bypass notAlone⟩
    · refine ⟨p', ⟨inD, isNext'⟩, ?_, ?_⟩
      · rw [otherNext p' isNext' (by grind), forward]
      · rw [otherPrev k other (by grind), backward]
  have behind : ∃ q ∈ D \ {h}, s'.Joined k q := by
    by_cases isPrev' : n' = h
    · subst isPrev'
      have same : k = p := by grind
      subst same
      refine ⟨n, ⟨isNext, ?_⟩, bypass other⟩
      grind
    · refine ⟨n', ⟨inD', isPrev'⟩, ?_, ?_⟩
      · rw [otherNext k other (by grind), forward']
      · rw [otherPrev n' isPrev' (by grind), backward']
  rcases before with ⟨q, inRest, joined⟩
  rcases behind with ⟨q', inRest', joined'⟩
  exact ⟨q, inRest, q', inRest', joined, joined'⟩

/-- A node whose neighbours are known is taken out, and the nodes that are left have their
neighbours among those that are left. -/
theorem IsClosed.exists_isolate {h : Nat} (closed : s.IsClosed D) (isNode : h ∈ D) :
    ∃ s' changed, s.isolate h false = .ok s' ∧ s'.IsRing [h] ∧ s'.IsClosed (D \ {h}) ∧
      s.Relinks s' changed ∧ ∀ k ∈ changed, k ∈ D := by
  rcases closed h isNode with ⟨p, isPrev, n, isNext, front, back⟩
  have inRange := lt_size_of_next back.1
  rcases exists_node inRange with ⟨node, found⟩
  have nextOf : node.next = some n := by
    have forward := back.1
    rw [next, found] at forward
    exact Except.ok.inj forward
  have prevOf : node.prev = some p := by
    have backward := front.2
    rw [prev, found] at backward
    exact Except.ok.inj backward
  by_cases alone : p = h
  · rcases exists_setLinks inRange with ⟨s', changed, single, relinks⟩
    have same (k : Nat) (other : k ≠ h) : s'.node k = s.node k := relinks.node k (by simpa using other)
    refine ⟨s', [h], ?_, single, ?_, relinks, List.forall_mem_singleton.2 isNode⟩
    · simp [isolate, found, prevOf, alone, bind, Except.bind, Pure.pure, Except.pure, changed]
    · exact isClosed_of_bypass closed front back isPrev isNext (fun other => absurd alone other)
        (fun k other _ => next_eq_of_node (same k other))
        fun k other _ => prev_eq_of_node (same k other)
  · have notNext : n ≠ h := by
      rintro rfl
      exact alone (Option.some.inj (Except.ok.inj (front.2.symm.trans back.2)))
    rcases exists_link (closed.lt_size p isPrev) (closed.lt_size n isNext) with ⟨s₁, ran, linked⟩
    rw [← linked.relinks.size] at inRange
    rcases exists_setLinks inRange with ⟨s', changed, single, relinks⟩
    have same (k : Nat) (other : k ≠ h) : s'.node k = s₁.node k := relinks.node k (by simpa using other)
    refine ⟨s', [p, n, h], ?_, single, ?_, ?_, by grind⟩
    · have several : (some p != some h) = true := by simpa using alone
      simp only [isolate, found, nextOf, prevOf, several, bind, Except.bind, Option.isSome_some,
        Bool.and_self, if_true, ran, Bool.false_eq_true, if_false, changed]
    · refine isClosed_of_bypass closed front back isPrev isNext (fun _ => ⟨?_, ?_⟩) ?_ ?_
      · rw [next_eq_of_node (same p alone), linked.next]
      · rw [prev_eq_of_node (same n notNext), linked.prev]
      · intro k other notPrev
        rw [next_eq_of_node (same k other), linked.otherNext k notPrev]
      · intro k other notNext
        rw [prev_eq_of_node (same k other), linked.otherPrev k notNext]
    · exact (linked.relinks.mono (by grind)).trans (relinks.mono (by grind))

theorem IsClosed.congr (closed : s.IsClosed D) (node : ∀ k ∈ D, s'.node k = s.node k) :
    s'.IsClosed D := by
  intro h isNode
  rcases closed h isNode with ⟨p, inD, n, inD', ⟨forward, backward⟩, ⟨forward', backward'⟩⟩
  refine ⟨p, inD, n, inD', ⟨?_, ?_⟩, ?_, ?_⟩
  · rwa [next_eq_of_node (node p inD)]
  · rwa [prev_eq_of_node (node h isNode)]
  · rwa [next_eq_of_node (node h isNode)]
  · rwa [prev_eq_of_node (node n inD')]

/-- The first member of a row is taken out of its ring; what lies below it is not linked to the
rings of the others. -/
theorem HasParts.exists_isolate {h : Nat} {hs : List Nat} {p : Part} {ps : List Part}
    (row : s.HasParts (h :: hs) (p :: ps) B) (closed : s.IsClosed D)
    (member : ∀ k ∈ h :: hs, k ∈ D) (only : ∀ k ∈ B, k ∈ D → k ∈ h :: hs) :
    ∃ s' X Y, B = X ∪ Y ∧ s.isolate h false = .ok s' ∧ s'.HasRow h [p] X ∧ s'.HasParts hs ps Y ∧
      s'.IsClosed (D \ {h}) ∧ (∀ k ∈ hs, k ∈ D \ {h}) ∧ (∀ k ∈ Y, k ∈ D \ {h} → k ∈ hs) ∧
      Disjoint (D \ {h} ∪ Y) X ∧ s.Evolves s' D ∅ := by
  cases row with
  | @cons _ _ _ _ X Y part row apart =>
      rcases closed.exists_isolate (member h List.mem_cons_self) with
        ⟨s', changed, isolated, single, closed', relinks, within⟩
      have isFirst := part.mem
      have inRow := row.mem
      have part' : s'.HasPart h p X := part.relinks relinks (by grind)
      have row' : s'.HasParts hs ps Y := row.relinks relinks (by grind)
      exact ⟨s', X, Y, rfl, isolated, hasRow_singleton_iff.2 ⟨single, part'⟩, row', closed',
        by grind, by grind, by grind,
        ⟨Nat.le_of_eq relinks.size.symm, fun k _ outside => relinks.node k (by grind), by simp⟩⟩

/-! ### Operands of opened groups -/

/-- The nodes that hold the given operands have been gathered: they are members of opened rings,
which together take up `D`; what lies below them is apart from these rings. -/
structure Gathered (s : Store) (handles : List Nat) (xs : List Operand) (A B D : Set Nat) :
    Prop where
  parts : s.HasParts handles (xs.map .operand) B
  closed : s.IsClosed D
  within : B ⊆ A
  opened : D ⊆ A
  member : ∀ h ∈ handles, h ∈ D
  only : ∀ k ∈ B, k ∈ D → k ∈ handles

/-- The operands of a row are gathered, where those of the groups can be. -/
theorem HasParts.exists_gather {inner : Nat → Except Error (List Nat)} {c : Connective}
    {operands : List Nat} {xs : List Operand} (row : s.HasParts operands (xs.map .operand) A)
    (each : ∀ content head A, .group false content ∈ xs → s.HasRing head content A →
      ∃ hs B D, inner head = .ok hs ∧ s.Gathered hs (content.gather c) A B D) :
    ∃ hss B D, (operands.mapM fun h => do
        if ← s.isFlat h c then inner (← s.content h) else return [h]) = .ok hss ∧
      s.HasParts hss.flatten ((xs.flatMap (Operand.gather c)).map .operand) B ∧ B ⊆ A ∧
      s.IsClosed D ∧ D ⊆ A ∧ (∀ m ∈ operands, m ∉ D) ∧
      (∀ h ∈ hss.flatten, h ∈ D ∨ h ∈ operands) ∧
      ∀ k ∈ B, k ∈ D ∨ k ∈ operands → k ∈ hss.flatten := by
  induction xs generalizing operands A with
  | nil =>
      cases row
      exact ⟨[], ∅, ∅, rfl, .nil, Set.Subset.rfl, isClosed_empty s, Set.Subset.rfl, by simp,
        by simp, by simp⟩
  | cons x xs ih =>
      cases row with
      | @cons h _ operands _ X Y part row apart =>
          rcases ih row (fun content head A listed => each content head A
            (List.mem_cons_of_mem _ listed)) with
            ⟨hss, B, D, mapped, row', within, closed, opened, outside, member, only⟩
          have isFirst := part.mem
          have inRow := row.mem
          cases isFlat : x.isFlat c with
          | false =>
              refine ⟨[h] :: hss, X ∪ B, D, ?_, ?_, by grind, closed, by grind, by grind, ?_, ?_⟩
              · rw [List.mapM_cons, part.shows.isFlat, isFlat, mapped]
                rfl
              · rw [List.flatMap_cons, Operand.gather_of_not_isFlat isFlat]
                exact .cons part row' (by grind)
              · simp only [List.flatten_cons]
                grind
              · simp only [List.flatten_cons]
                grind
          | true =>
              rcases Operand.exists_gather_of_isFlat isFlat with ⟨content, rfl, gathered⟩
              rcases hasPart_group_iff.1 part with ⟨head, Z, rfl, holds, ring, apart'⟩
              rcases each content head Z List.mem_cons_self ring with ⟨hs, B', D', ran, inner⟩
              rcases inner with ⟨parts, closed', within', opened', member', only'⟩
              refine ⟨hs :: hss, B' ∪ B, D' ∪ D, ?_, ?_, by grind, closed'.union closed, by grind,
                by grind, ?_, ?_⟩
              · rw [List.mapM_cons, part.shows.isFlat, isFlat, mapped]
                simp only [bind, Except.bind, if_true, holds.content, ran]
                rfl
              · rw [List.flatMap_cons, gathered, List.map_append]
                exact parts.append row' (by grind)
              · simp only [List.flatten_cons]
                grind
              · simp only [List.flatten_cons]
                grind

/-- The operands of a ring are gathered. -/
theorem HasRow.exists_gatherTo {levels head : Nat} {f : Formula} (ring : s.HasRing head f A)
    (enough : f.depth ≤ levels) (c : Connective) :
    ∃ hs B D, s.gatherTo c levels head = .ok hs ∧ s.Gathered hs (f.gather c) A B D := by
  induction levels generalizing head f A with
  | zero => exact absurd (Nat.le_trans f.one_le_depth enough) (Nat.not_succ_le_zero 0)
  | succ levels ih =>
      rcases ring with ⟨rest, isRing, row⟩
      rcases row.exists_operands with ⟨operands, C, filtered, selected⟩
      have shallow := Formula.depth_le_succ_iff.1 enough
      have each : ∀ content head A, .group false content ∈ f.operands →
          s.HasRing head content A →
            ∃ hs B D, s.gatherTo c levels head = .ok hs ∧ s.Gathered hs (content.gather c) A B D :=
        fun content head A isOperand ring =>
          ih ring (shallow _ (Formula.operand_mem_parts.2 isOperand))
      rcases selected.parts.exists_gather each with
        ⟨hss, B, D, mapped, row', within, closed, opened, outside, member, only⟩
      rw [← Formula.gather_eq_flatMap] at row'
      have inRow := row.mem
      rcases selected with ⟨_, fromRow, listed, onlyOperands⟩
      refine ⟨hss.flatten, B, {k | k ∈ head :: rest} ∪ D, ?_, row', isRing.isClosed.union closed,
        by grind, ?_, ?_, ?_⟩
      · simp only [gatherTo, Store.operands, walk_ring isRing, bind, Except.bind, filtered]
        simp only [bind, Except.bind] at mapped
        rw [mapped]
        rfl
      · grind
      · grind
      · grind

end Store

end Ring

end Entail
