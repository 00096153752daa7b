import Entail.Proofs.NormalForm.Conjunctive
import Entail.Proofs.Ring.Associate
import Entail.Proofs.Ring.Negation
import Entail.Ring.Conjunctive

/-!
# Combining rings

The groups of a ring are simplified while the ring is gone through; a symbol
that is left of a group takes its place, so that the ring may come to have other
members and another head.  Of the operands of a disjunction, the first one is
joined with one after the other.
-/

namespace Entail

/-- A group whose simplified ring is a single symbol is replaced by it. -/
theorem Operand.associateInside_group (negated : Bool) (content : Formula) :
    (group negated content).associateInside =
      if content.associate.isSingle && content.associate.head.isSymbol then content.associate.head
      else .group negated content.associate := by
  rw [associateInside]
  rcases content.associate with (_ | _) | _ <;> rfl

theorem Formula.combineInGroups_eq_mapOperands (f : Formula) :
    f.combineInGroups = f.mapOperands Operand.combineInside := by
  cases f with
  | single x => rfl
  | chain x c rest => rw [combineInGroups, mapOperands, combineInGroups_eq_mapOperands rest]

theorem Formula.exists_single {f : Formula} (isSingle : f.isSingle = true) : ∃ x, f = single x := by
  cases f with
  | single x => exact ⟨x, rfl⟩
  | chain => contradiction

namespace Ring

namespace Store

variable {s s' : Store} {A B : Set Nat}

/-! ### Exchanging nodes -/

/-- A node that is a ring by itself takes the place of the head of a ring. -/
theorem exists_swap {h other : Nat} {rest : List Nat} (ring : s.IsRing (h :: rest))
    (single : s.IsRing [other]) (isNew : other ∉ h :: rest) :
    ∃ s', s.swap h other = .ok s' ∧ s'.IsRing (other :: rest) ∧
      s.Relinks s' (h :: other :: rest) := by
  rcases not_or.1 (mt List.mem_cons.2 isNew) with ⟨notHead, notRest⟩
  have otherNext : s.next other = .ok (some other) := single.1.1
  have otherPrev : s.prev other = .ok (some other) := single.1.2
  have different : h ≠ other := Ne.symm notHead
  cases rest with
  | nil =>
      have headNext : s.next h = .ok (some h) := ring.1.1
      have headPrev : s.prev h = .ok (some h) := ring.1.2
      refine ⟨s, ?_, single, ⟨rfl, fun _ => rfl, fun _ => rfl, fun _ _ => rfl⟩⟩
      simp [swap, different, headNext, headPrev, otherNext, otherPrev, bind, Except.bind, pure,
        Except.pure]
  | cons y tail =>
      rcases ring with ⟨⟨⟨headNext, _⟩, path⟩, distinct⟩
      rcases List.nodup_cons.1 distinct with ⟨notMember, distinct⟩
      rcases path.redirect distinct with ⟨last, listed, ⟨_, headPrev⟩, redirect⟩
      have headIn := lt_size_of_next headNext
      have otherIn := lt_size_of_next otherNext
      rcases exists_link (path.lt_size last listed) otherIn with ⟨s₁, ran₁, first⟩
      rw [← first.relinks.size] at otherIn headIn
      have nextIn : y < s₁.size := first.relinks.size ▸ path.lt_size y List.mem_cons_self
      rcases exists_link otherIn nextIn with ⟨s₂, ran₂, second⟩
      rw [← second.relinks.size] at headIn
      rcases exists_setLinks headIn with ⟨s', ran₃, _, third⟩
      have notHead' {x : Nat} (isMember : x ∈ y :: tail) : x ≠ h :=
        fun same => notMember (same ▸ isMember)
      have notOther {x : Nat} (isMember : x ∈ y :: tail) : x ≠ other :=
        fun same => notRest (same ▸ isMember)
      have next {x : Nat} (notSame : x ≠ h) : s'.next x = s₂.next x :=
        next_eq_of_node (third.node x (by simpa using notSame))
      have prev {x : Nat} (notSame : x ≠ h) : s'.prev x = s₂.prev x :=
        prev_eq_of_node (third.node x (by simpa using notSame))
      have isNext := notHead' (List.mem_cons_self (a := y))
      have swapped : s.swap h other = .ok s' := by
        simp [swap, different, headNext, headPrev, otherNext, otherPrev, isNext, bind, Except.bind,
          ran₁, ran₂, ran₃]
      have joined : s'.Joined last other := by
        refine ⟨?_, ?_⟩
        · rw [next (notHead' listed), second.otherNext last (notOther listed), first.next]
        · rw [prev notHead, second.otherPrev other (notOther List.mem_cons_self).symm, first.prev]
      have joined' : s'.Joined other y :=
        ⟨by rw [next notHead, second.next], by rw [prev isNext, second.prev]⟩
      have path' : s'.Path y tail other := by
        apply redirect s' other joined
        · intro x isMember notLast
          rw [next (notHead' isMember), second.otherNext x (notOther isMember),
            first.otherNext x notLast]
        · intro x isTail
          have isMember : x ∈ y :: tail := List.mem_cons_of_mem y isTail
          have notNext : x ≠ y := fun same => (List.nodup_cons.1 distinct).1 (same ▸ isTail)
          rw [prev (notHead' isMember), second.otherPrev x notNext,
            first.otherPrev x (notOther isMember)]
      refine ⟨s', swapped, ⟨⟨joined', path'⟩, List.nodup_cons.2 ⟨notRest, distinct⟩⟩, ?_⟩
      exact ((first.relinks.mono (by grind)).trans (second.relinks.mono (by grind))).trans
        (third.mono (by grind))

/-! ### Rings in two pieces -/

theorem HasRing.isSingle {head : Nat} {f : Formula} (ring : s.HasRing head f A) :
    s.isSingle head = .ok f.isSingle := by
  rcases ring with ⟨rest, isRing, row⟩
  rw [isRing.isSingle]
  have same := row.length_eq
  cases f with
  | single x =>
      rw [List.length_eq_zero_iff.1 (Nat.succ.inj same)]
      rfl
  | chain x c f =>
      cases rest with
      | nil => contradiction
      | cons => rfl

theorem HasRing.isSymbol {head : Nat} {f : Formula} (ring : s.HasRing head f A) :
    s.isSymbol head = .ok f.head.isSymbol := by
  rcases ring with ⟨rest, isRing, row⟩
  cases f with
  | single x | chain x c f =>
      cases row with
      | cons part => exact part.shows.isSymbol

theorem Holds.exists_node_of_next {h k : Nat} {payload : Payload} {negated : Bool}
    (holds : s.Holds h payload negated) (next : s.next h = .ok (some k)) :
    ∃ prev, s.node h = .ok ⟨payload, negated, prev, some k⟩ := by
  rcases holds.exists_node with ⟨⟨_, _, prev, _⟩, found, rfl, rfl⟩
  rw [Store.next, found] at next
  cases next
  exact ⟨prev, found⟩

/-- The second member of a ring of several is its first connective. -/
theorem HasRow.exists_second {head : Nat} {x : Operand} {c : Connective} {f : Formula}
    (ring : s.HasRing head (.chain x c f) A) :
    ∃ op rest, s.IsRing (head :: op :: rest) ∧
      s.HasParts (head :: op :: rest) (Formula.chain x c f).parts A ∧ s.connective op = .ok c := by
  rcases ring with ⟨rest, isRing, row⟩
  cases row with
  | cons part tail apart =>
      cases tail with
      | cons link row apart' =>
          exact ⟨_, _, isRing, .cons part (.cons link row apart') apart, link.shows.connective⟩

/-- A ring is cut in front of one of its members, or behind all of them; the two pieces hold rows
of parts. -/
structure Cut (s : Store) (head : Nat) (before after : List Nat) (left right : List Part)
    (A B : Set Nat) : Prop where
  isRing : s.IsRing (before ++ after)
  isHead : (before ++ after).head? = some head
  left : s.HasParts before left A
  right : s.HasParts after right B
  apart : Disjoint A B

/-- A member of a ring stands between two rows, and it does not matter what it holds. -/
structure Gap (s : Store) (head h : Nat) (before after : List Nat) (left right : List Part)
    (A B : Set Nat) : Prop where
  isRing : s.IsRing (before ++ h :: after)
  isHead : (before ++ h :: after).head? = some head
  left : s.HasParts before left A
  right : s.HasParts after right B
  apart : Disjoint A B
  notLeft : h ∉ A
  notRight : h ∉ B

section Pieces

variable {head h : Nat} {before after : List Nat} {left right : List Part} {p : Part} {C : Set Nat}

theorem Cut.hasRow (cut : s.Cut head before after left right A B) :
    s.HasRow head (left ++ right) (A ∪ B) := by
  rcases cut with ⟨isRing, isHead, row, row', apart⟩
  rcases List.head?_eq_some_iff.1 isHead with ⟨rest, split⟩
  exact ⟨rest, split ▸ isRing, split ▸ row.append row' apart⟩

/-- The member behind the cut is looked at. -/
theorem Cut.exists_gap (cut : s.Cut head before (h :: after) left (p :: right) A B) :
    ∃ C D, B = C ∪ D ∧ s.HasPart h p C ∧ s.Gap head h before after left right A D ∧
      Disjoint C (A ∪ D) := by
  rcases cut with ⟨isRing, isHead, row, _ | ⟨part, row', apart'⟩, apart⟩
  have isFirst := part.mem
  exact ⟨_, _, rfl, part, ⟨isRing, isHead, row, row', by grind, by grind, by grind⟩, by grind⟩

namespace Gap

/-- The ring is cut behind the member. -/
theorem fill (gap : s.Gap head h before after left right A B) (part : s.HasPart h p C)
    (apart : Disjoint C (A ∪ B)) :
    s.Cut head (before ++ [h]) after (left ++ [p]) right (A ∪ C) B where
  isRing := by rw [List.append_assoc]; exact gap.isRing
  isHead := by rw [List.append_assoc]; exact gap.isHead
  left := gap.left.append (hasParts_singleton_iff.2 part) (by grind)
  right := gap.right
  apart := by
    have apart' := gap.apart
    grind

theorem lt_size (gap : s.Gap head h before after left right A B) :
    ∀ k ∈ A ∪ insert h B, k < s.size := by
  rintro k (isNode | rfl | isNode)
  · exact gap.left.lt_size k isNode
  · exact gap.isRing.lt_size k (by simp)
  · exact gap.right.lt_size k isNode

theorem congr (gap : s.Gap head h before after left right A B)
    (node : ∀ k ∈ A ∪ B, s'.node k = s.node k) (links : s.SameLinks s' h) :
    s'.Gap head h before after left right A B := by
  have inLeft := gap.left.mem
  have inRight := gap.right.mem
  refine ⟨gap.isRing.congr_sameLinks fun m isMember => ?_, gap.isHead,
    gap.left.congr fun k isNode => node k (.inl isNode),
    gap.right.congr fun k isNode => node k (.inr isNode), gap.apart, gap.notLeft, gap.notRight⟩
  by_cases same : m = h
  · exact same ▸ links
  · exact .of_node (node m (by grind))

/-- A node that is a ring by itself takes the place of the member. -/
theorem exists_swap {k : Nat} (gap : s.Gap head h before after left right A B)
    (single : s.IsRing [k]) (isNew : k ∉ A ∪ insert h B) :
    ∃ s', s.swap h k = .ok s' ∧
      s'.Gap (if h = head then k else head) k before after left right A B ∧
      s.Relinks s' (h :: k :: (before ++ after)) := by
  rcases gap with ⟨isRing, isHead, row, row', apart, notLeft, notRight⟩
  have inRow := row.mem
  have inRow' := row'.mem
  have isRotated : s.IsRing (h :: (after ++ before)) := isRing.rotate
  rcases Store.exists_swap isRotated single (by grind) with ⟨s', swapped, isRing', relinks⟩
  have isHead' : (before ++ k :: after).head? = some (if h = head then k else head) := by
    cases before with
    | nil =>
        cases isHead
        rw [if_pos rfl]
        rfl
    | cons first before =>
        cases isHead
        have other : h ≠ head := fun same => notLeft (same ▸ inRow head List.mem_cons_self)
        rw [if_neg other]
        rfl
  have filled : s'.IsRing (before ++ k :: after) :=
    IsRing.rotate (show s'.IsRing ((k :: after) ++ before) from isRing')
  refine ⟨s', swapped, ⟨filled, isHead', row.relinks relinks ?_, row'.relinks relinks ?_, apart,
    by grind, by grind⟩, relinks.mono (by grind)⟩
  · grind
  · grind

end Gap

end Pieces

end Store

namespace Builder

open Store

variable {s : Store} {A B : Set Nat}

/-! ### Simplifying the members of a ring -/

/-- The member behind the cut is simplified, and the cut is moved behind it. -/
theorem yields_simplifyMember {head h : Nat} {before after : List Nat} {left right : List Part}
    {p : Part} (cut : s.Cut head before (h :: after) left (p :: right) A B) :
    (simplifyMember head h).Yields s (A ∪ B) fun head' s' D => ∃ k C C', D = C ∪ C' ∧
      s'.Cut head' (before ++ [k]) after (left ++ [p.map Operand.associateInside]) right C C' := by
  rcases cut.exists_gap with ⟨X, Y, rfl, part, gap, apart⟩
  match p, part with
  | .link c, .link holds =>
      exact .read holds.payload (.pure (by grind) ⟨h, _, _, rfl, gap.fill (.link holds) apart⟩)
  | .operand (.symbol negated name), .symbol holds =>
      exact .read holds.payload (.pure (by grind) ⟨h, _, _, rfl, gap.fill (.symbol holds) apart⟩)
  | .operand (.group negated content), part =>
      rcases hasPart_group_iff.1 part with ⟨inner, X, rfl, holds, ring, notInner⟩
      refine .read holds.payload ?_
      refine (yields_associate ring).bind (by grind) fun inner' s₁ E evolves ring' => ?_
      refine .read (HasRing.isSingle ring') (.read (HasRing.isSymbol ring') ?_)
      have kept := evolves.node_of_disjoint (by grind) gap.lt_size
      have apart' := evolves.disjoint (by grind) gap.lt_size
      have gap' : s₁.Gap head h before after left right A Y :=
        gap.congr (by grind) (.of_node (kept h (by simp)))
      rw [Part.map, Operand.associateInside_group]
      have isMember := gap'.isRing.lt_size h (by simp)
      split
      · next becomesSymbol =>
          rcases Formula.exists_single (Bool.and_eq_true_iff.1 becomesSymbol).1 with ⟨x, same⟩
          rw [same] at ring' ⊢
          rcases hasRow_singleton_iff.1 ring' with ⟨isSingle, part'⟩
          have isNew := part'.mem
          rcases gap'.exists_swap isSingle (by grind) with ⟨s₂, swapped, gap'', relinks⟩
          have inRow := gap'.left.mem
          have inRow' := gap'.right.mem
          have part'' : s₂.HasPart inner' (.operand x) E := part'.relinks relinks (by grind)
          refine .edit_bind swapped (relinks.evolves (by grind) (B := A ∪ E ∪ Y) (by grind)) ?_
          exact .pure (by grind) ⟨inner', _, _, rfl, gap''.fill part'' (by grind)⟩
      · rcases (holds.congr_node (kept h (by simp))).exists_setPayload (.group inner') with
          ⟨s₂, changed, holds', retains⟩
        have notInner' : h ∉ E := fun isNode => by grind
        have notLeft := gap'.notLeft
        have notRight := gap'.notRight
        have gap'' : s₂.Gap head h before after left right A Y :=
          gap'.congr (fun k isNode => retains.node k (by grind)) (retains.sameLinks h)
        have ring'' : s₂.HasRing inner' content.associate E :=
          ring'.congr fun k isNode => retains.node k (by grind)
        have group := hasPart_group_iff.2 ⟨inner', E, rfl, holds', ring'', notInner'⟩
        refine .edit_bind changed
          (retains.evolves (by grind) (B := A ∪ insert h E ∪ Y) (by grind)) ?_
        exact .pure (by grind) ⟨h, _, _, rfl, gap''.fill group (by grind)⟩

/-- The members behind the cut are simplified one after the other. -/
theorem yields_foldlM_simplifyMember {head : Nat} {before after : List Nat}
    {left right : List Part} (cut : s.Cut head before after left right A B) :
    (after.foldlM simplifyMember head).Yields s (A ∪ B) fun head' s' C =>
      s'.HasRow head' (left ++ right.map (Part.map Operand.associateInside)) C := by
  induction after generalizing s head before left right A B with
  | nil =>
      rcases cut.right with _ | _
      exact .pure Set.Subset.rfl cut.hasRow
  | cons h after ih =>
      cases right with
      | nil => cases cut.right
      | cons p right =>
          refine (yields_simplifyMember cut).bind Set.Subset.rfl ?_
          rintro head' s₁ D _ ⟨k, C, C', rfl, cut⟩
          refine ((ih cut).mono Set.subset_union_right).imp fun head'' s₂ E _ row => ?_
          rwa [List.append_assoc] at row

/-- Simplifying a ring of clauses simplifies its groups before it simplifies the ring. -/
theorem yields_simplifyClauses {head : Nat} {f : Formula} (ring : s.HasRing head f A) :
    (simplifyClauses head).Yields s A fun h s' B =>
      s'.HasRing h (f.mapOperands Operand.associateInside).associate B := by
  rcases ring with ⟨rest, isRing, row⟩
  have cut : s.Cut head [] (head :: rest) [] f.parts ∅ A :=
    ⟨isRing, rfl, .nil, row, Set.empty_disjoint A⟩
  refine .read (walk_ring isRing) ((yields_foldlM_simplifyMember cut).bind (by simp) ?_)
  intro head' s₁ B _ ring
  rw [List.nil_append, ← Formula.parts_mapOperands] at ring
  exact (yields_associate ring).mono Set.subset_union_right

/-! ### Distributing a disjunction -/

theorem yields_disjoin {left right : Nat} {x y : Operand} (first : s.HasRow left [.operand x] A)
    (second : s.HasRow right [.operand y] B) (apart : Disjoint A B) :
    (disjoin left right).Yields s (A ∪ B) fun h s' C =>
      s'.HasRow h [.operand (Formula.disjoin x y)] C := by
  refine (yields_distribute first second apart rfl).bind Set.Subset.rfl ?_
  intro head s₁ C _ ring
  refine (yields_simplifyClauses ring).bind Set.subset_union_right fun head' s₂ D _ ring' => ?_
  refine .read (HasRing.isSingle ring') ?_
  rw [Formula.disjoin]
  cases made : ((Rule.distributeOver .disj .conj x y).mapOperands
      Operand.associateInside).associate with
  | single z =>
      rw [made] at ring'
      exact .pure Set.subset_union_right ring'
  | chain z c rest =>
      rw [made] at ring'
      exact (yields_addGroup ring' false).mono Set.subset_union_right

/-- A node is joined with one node after the other. -/
theorem yields_foldlM_disjoin {first : Nat} {rest : List Nat} {x : Operand} {xs : List Operand}
    (row : s.HasRow first [.operand x] A) (singles : s.HasSingles rest (xs.map .operand) B)
    (apart : Disjoint A B) :
    (rest.foldlM disjoin first).Yields s (A ∪ B) fun h s' C =>
      s'.HasRow h [.operand (xs.foldl Formula.disjoin x)] C := by
  induction rest generalizing s first x xs A B with
  | nil =>
      cases xs with
      | nil => exact .pure Set.subset_union_left row
      | cons => cases singles.parts
  | cons h rest ih =>
      cases xs with
      | nil => cases singles.parts
      | cons y xs =>
          rcases hasSingles_cons_iff.1 singles with ⟨B, C, rfl, second, singles, apart'⟩
          refine (yields_disjoin row second (by grind)).bind (by grind) ?_
          intro k s₁ D evolves row
          rcases evolves.singles singles (by grind) with ⟨singles, apart⟩
          exact (ih row singles apart).mono (by grind)

/-- The members of a row are taken out of their rings. -/
theorem yields_forM_isolate {hs : List Nat} {ps : List Part} {D : Set Nat}
    (row : s.HasParts hs ps B) (closed : s.IsClosed D) (member : ∀ k ∈ hs, k ∈ D)
    (only : ∀ k ∈ B, k ∈ D → k ∈ hs) :
    (hs.forM isolate).Yields s (D ∪ B) fun _ s' C => s'.HasSingles hs ps C := by
  induction hs generalizing s ps B D with
  | nil =>
      cases row
      exact .pure (Set.empty_subset _) (.nil s)
  | cons h hs ih =>
      cases ps with
      | nil => cases row
      | cons p ps =>
          rcases row.exists_isolate closed member only with
            ⟨s₁, X, Y, rfl, isolated, first, row, closed, member, only, apart, evolves⟩
          refine .edit_bind isolated (evolves.mono Set.subset_union_left) ?_
          refine (ih row closed member only).frame (R := X) (by grind) fun _ s₂ C evolves singles => ?_
          rcases evolves.row first apart with ⟨first, apart⟩
          exact hasSingles_cons_iff.2 ⟨X, C, Set.union_comm .., first, singles, apart.symm⟩

theorem yields_ringOf {h : Nat} {x : Operand} (row : s.HasRow h [.operand x] A) :
    (ringOf h).Yields s A fun k s' B => s'.HasRing k (Formula.ofOperand x) B := by
  rcases hasRow_singleton_iff.1 row with ⟨_, part⟩
  cases x with
  | symbol negated name =>
      rcases part with holds | _ | _
      rcases holds.exists_node with ⟨⟨_, _, _, _⟩, found, rfl, rfl⟩
      exact .read found (.pure Set.Subset.rfl row)
  | group negated content =>
      rcases hasPart_group_iff.1 part with ⟨head, B, rfl, holds, ring, _⟩
      cases negated with
      | false =>
          rcases holds.exists_node with ⟨⟨_, _, _, _⟩, found, rfl, rfl⟩
          exact .read found (.pure (Set.subset_insert ..) ring)
      | true =>
          rcases holds.exists_node with ⟨⟨_, _, _, _⟩, found, rfl, rfl⟩
          exact .read found (.pure Set.Subset.rfl row)

/-- A row of disjunctions is distributed, any other one is simplified only. -/
theorem yields_combine {head : Nat} {f : Formula} (ring : s.HasRing head f A) :
    (combine head).Yields s A fun h s' B => s'.HasRing h f.combine B := by
  refine (yields_associate ring).bind Set.Subset.rfl fun head' s₁ B _ ring' => ?_
  refine .read (HasRing.isSingle ring') ?_
  rw [Formula.combine]
  cases made : f.associate with
  | single x =>
      rw [made] at ring'
      exact .pure Set.subset_union_right ring'
  | chain first c rest =>
      rw [made] at ring'
      rcases ring'.exists_second with ⟨op, others, isRing, row, connective⟩
      rcases row.exists_operands with ⟨operands, C, filtered, selected⟩
      have next : (do Store.required (← s₁.next head')) = Except.ok op := by
        rw [isRing.1.1.1]
        rfl
      refine .read next (.read connective ?_)
      cases c with
      | conj | impl | iff => exact .pure Set.subset_union_right ring'
      | disj =>
          have found : s₁.operands head' = .ok operands := by
            simp only [Store.operands, walk_ring isRing, bind, Except.bind, filtered]
          refine .read found ?_
          rcases selected with ⟨parts, within, listed, only⟩
          have inRow := row.mem
          cases operands with
          | nil => cases parts
          | cons h hs =>
              refine (yields_forM_isolate parts isRing.isClosed listed (by grind)).bind
                (by grind) fun _ s₂ D _ singles => ?_
              rcases hasSingles_cons_iff.1 singles with ⟨X, Y, rfl, first, singles, apart⟩
              refine (yields_foldlM_disjoin first singles apart).bind Set.subset_union_right ?_
              intro k s₃ E _ row
              exact (yields_ringOf row).mono Set.subset_union_right

/-- The rings of the groups are combined before the ring is. -/
theorem yields_combineTo {levels head : Nat} {f : Formula} (ring : s.HasRing head f A)
    (enough : f.depth ≤ levels) :
    (combineTo levels head).Yields s A fun h s' B => s'.HasRing h f.combineInGroups.combine B := by
  induction levels generalizing s head f A with
  | zero => exact absurd (Nat.le_trans f.one_le_depth enough) (Nat.not_succ_le_zero 0)
  | succ levels ih =>
      have shallow := Formula.depth_le_succ_iff.1 enough
      have turns : List.Forall₂ (Turns (regroup (combineTo levels))) f.parts
          (f.mapOperands Operand.combineInside).parts := by
        rw [Formula.parts_mapOperands, List.forall₂_map_right_iff, List.forall₂_same]
        intro p isPart
        match p with
        | .link c => exact turns_regroup_link _ c
        | .operand (.symbol negated name) => exact turns_regroup_symbol _ negated name
        | .operand (.group negated content) =>
            exact turns_regroup_group (fun s head A ring => ih ring (shallow _ isPart)) negated
      refine .walk_turns ring turns fun s₁ B _ ring => ?_
      rw [Formula.combineInGroups_eq_mapOperands]
      exact (yields_combine ring).mono Set.subset_union_right

/-- Only a plain group that is a ring by itself is opened. -/
theorem yields_unwrapTo_of_chain {bound head : Nat} {x : Operand} {c : Connective} {f : Formula}
    (ring : s.HasRing head (.chain x c f) A) :
    (unwrapTo (bound + 1) head).Yields s A fun h s' B => s'.HasRing h (.chain x c f) B := by
  rcases ring.exists_second with ⟨op, rest, isRing, row, _⟩
  have next : s.next head = .ok (some op) := isRing.1.1.1
  have other : op ≠ head := fun same => (List.nodup_cons.1 isRing.2).1 (same ▸ List.mem_cons_self)
  rcases row with _ | ⟨part, _, _⟩
  match x, part with
  | .symbol _ _, .symbol holds =>
      rcases holds.exists_node_of_next next with ⟨prev, found⟩
      exact .read found (.pure Set.Subset.rfl ring)
  | .group true _, .group holds _ _ _ =>
      rcases holds.exists_node_of_next next with ⟨prev, found⟩
      exact .read found (.pure Set.Subset.rfl ring)
  | .group false _, .group holds _ _ _ =>
      rcases holds.exists_node_of_next next with ⟨prev, found⟩
      refine .read found ?_
      dsimp only
      rw [if_neg other]
      exact .pure Set.Subset.rfl ring

/-- Plain groups around the whole are opened. -/
theorem yields_unwrapTo {bound head : Nat} {f : Formula} (ring : s.HasRing head f A)
    (enough : f.depth ≤ bound) :
    (unwrapTo bound head).Yields s A fun h s' B => s'.HasRing h f.unwrap B := by
  induction bound generalizing head f A with
  | zero => exact absurd (Nat.le_trans f.one_le_depth enough) (Nat.not_succ_le_zero 0)
  | succ bound ih =>
      match f with
      | .chain x c f => exact yields_unwrapTo_of_chain ring
      | .single x =>
          rcases hasRow_singleton_iff.1 ring with ⟨isRing, part⟩
          have next : s.next head = .ok (some head) := isRing.1.1
          match x, part with
          | .symbol _ _, .symbol holds =>
              rcases holds.exists_node_of_next next with ⟨prev, found⟩
              exact .read found (.pure Set.Subset.rfl ring)
          | .group true _, .group holds _ _ _ =>
              rcases holds.exists_node_of_next next with ⟨prev, found⟩
              exact .read found (.pure Set.Subset.rfl ring)
          | .group false _, .group holds isRing row _ =>
              rcases holds.exists_node_of_next next with ⟨prev, found⟩
              refine .read found ?_
              dsimp only
              rw [if_pos rfl]
              exact (ih ⟨_, isRing, row⟩ (Nat.le_of_succ_le_succ enough)).mono (Set.subset_insert ..)

/-- The ring of a formula is brought into the conjunctive normal form of the formula. -/
theorem yields_conjunctive {head : Nat} {f g : Formula} (ring : s.HasRing head f A)
    (made : f.conjunctive = .ok g) :
    (conjunctive head).Yields s A fun h s' B => s'.HasRing h g B := by
  rcases map_eq_ok_iff.1 made with ⟨normal, pushed, rfl⟩
  refine (yields_eliminate ring).bind Set.Subset.rfl fun head₁ s₁ B _ ring => ?_
  refine (yields_negationNormal ring pushed).bind Set.subset_union_right ?_
  intro head₂ s₂ C _ ring
  refine .get ((yields_combineTo ring (Nat.le_succ_of_le ring.depth_le_size)).bind
    Set.subset_union_right fun head₃ s₃ D _ ring => .get ?_)
  exact (yields_unwrapTo ring (Nat.le_succ_of_le ring.depth_le_size)).mono Set.subset_union_right

theorem comesTo_conjunctive {head : Nat} {f : Formula} (ring : s.HasRing head f A) :
    (conjunctive head).ComesTo s A f.conjunctive fun h g s' B => s'.HasRing h g B := by
  rcases Formula.exists_pushNegation f.hasDuals_eliminate false with ⟨normal, pushed⟩
  have made : f.conjunctive = .ok normal.combineInGroups.combine.unwrap :=
    map_eq_ok_iff.2 ⟨normal, pushed, rfl⟩
  rw [made]
  exact yields_conjunctive ring made

end Builder

end Ring

end Entail
