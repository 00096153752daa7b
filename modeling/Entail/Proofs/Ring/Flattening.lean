import Entail.Proofs.Ring.Combining

/-!
# Splicing groups into rings

A group is replaced by the members of its ring once these have been flattened
themselves.  De Morgan's law stops at an arrow under a negation; nothing else
can go wrong.
-/

namespace Entail

/-- The parts of the row of literals that a part consists of. -/
def Part.literalParts : Part → Except Error (List Part)
  | operand x => (x.literalRow false).map Formula.parts
  | link c => .ok [link c]

/-- The literals of a toggled operand are those of the operand under a negation. -/
theorem Operand.literalRow_toggle (x : Operand) : x.toggle.literalRow false = x.literalRow true := by
  cases x with
  | symbol negated name => cases negated <;> rfl
  | group negated content => cases negated <;> rfl

theorem Formula.literalRow_dualize (f : Formula) :
    f.dualize.literalRow false = f.literalRow true := by
  cases f with
  | single x => exact x.literalRow_toggle
  | chain x c rest =>
      rw [dualize, literalRow, literalRow, x.literalRow_toggle, literalRow_dualize rest,
        Connective.dualIf_false]

theorem Formula.literalRow_dualizeIf (flip : Bool) (f : Formula) :
    (f.dualizeIf flip).literalRow false = f.literalRow flip := by
  cases flip
  · rfl
  · exact f.literalRow_dualize

/-- The literals of a group are those of its row, which is dualized if the group is negated. -/
theorem Part.literalParts_group (negated : Bool) (content : Formula) :
    literalParts (.operand (.group negated content)) =
      (if negated then content.requireDual else .ok ()) >>= fun _ =>
        (content.dualizeIf negated).flatten >>= fun row => .ok row.parts := by
  rw [literalParts, Operand.literalRow, Bool.bne_false, Formula.flatten,
    Formula.literalRow_dualizeIf]
  cases negated with
  | false => cases content.literalRow false <;> rfl
  | true =>
      simp only [if_true]
      cases content.requireDual with
      | error => rfl
      | ok => cases content.literalRow true <;> rfl

/-- Where a row has no dual, its first arrow is in the way. -/
theorem Formula.exists_of_requireDual_eq_error {f : Formula} {error : Error}
    (failed : f.requireDual = .error error) :
    ∃ left c right, f.parts = left ++ .link c :: right ∧
      (∀ d, .link d ∈ left → d.isArrow = false) ∧ c.isArrow = true ∧ error = .noDual c := by
  match f with
  | single x => contradiction
  | chain x c rest =>
      by_cases isArrow : c.isArrow = true
      · rw [requireDual, links, List.find?_cons_of_pos isArrow] at failed
        cases failed
        exact ⟨[.operand x], c, rest.parts, rfl, by simp, isArrow, rfl⟩
      · rw [requireDual, links, List.find?_cons_of_neg isArrow] at failed
        rcases exists_of_requireDual_eq_error (f := rest) failed with
          ⟨left, d, right, split, before, isArrow', rfl⟩
        refine ⟨.operand x :: .link c :: left, d, right, by rw [parts, split]; rfl, ?_, isArrow', rfl⟩
        intro e isLink
        rcases List.mem_cons.1 isLink with same | isLink
        · cases same
        · rcases List.mem_cons.1 isLink with same | isLink
          · cases same
            exact Bool.not_eq_true _ ▸ isArrow
          · exact before e isLink

/-- A row is flattened part by part. -/
theorem Formula.map_parts_flatten (f : Formula) :
    f.flatten.map parts = (f.parts.mapM Part.literalParts).map List.flatten := by
  cases f with
  | single x =>
      simp only [flatten, literalRow, parts, List.mapM_cons, List.mapM_nil, Part.literalParts]
      cases x.literalRow false with
      | error error => rfl
      | ok row => exact congrArg Except.ok (List.append_nil _).symm
  | chain x c rest =>
      have tail := map_parts_flatten rest
      simp only [flatten, literalRow, parts, List.mapM_cons, Part.literalParts] at tail ⊢
      cases x.literalRow false with
      | error error => rfl
      | ok row =>
          cases flat : rest.literalRow false with
          | error error =>
              rw [flat] at tail
              cases mapped : rest.parts.mapM Part.literalParts with
              | error error' =>
                  rw [mapped] at tail
                  cases tail
                  rfl
              | ok lists =>
                  rw [mapped] at tail
                  cases tail
          | ok restRow =>
              rw [flat] at tail
              cases mapped : rest.parts.mapM Part.literalParts with
              | error error =>
                  rw [mapped] at tail
                  cases tail
              | ok lists =>
                  rw [mapped] at tail
                  have same : restRow.parts = lists.flatten := Except.ok.inj tail
                  refine congrArg Except.ok ?_
                  rw [Formula.parts_append, same]
                  rfl

namespace Ring

namespace Store

variable {s s' : Store} {A B : Set Nat}

/-- A ring takes the place of a member of another one. -/
theorem exists_splice {h k : Nat} {before after more : List Nat}
    (ring : s.IsRing (before ++ h :: after)) (ring' : s.IsRing (k :: more))
    (apart : ∀ x ∈ before ++ h :: after, x ∉ k :: more) :
    ∃ s₁ s₂, s.extendFront h k = .ok s₁ ∧ s₁.isolate h false = .ok s₂ ∧
      s₂.IsRing (before ++ (k :: more ++ after)) ∧
      s.Relinks s₂ (before ++ h :: (k :: more ++ after)) := by
  have isRotated : s.IsRing (h :: (after ++ before)) := ring.rotate
  rcases exists_extendFront isRotated ring' (by grind) with ⟨s₁, spliced, joined, relinks⟩
  have ring₁ : s₁.IsRing (h :: (after ++ before ++ k :: more)) := joined
  rcases exists_isolate ring₁ (by simp) with ⟨s₂, isolated, ring₂, _, relinks'⟩
  have turned : s₂.IsRing (after ++ (before ++ k :: more)) := by
    simpa only [List.append_assoc] using ring₂
  refine ⟨s₁, s₂, spliced, isolated, ?_, (relinks.mono (by grind)).trans (relinks'.mono (by grind))⟩
  simpa only [List.append_assoc] using turned.rotate

/-- De Morgan's law stops at the first arrow. -/
theorem HasParts.foldlM_dualizeNode_eq_error {members : List Nat} {left right : List Part}
    {c : Connective} (row : s.HasParts members (left ++ .link c :: right) A)
    (before : ∀ d, .link d ∈ left → d.isArrow = false) (isArrow : c.isArrow = true) :
    members.foldlM dualizeNode s = .error (.noDual c) := by
  rcases row.exists_append with ⟨first, last, X, Y, rfl, rfl, row₁, row₂, apart⟩
  have duals : s.HaveDuals first :=
    row₁.haveDuals fun d isLink => by simpa [Connective.isArrow] using before d isLink
  rcases exists_foldlM_dualizeNode row₁.nodup duals with ⟨s₁, folded, dualizes⟩
  rcases ((dualizes.evolves row₁.mem).parts row₂ apart).1 with _ | ⟨link, _, _⟩
  rcases link with _ | holds | _
  have noDual : c.dual? = none := by cases c <;> first | rfl | contradiction
  simp only [List.foldlM_append, List.foldlM_cons, folded, bind, Except.bind, dualizeNode,
    holds.payload, noDual]
  rfl

theorem HasPart.deMorgan_eq_error {h : Nat} {negated : Bool} {f : Formula} {error : Error}
    (part : s.HasPart h (.operand (.group negated f)) A) (failed : f.requireDual = .error error) :
    s.deMorgan h = .error error := by
  rcases hasPart_group_iff.1 part with ⟨head, B, rfl, holds, ring, apart⟩
  rcases holds.exists_toggle with ⟨s₁, toggled, holds₁, retains⟩
  rcases ring.congr fun k isNode => retains.node k fun same => apart (same ▸ isNode) with
    ⟨rest, isRing, row⟩
  rcases Formula.exists_of_requireDual_eq_error failed with
    ⟨left, c, right, split, before, isArrow, rfl⟩
  rw [split] at row
  rw [deMorgan, holds.payload]
  simp only [bind, Except.bind, toggled, walk_ring isRing,
    row.foldlM_dualizeNode_eq_error before isArrow]

section Pieces

variable {head h k : Nat} {before after more : List Nat} {left right parts : List Part} {C : Set Nat}

/-- A row takes the place of the member between two rows. -/
theorem Gap.exists_splice (gap : s.Gap head h before after left right A B)
    (ring : s.IsRing (k :: more)) (row : s.HasParts (k :: more) parts C)
    (apart : Disjoint C (A ∪ insert h B)) :
    ∃ s₁ s₂, s.extendFront h k = .ok s₁ ∧ s₁.isolate h false = .ok s₂ ∧
      s₂.Cut (if h = head then k else head) (before ++ k :: more) after (left ++ parts) right
        (A ∪ C) B ∧
      s.Relinks s₂ (before ++ h :: (k :: more ++ after)) := by
  rcases gap with ⟨isRing, isHead, first, last, apart', notLeft, notRight⟩
  have inLeft := first.mem
  have inRight := last.mem
  have inRow := row.mem
  rcases Store.exists_splice isRing ring (by grind) with ⟨s₁, s₂, spliced, isolated, ring', relinks⟩
  have isHead' : (before ++ k :: more ++ after).head? = some (if h = head then k else head) := by
    cases before with
    | nil =>
        cases isHead
        rw [if_pos rfl]
        rfl
    | cons other before =>
        cases isHead
        have other : h ≠ head := fun same => notLeft (same ▸ inLeft head List.mem_cons_self)
        rw [if_neg other]
        rfl
  refine ⟨s₁, s₂, spliced, isolated, ⟨?_, isHead', ?_, ?_, ?_⟩, relinks⟩
  · simpa only [List.append_assoc] using ring'
  · exact (first.relinks relinks (by grind)).append (row.relinks relinks (by grind)) (by grind)
  · exact last.relinks relinks (by grind)
  · grind

end Pieces

end Store

namespace Builder

open Store

variable {s : Store} {A B : Set Nat}

/-- The first arrow of its ring stops the opening of a negated group. -/
theorem comesTo_openNegation {h : Nat} {negated : Bool} {f : Formula}
    (part : s.HasPart h (.operand (.group negated f)) A) :
    (openNegation h).ComesTo s A (if negated then f.requireDual else .ok ()) fun _ _ s' B =>
      s'.HasPart h (.operand (.group false (f.dualizeIf negated))) B ∧ s.SameLinks s' h := by
  by_cases required : (if negated then f.requireDual else .ok ()) = .ok ()
  · rw [required]
    refine turns_openNegation (fun isNegated => ?_) s h A part
    rwa [if_pos isNegated] at required
  · cases negated with
    | false => exact absurd rfl required
    | true =>
        rw [if_pos rfl] at required ⊢
        cases failed : f.requireDual with
        | ok u => exact absurd failed required
        | error error =>
            have stopped : (edit (·.deMorgan h)).ComesTo s A (.error error) fun _ (_ : Unit) s' B =>
                s'.HasPart h (.operand (.group false (f.dualizeIf true))) B ∧ s.SameLinks s' h :=
              .fails (edit_of_error (part.deMorgan_eq_error failed))
            exact .read part.shows.negated stopped

/-- The member behind the cut is flattened, and the cut is moved behind what it became. -/
theorem comesTo_flattenMember {levels head h : Nat} {before after : List Nat}
    {left right : List Part} {p : Part}
    (cut : s.Cut head before (h :: after) left (p :: right) A B)
    (inner : ∀ (s : Store) head f A, f.depth ≤ p.depth → s.HasRing head f A →
      (flattenTo levels head).ComesTo s A f.flatten fun h g s' B => s'.HasRing h g B) :
    (do
      if ← read (·.isGroup h) then
        openNegation h
        splice head h (← flattenTo levels (← read (·.content h)))
      else return head : Builder Nat).ComesTo s (A ∪ B) p.literalParts fun head' parts s' D =>
        ∃ new C C', D = C ∪ C' ∧ s'.Cut head' (before ++ new) after (left ++ parts) right C C' := by
  rcases cut.exists_gap with ⟨X, Y, rfl, part, gap, apart⟩
  match p, part with
  | .link c, .link holds =>
      refine .read (ShowsPart.link holds).isGroup (Yields.pure Set.Subset.rfl ?_)
      exact ⟨[h], _, _, Set.union_assoc .. ▸ rfl, gap.fill (.link holds) apart⟩
  | .operand (.symbol negated name), .symbol holds =>
      refine .read (ShowsPart.symbol holds).isGroup ?_
      rw [Part.literalParts, Operand.literalRow, Bool.bne_false]
      refine Yields.pure Set.Subset.rfl ?_
      exact ⟨[h], _, _, Set.union_assoc .. ▸ rfl, gap.fill (.symbol holds) apart⟩
  | .operand (.group negated content), part =>
      refine .read part.shows.isGroup ?_
      rw [Part.literalParts_group]
      refine (comesTo_openNegation part).bind (by grind) fun _ _ s₁ Z evolves opened => ?_
      rcases opened with ⟨part, links⟩
      rcases hasPart_group_iff.1 part with ⟨k, W, rfl, holds, ring, notInside⟩
      refine .read holds.content ?_
      have old : ∀ k ∈ A ∪ Y, k < s.size := fun k isNode => gap.lt_size k (by grind)
      have gap : s₁.Gap head h before after left right A Y :=
        gap.congr (evolves.node_of_disjoint apart old) links
      have apart := evolves.disjoint apart old
      have shallow : (content.dualizeIf negated).depth ≤ content.depth :=
        Nat.le_of_eq (content.depth_dualizeIf negated)
      have beside : Disjoint W (A ∪ insert h Y) := by grind
      refine (inner s₁ k _ W shallow ring).bind (by grind) fun k' g s₂ E evolves ring => ?_
      have kept := evolves.node_of_disjoint beside gap.lt_size
      have apart := evolves.disjoint beside gap.lt_size
      have gap : s₂.Gap head h before after left right A Y :=
        gap.congr (fun k isNode => kept k (by grind)) (.of_node (kept h (by simp)))
      rcases ring with ⟨more, isRing, row⟩
      rcases gap.exists_splice isRing row apart with ⟨s₃, s₄, spliced, isolated, cut, relinks⟩
      have ran : splice head h k' s₂ =
          (pure (if h = head then k' else head) : Builder Nat) s₄ := by
        rw [splice, bind_of_ok (edit_of_ok spliced)]
        exact bind_of_ok (edit_of_ok isolated) _
      have inLeft := gap.left.mem
      have inRight := gap.right.mem
      have inRow := row.mem
      refine Yields.after ran (relinks.evolves (by grind) (B := A ∪ E ∪ Y) (by grind)) ?_
      exact .pure (by grind) ⟨k' :: more, _, _, rfl, cut⟩

/-- The members behind the cut are flattened one after the other. -/
theorem comesTo_foldlM_flatten {levels head : Nat} {before after : List Nat}
    {left right : List Part} (cut : s.Cut head before after left right A B)
    (inner : ∀ p ∈ right, ∀ (s : Store) head f A, f.depth ≤ p.depth → s.HasRing head f A →
      (flattenTo levels head).ComesTo s A f.flatten fun h g s' B => s'.HasRing h g B) :
    (after.foldlM (fun head h => do
      if ← read (·.isGroup h) then
        openNegation h
        splice head h (← flattenTo levels (← read (·.content h)))
      else return head : Nat → Nat → Builder Nat) head).ComesTo s (A ∪ B)
        (right.mapM Part.literalParts) fun head' parts s' C =>
          s'.HasRow head' (left ++ parts.flatten) C := by
  induction after generalizing s head before left right A B with
  | nil =>
      rcases cut.right with _ | _
      refine Yields.pure Set.Subset.rfl ?_
      exact cut.hasRow
  | cons h after ih =>
      cases right with
      | nil => cases cut.right
      | cons p right =>
          rcases List.forall_mem_cons.1 inner with ⟨first, inner⟩
          rw [List.mapM_cons, List.foldlM_cons]
          refine (comesTo_flattenMember cut first).bind Set.Subset.rfl ?_
          rintro head' parts s₁ D _ ⟨new, C, C', rfl, cut⟩
          refine ((ih cut inner).mono Set.subset_union_right).map fun head'' rest s₂ E _ row => ?_
          rwa [List.append_assoc] at row

/-- The groups of a ring are spliced into it. -/
theorem comesTo_flattenTo {levels head : Nat} {f : Formula} (ring : s.HasRing head f A)
    (enough : f.depth ≤ levels) :
    (flattenTo levels head).ComesTo s A f.flatten fun h g s' B => s'.HasRing h g B := by
  induction levels generalizing s head f A with
  | zero => exact absurd (Nat.le_trans f.one_le_depth enough) (Nat.not_succ_le_zero 0)
  | succ levels ih =>
      have shallow := Formula.depth_le_succ_iff.1 enough
      rcases ring with ⟨rest, isRing, row⟩
      have cut : s.Cut head [] (head :: rest) [] f.parts ∅ A :=
        ⟨isRing, rfl, .nil, row, Set.empty_disjoint A⟩
      have folded := comesTo_foldlM_flatten cut fun p isPart s head f A isBelow ring =>
        ih ring (Nat.le_trans isBelow (shallow p isPart))
      rw [Set.empty_union] at folded
      refine .read (walk_ring isRing) (folded.of_map_eq f.map_parts_flatten ?_)
      intro head' lists g s' B same row
      rwa [List.nil_append, ← same] at row

/-- The groups of a ring are spliced into it. -/
theorem comesTo_flatten {head : Nat} {f : Formula} (ring : s.HasRing head f A) :
    (flatten head).ComesTo s A f.flatten fun h g s' B => s'.HasRing h g B :=
  .get (comesTo_flattenTo ring (Nat.le_succ_of_le ring.depth_le_size))

end Builder

end Ring

end Entail
