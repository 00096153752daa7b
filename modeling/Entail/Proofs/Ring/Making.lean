import Entail.Proofs.Ring.Reading
import Entail.Ring.Rule

/-!
# Making rings

Nodes are added as rings by themselves, and single nodes are put at the end of
a ring, one after the other.  In this way a ring can be made of every formula.
-/

namespace Entail

/-- The parts of the operands behind the first one of a row that are all joined by `c`. -/
def Part.joined (c : Connective) (xs : List Operand) : List Part :=
  xs.flatMap fun x => [.link c, .operand x]

theorem Formula.parts_join (c : Connective) (first : Operand) (rest : List Operand) :
    (join c first rest).parts = .operand first :: Part.joined c rest := by
  induction rest generalizing first with
  | nil => rfl
  | cons next rest ih => simp [join, parts, ih, Part.joined]

namespace Ring

namespace Store

variable {s s' : Store} {A B C : Set Nat}

theorem Relinks.evolves {members : List Nat} (relinks : s.Relinks s' members)
    (within : ∀ m ∈ members, m ∈ A) (subset : B ⊆ A) : s.Evolves s' A B :=
  ⟨Nat.le_of_eq relinks.size.symm,
    fun k _ outside => relinks.node k fun isMember => outside (within k isMember),
    fun _ isNode => .inl (subset isNode)⟩

theorem evolves_add (s : Store) (payload : Payload) (negated : Bool) (A : Set Nat) :
    s.Evolves (s.add payload negated) A (insert s.size A) where
  size := Nat.le_of_lt (by rw [size_add]; exact Nat.lt_succ_self _)
  node := fun _ old _ => s.node_add_of_lt payload negated old
  origin := by
    rintro k (rfl | isNode)
    · exact .inr (Nat.le_refl _)
    · exact .inl isNode

/-- A single node is put at the end of a ring. -/
theorem HasRow.exists_insertBefore {head new : Nat} {parts : List Part} {p : Part}
    (row : s.HasRow head parts A) (single : s.HasRow new [p] B) (apart : Disjoint A B) :
    ∃ s', s.insertBefore head new = .ok s' ∧ s'.HasRow head (parts ++ [p]) (A ∪ B) ∧
      s.Evolves s' (A ∪ B) (A ∪ B) := by
  rcases row with ⟨rest, isRing, row⟩
  rcases hasRow_singleton_iff.1 single with ⟨isRing', part⟩
  have isNew : new ∉ head :: rest := fun isMember =>
    Set.disjoint_left.1 apart (row.mem new isMember) part.mem
  rcases Store.exists_insertBefore isRing isRing' isNew with ⟨s', inserted, longer, relinks⟩
  have row' := row.append (hasParts_singleton_iff.2 part) apart
  exact ⟨s', inserted, ⟨_, longer, row'.relinks relinks fun _ _ isChanged => isChanged⟩,
    relinks.evolves row'.mem Set.Subset.rfl⟩

/-- A single connective and a single operand are put at the end of a ring. -/
theorem HasRow.exists_append {head op h : Nat} {parts : List Part} {p q : Part}
    (row : s.HasRow head parts A) (link : s.HasRow op [p] B) (operand : s.HasRow h [q] C)
    (apart : Disjoint A B) (apart' : Disjoint (A ∪ B) C) :
    ∃ s₁ s₂, s.insertBefore head op = .ok s₁ ∧ s₁.insertBefore head h = .ok s₂ ∧
      s₂.HasRow head (parts ++ [p, q]) (A ∪ B ∪ C) ∧
      s.Evolves s₂ (A ∪ B ∪ C) (A ∪ B ∪ C) := by
  rcases row.exists_insertBefore link apart with ⟨s₁, inserted, row', evolves⟩
  rcases evolves.row operand apart' with ⟨operand', _⟩
  rcases row'.exists_insertBefore operand' apart' with ⟨s₂, inserted', row'', evolves'⟩
  rw [List.append_assoc] at row''
  exact ⟨s₁, s₂, inserted, inserted', row'',
    ((evolves.mono Set.subset_union_left).union Set.Subset.rfl).trans (evolves'.mono (by simp))⟩

end Store

namespace Builder

open Store

variable {s : Store} {A B : Set Nat}

/-! ### Adding nodes -/

theorem yields_add_link (c : Connective) :
    (add (.link c) false).Yields s ∅ fun h s' B => s'.HasRow h [.link c] B :=
  ⟨s.size, _, {s.size}, rfl, (s.evolves_add _ _ ∅).restrict (by simp),
    hasRow_singleton_iff.2 ⟨s.isRing_add _ _, .link (s.holds_add _ _)⟩⟩

theorem yields_add_symbol (name : String) (negated : Bool) :
    (add (.symbol name) negated).Yields s ∅
      fun h s' B => s'.HasRow h [.operand (.symbol negated name)] B :=
  ⟨s.size, _, {s.size}, rfl, (s.evolves_add _ _ ∅).restrict (by simp),
    hasRow_singleton_iff.2 ⟨s.isRing_add _ _, .symbol (s.holds_add _ _)⟩⟩

theorem yields_addConstant (value : Bool) :
    (addConstant value).Yields s ∅ fun h s' B => s'.HasRow h [.operand (.constant value)] B :=
  yields_add_symbol _ false

/-- The new node owns the ring that it was given. -/
theorem yields_addGroup {head : Nat} {f : Formula} (ring : s.HasRing head f A) (negated : Bool) :
    (addGroup head negated).Yields s A
      fun h s' B => s'.HasRow h [.operand (.group negated f)] B := by
  have isNew : s.size ∉ A := fun isNode => Nat.lt_irrefl _ (ring.lt_size _ isNode)
  have kept : (s.add (.group head) negated).HasRing head f A :=
    ring.congr fun k isNode => s.node_add_of_lt _ _ (ring.lt_size k isNode)
  exact ⟨s.size, _, _, rfl, s.evolves_add _ _ A, hasRow_singleton_iff.2 ⟨s.isRing_add _ _,
    hasPart_group_iff.2 ⟨head, A, rfl, s.holds_add _ _, kept, isNew⟩⟩⟩

/-! ### Joining nodes -/

/-- A new connective and a single operand are put at the end of a ring. -/
theorem yields_append {head h : Nat} {parts : List Part} {x : Operand}
    (row : s.HasRow head parts A) (operand : s.HasRow h [.operand x] B) (apart : Disjoint A B)
    (c : Connective) :
    Yields (do
      let link ← add (.link c) false
      edit (·.insertBefore head link)
      edit (·.insertBefore head h)) s (A ∪ B)
        fun _ s' C => s'.HasRow head (parts ++ [.link c, .operand x]) C := by
  refine (yields_add_link c).bind (Set.empty_subset _) fun op s₁ L evolves link => ?_
  rcases evolves.row row (Set.empty_disjoint A) with ⟨row, apartRow⟩
  rcases evolves.row operand (Set.empty_disjoint B) with ⟨operand, apartOperand⟩
  rcases row.exists_append link operand apartRow.symm
    (Set.disjoint_union_left.2 ⟨apart, apartOperand⟩) with
    ⟨s₂, s₃, inserted, inserted', row', evolves'⟩
  rw [Set.union_right_comm] at row' evolves'
  exact ⟨(), s₃, _, (bind_of_ok (edit_of_ok inserted) _).trans (edit_of_ok inserted'), evolves',
    row'⟩

/-- Two single nodes are joined by a new connective. -/
theorem yields_pair {left right : Nat} {x y : Operand} (first : s.HasRow left [.operand x] A)
    (second : s.HasRow right [.operand y] B) (apart : Disjoint A B) (c : Connective) :
    (pair left c right).Yields s (A ∪ B) fun h s' C => s'.HasRing h (.pair x c y) C := by
  refine (yields_add_link c).bind (Set.empty_subset _) fun op s₁ L evolves link => ?_
  rcases evolves.row first (Set.empty_disjoint A) with ⟨first, apartFirst⟩
  rcases evolves.row second (Set.empty_disjoint B) with ⟨second, apartSecond⟩
  rcases first.exists_append link second apartFirst.symm
    (Set.disjoint_union_left.2 ⟨apart, apartSecond⟩) with
    ⟨s₂, s₃, inserted, inserted', ring, evolves'⟩
  have linked : s₁.linkAll left [op, right] = .ok s₃ := by
    simp only [linkAll, List.foldlM, inserted, inserted', bind, Except.bind, Pure.pure,
      Except.pure]
  rw [Set.union_right_comm] at ring evolves'
  exact .edit_bind linked evolves' (.pure Set.subset_union_right ring)

/-- Single nodes are put at the end of a ring, each behind a new connective. -/
theorem yields_forM_append {head : Nat} {parts : List Part} {rest : List Nat} {xs : List Operand}
    (row : s.HasRow head parts A) (singles : s.HasSingles rest (xs.map .operand) B)
    (apart : Disjoint A B) (c : Connective) :
    (rest.forM fun h => do
      let link ← add (.link c) false
      edit (·.insertBefore head link)
      edit (·.insertBefore head h)).Yields s (A ∪ B)
        fun _ s' C => s'.HasRow head (parts ++ Part.joined c xs) C := by
  induction rest generalizing s A B parts xs with
  | nil =>
      rcases singles with ⟨row', _⟩
      cases xs with
      | nil => exact .pure Set.subset_union_left (by simpa [Part.joined] using row)
      | cons x xs => cases row'
  | cons h rest ih =>
      cases xs with
      | nil => cases singles.parts
      | cons x xs =>
          rcases hasSingles_cons_iff.1 singles with ⟨B, C, rfl, operand, singles, apart'⟩
          rcases Set.disjoint_union_right.1 apart with ⟨apartFirst, apartRest⟩
          refine (yields_append row operand apartFirst c).bind (by grind) ?_
          intro _ s' D evolves row
          rcases evolves.singles singles (Set.disjoint_union_left.2 ⟨apartRest, apart'⟩) with
            ⟨singles, apart⟩
          refine ((ih row singles apart).mono (by grind)).imp fun _ s'' E _ row => ?_
          rwa [List.append_assoc] at row

theorem yields_join {first : Nat} {rest : List Nat} {x : Operand} {xs : List Operand}
    (singles : s.HasSingles (first :: rest) ((x :: xs).map .operand) A) (c : Connective) :
    (join c first rest).Yields s A fun h s' B => s'.HasRing h (.join c x xs) B := by
  rcases hasSingles_cons_iff.1 singles with ⟨B, C, rfl, row, singles, apart⟩
  refine (yields_forM_append row singles apart c).bind Set.Subset.rfl ?_
  intro _ s' D _ row'
  refine .pure Set.subset_union_right ?_
  rwa [HasRing, Formula.parts_join]

end Builder

end Ring

/-! ### Rings of formulas -/

open Ring.Store Ring.Builder

mutual

/-- Every operand is that of a node in a store that has grown out of the given one. -/
theorem Operand.exists_hasRow (x : Operand) (s : Ring.Store) :
    ∃ s' h A, s'.HasRow h [.operand x] A ∧ s.Evolves s' ∅ A := by
  match x with
  | .symbol negated name =>
      rcases yields_add_symbol (s := s) name negated with ⟨h, s', A, _, evolves, row⟩
      exact ⟨s', h, A, row, evolves⟩
  | .group negated content =>
      rcases content.exists_hasRing s with ⟨s₁, head, A, ring, evolves⟩
      rcases yields_addGroup ring negated with ⟨h, s₂, B, _, evolves', row⟩
      exact ⟨s₂, h, B, row, evolves.comp evolves' Set.subset_union_right Set.subset_union_right⟩

/-- Every formula is that of a ring in a store that has grown out of the given one. -/
theorem Formula.exists_hasRing (f : Formula) (s : Ring.Store) :
    ∃ s' head A, s'.HasRing head f A ∧ s.Evolves s' ∅ A := by
  match f with
  | .single x => exact x.exists_hasRow s
  | .chain x c rest =>
      rcases x.exists_hasRow s with ⟨s₁, head, A, row, evolves⟩
      rcases rest.exists_appended row c with ⟨s₂, B, ring, evolves'⟩
      exact ⟨s₂, head, B, ring, evolves.comp evolves' Set.subset_union_right Set.subset_union_right⟩

/-- A connective and an operand can be put at the end of a ring. -/
theorem Operand.exists_appended (x : Operand) {s : Ring.Store} {head : Nat} {parts : List Part}
    {A : Set Nat} (row : s.HasRow head parts A) (c : Connective) :
    ∃ s' B, s'.HasRow head (parts ++ [.link c, .operand x]) B ∧ s.Evolves s' A B := by
  rcases x.exists_hasRow s with ⟨s₁, h, C, operand, evolves⟩
  rcases evolves.row row (Set.empty_disjoint A) with ⟨row, apart⟩
  rcases yields_append row operand apart.symm c with ⟨_, s₂, B, _, evolves', row'⟩
  exact ⟨s₂, B, row', (evolves.mono (Set.empty_subset A)).comp evolves' Set.Subset.rfl
    Set.subset_union_right⟩

/-- A connective and the operands and connectives of a formula can be put at the end of a ring. -/
theorem Formula.exists_appended (f : Formula) {s : Ring.Store} {head : Nat} {parts : List Part}
    {A : Set Nat} (row : s.HasRow head parts A) (c : Connective) :
    ∃ s' B, s'.HasRow head (parts ++ .link c :: f.parts) B ∧ s.Evolves s' A B := by
  match f with
  | .single x => exact x.exists_appended row c
  | .chain x d rest =>
      rcases x.exists_appended row c with ⟨s₁, B, row₁, evolves⟩
      rcases rest.exists_appended row₁ d with ⟨s₂, C, row₂, evolves'⟩
      rw [List.append_assoc] at row₂
      exact ⟨s₂, C, row₂, evolves.comp evolves' Set.subset_union_right Set.subset_union_right⟩

end

end Entail
