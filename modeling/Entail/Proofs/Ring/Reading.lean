import Entail.Proofs.Outcome
import Entail.Proofs.Ring.Shown
import Entail.Ring.Associate

/-!
# Reading formulas off a store

Whatever is asked about the ring of a formula, the formula knows the answer.
There are fewer levels of rows in it than nodes in the store, so that the bound
on the levels of rings is never met.
-/

namespace Entail

/-- Whether an operand is a plain group that uses no other connective. -/
def Operand.isFlat (c : Connective) : Operand → Bool
  | .group false content => content.links.all (· == c)
  | _ => false

/-- The connective of a row, if it has one that is a conjunction or a disjunction and no other. -/
def Formula.junction? : Formula → Option Connective
  | .single _ => none
  | .chain _ c rest => if c.isJunction && rest.links.all (· == c) then some c else none

namespace Ring.Store

variable {s : Store}

/-! ### Levels of rows -/

theorem HasRing.depth_le_size {head : Nat} {f : Formula} {A : Set Nat}
    (ring : s.HasRing head f A) : f.depth ≤ s.size :=
  ring.shows.depth_le_size

theorem HasRing.length_links_lt_size {head : Nat} {f : Formula} {A : Set Nat}
    (ring : s.HasRing head f A) : f.links.length < s.size := by
  rcases ring with ⟨rest, isRing, row⟩
  have few := length_le_size isRing.nodup isRing.lt_size
  have long := f.length_links_lt_length_parts
  rw [row.length_eq] at few
  omega

/-! ### Nodes -/

section Nodes

variable {h : Nat}

theorem ShowsPart.isLink {p : Part} (part : s.ShowsPart h p) : s.isLink h = .ok p.isLink := by
  cases part with
  | symbol holds | link holds | group holds =>
      rw [Store.isLink, holds.payload]
      rfl

theorem ShowsPart.isOperand {p : Part} (part : s.ShowsPart h p) :
    (s.isLink h).map (!·) = .ok !p.isLink := by
  rw [part.isLink]
  rfl

theorem ShowsPart.isGroup {p : Part} (part : s.ShowsPart h p) : s.isGroup h = .ok p.isGroup := by
  cases part with
  | symbol holds | link holds | group holds =>
      rw [Store.isGroup, holds.payload]
      rfl

variable {x : Operand}

theorem ShowsPart.negated (part : s.ShowsPart h (.operand x)) : s.negated h = .ok x.negated := by
  cases part with
  | symbol holds | group holds => exact holds.negated

theorem ShowsPart.isSymbol (part : s.ShowsPart h (.operand x)) : s.isSymbol h = .ok x.isSymbol := by
  cases part with
  | symbol holds | group holds =>
      rw [Store.isSymbol, holds.payload]
      rfl

theorem ShowsPart.name {negated : Bool} {name : String}
    (part : s.ShowsPart h (.operand (.symbol negated name))) : s.name h = .ok name := by
  cases part with
  | symbol holds =>
      rw [Store.name, holds.payload]
      rfl

theorem ShowsPart.truth (part : s.ShowsPart h (.operand x)) : s.truth h = .ok x.truth? := by
  cases part with
  | symbol holds =>
      rcases holds.exists_node with ⟨⟨_, _, _, _⟩, found, rfl, rfl⟩
      simp only [Store.truth, found, bind, Except.bind]
      rfl
  | group holds =>
      rcases holds.exists_node with ⟨⟨_, _, _, _⟩, found, rfl, rfl⟩
      simp only [Store.truth, found, bind, Except.bind]
      rfl

theorem Holds.content {head : Nat} {negated : Bool} (holds : s.Holds h (.group head) negated) :
    s.content h = .ok head := by
  rw [Store.content, holds.payload]
  rfl

theorem IsRing.isSingle {rest : List Nat} (ring : s.IsRing (h :: rest)) :
    s.isSingle h = .ok rest.isEmpty := by
  cases rest with
  | nil => simp [Store.isSingle, ring.1.1, Except.map]
  | cons k rest =>
      have other : k ≠ h := fun same => (List.nodup_cons.1 ring.2).1 (same ▸ List.mem_cons_self)
      simp [Store.isSingle, ring.1.1.1, Except.map, other]

end Nodes

/-! ### Rows -/

section Rows

variable {members : List Nat} {parts : List Part} {A : Set Nat}

theorem HasParts.exists_part (row : s.HasParts members parts A) :
    ∀ m ∈ members, ∃ p ∈ parts, ∃ B ⊆ A, s.HasPart m p B := by
  induction members generalizing parts A with
  | nil => exact List.forall_mem_nil _
  | cons h members ih =>
      cases row with
      | cons part row apart =>
          refine List.forall_mem_cons.2 ⟨⟨_, List.mem_cons_self, _, Set.subset_union_left, part⟩, ?_⟩
          intro m isMember
          rcases ih row m isMember with ⟨p, isPart, B, subset, part⟩
          exact ⟨p, List.mem_cons_of_mem _ isPart, B, fun k isNode => .inr (subset isNode), part⟩

/-- What is computed from every member of a row is computed from every part. -/
theorem ShowsParts.mapM {γ β : Type} {xs : List γ} {part : γ → Part} {f : Nat → Except Error β}
    {g : γ → β} (row : s.ShowsParts members (xs.map part))
    (each : ∀ x ∈ xs, ∀ h, s.ShowsPart h (part x) → f h = .ok (g x)) :
    members.mapM f = .ok (xs.map g) := by
  induction xs generalizing members with
  | nil =>
      cases row
      rfl
  | cons x xs ih =>
      cases row with
      | cons part row =>
          rcases List.forall_mem_cons.1 each with ⟨first, rest⟩
          rw [List.mapM_cons, first _ part, ih row rest]
          rfl

/-- The members of a row that pass a test are those of the parts that pass it. -/
theorem ShowsParts.exists_filterM {test : Nat → Except Error Bool} {keep : Part → Bool}
    (row : s.ShowsParts members parts)
    (each : ∀ p ∈ parts, ∀ h, s.ShowsPart h p → test h = .ok (keep p)) :
    ∃ kept, members.filterM test = .ok kept ∧ s.ShowsParts kept (parts.filter keep) := by
  induction members generalizing parts with
  | nil =>
      cases row
      exact ⟨[], rfl, .nil⟩
  | cons h members ih =>
      cases row with
      | @cons _ p _ _ part row =>
          rcases List.forall_mem_cons.1 each with ⟨first, rest⟩
          rcases ih row rest with ⟨kept, filtered, row'⟩
          refine ⟨_, filterM_cons test (first h part) filtered, ?_⟩
          rw [List.filter_cons]
          split
          · exact .cons part row'
          · exact row'

/-- The operands of a row are found in order. -/
theorem ShowsParts.exists_operands {f : Formula} (row : s.ShowsParts members f.parts) :
    ∃ operands, (members.filterM fun h => (s.isLink h).map (!·)) = .ok operands ∧
      s.ShowsParts operands (f.operands.map .operand) := by
  rcases row.exists_filterM fun p _ h part => part.isOperand with ⟨operands, filtered, row⟩
  rw [Formula.filter_not_isLink] at row
  exact ⟨operands, filtered, row⟩

/-- The given members have been selected from a row, and take up the region. -/
structure Selected (s : Store) (members kept : List Nat) (parts : List Part) (A B : Set Nat) :
    Prop where
  parts : s.HasParts kept parts B
  within : B ⊆ A
  listed : kept ⊆ members
  only : ∀ m ∈ members, m ∈ B → m ∈ kept

/-- The members of a row that pass a test take up a region of their own. -/
theorem HasParts.exists_filterM {test : Nat → Except Error Bool} {keep : Part → Bool}
    (row : s.HasParts members parts A)
    (each : ∀ p ∈ parts, ∀ h, s.ShowsPart h p → test h = .ok (keep p)) :
    ∃ kept B, members.filterM test = .ok kept ∧
      s.Selected members kept (parts.filter keep) A B := by
  induction members generalizing parts A with
  | nil =>
      cases row
      exact ⟨[], ∅, rfl, .nil, Set.Subset.rfl, List.Subset.refl [], List.forall_mem_nil _⟩
  | cons h members ih =>
      cases row with
      | @cons _ p _ _ X Y part row apart =>
          rcases List.forall_mem_cons.1 each with ⟨first, rest⟩
          rcases ih row rest with ⟨kept, B, filtered, row', within, listed, only⟩
          have tested := first h part.shows
          have isFirst := part.mem
          have inRow := row.mem
          cases isKept : keep p with
          | false =>
              rw [isKept] at tested
              refine ⟨kept, B, filterM_cons test tested filtered, ?_, by grind, by grind, by grind⟩
              rwa [List.filter_cons_of_neg (by simp [isKept])]
          | true =>
              rw [isKept] at tested
              refine ⟨h :: kept, X ∪ B, filterM_cons test tested filtered, ?_, by grind, by grind,
                by grind⟩
              rw [List.filter_cons_of_pos isKept]
              exact .cons part row' (apart.mono_right within)

/-- The operands of a row take up a region of their own. -/
theorem HasParts.exists_operands {f : Formula} (row : s.HasParts members f.parts A) :
    ∃ operands B, (members.filterM fun h => (s.isLink h).map (!·)) = .ok operands ∧
      s.Selected members operands (f.operands.map .operand) A B := by
  rcases row.exists_filterM fun p _ h part => part.isOperand with ⟨operands, B, filtered, selected⟩
  rw [Formula.filter_not_isLink] at selected
  exact ⟨operands, B, filtered, selected⟩

end Rows

/-! ### Rings -/

section Rings

variable {head : Nat} {f : Formula}

theorem Shows.connectives (ring : s.Shows head f) : s.connectives head = .ok f.links := by
  rcases ring with ⟨rest, isRing, row⟩
  rcases row.exists_filterM fun p _ h part => part.isLink with ⟨links, filtered, row⟩
  rw [Formula.filter_isLink] at row
  have read := row.mapM (g := id) fun c _ h part => part.connective
  simp only [Store.connectives, walk_ring isRing, bind, Except.bind, filtered, read, List.map_id]

theorem Shows.junction? (ring : s.Shows head f) : s.junction? head = .ok f.junction? := by
  rw [Store.junction?, ring.connectives]
  cases f with
  | single x => rfl
  | chain x c rest => rfl

/-- Whether a node is a plain group that uses no other connective is seen from its operand. -/
theorem ShowsPart.isFlat {h : Nat} {x : Operand} (part : s.ShowsPart h (.operand x))
    (c : Connective) : s.isFlat h c = .ok (x.isFlat c) := by
  cases part with
  | symbol holds =>
      rcases holds.exists_node with ⟨⟨_, _, _, _⟩, found, rfl, rfl⟩
      simp only [Store.isFlat, found, bind, Except.bind]
      rfl
  | group holds isRing row =>
      have connectives := Shows.connectives ⟨_, isRing, row⟩
      rcases holds.exists_node with ⟨⟨_, negated, _, _⟩, found, rfl, rfl⟩
      cases negated with
      | false =>
          simp only [Store.isFlat, found, bind, Except.bind, connectives]
          rfl
      | true =>
          simp only [Store.isFlat, found, bind, Except.bind]
          rfl

/-! ### Written forms -/

/-- The ring of a formula is written as the formula is. -/
theorem Shows.charsTo {levels : Nat} (ring : s.Shows head f) (enough : f.depth ≤ levels) :
    s.charsTo levels head = .ok f.chars := by
  induction levels generalizing head f with
  | zero => exact absurd (Nat.le_trans f.one_le_depth enough) (Nat.not_succ_le_zero 0)
  | succ levels ih =>
      rcases ring with ⟨rest, isRing, row⟩
      have written : ∀ p ∈ f.parts, ∀ h, s.ShowsPart h p →
          s.nodeCharsWith (s.charsTo levels) h = .ok p.chars := by
        intro p isPart h part
        have enough := Formula.depth_le_succ_iff.1 enough p isPart
        cases part with
        | symbol holds | link holds =>
            rcases holds.exists_node with ⟨⟨_, _, _, _⟩, found, rfl, rfl⟩
            simp only [nodeCharsWith, found, bind, Except.bind]
            rfl
        | group holds isRing row =>
            rcases holds.exists_node with ⟨⟨_, _, _, _⟩, found, rfl, rfl⟩
            have inner := ih ⟨_, isRing, row⟩ enough
            simp only [nodeCharsWith, found, bind, Except.bind, inner]
            rfl
      rw [← List.map_id f.parts] at row
      have read := row.mapM (f := s.nodeCharsWith (s.charsTo levels)) written
      simp only [Store.charsTo, walk_ring isRing, bind, Except.bind, read]
      rw [← f.flatMap_chars]
      rfl

theorem Shows.text (ring : s.Shows head f) : s.text head = .ok f.text := by
  rw [Store.text, ring.charsTo (Nat.le_succ_of_le ring.depth_le_size)]
  rfl

theorem ShowsPart.key {h : Nat} {x : Operand} (part : s.ShowsPart h (.operand x)) :
    s.key h = .ok x.key := by
  cases part with
  | symbol holds =>
      rw [Store.key, holds.payload]
      rfl
  | group holds isRing row =>
      have text := Shows.text ⟨_, isRing, row⟩
      rw [Store.key, holds.payload]
      simp only [bind, Except.bind, text]
      rfl

/-! ### Formulas -/

theorem HasRing.formula {A : Set Nat} (ring : s.HasRing head f A) : s.formula head = .ok f :=
  ring.shows.formula

end Rings

end Ring.Store

end Entail
