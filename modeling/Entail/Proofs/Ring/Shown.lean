import Entail.Proofs.Ring.Reach
import Entail.Proofs.Ring.Region
import Entail.Ring.Reading

/-!
# Formulas that a store shows

A ring shows a formula if its members hold the parts of the formula in turn;
groups may own one ring together, so that nodes are reached on several ways.
What a node shows is determined, and does not change while no old node does.
-/

namespace Entail.Ring

namespace Store

mutual

/-- The node shows the part of a row. -/
inductive ShowsPart (s : Store) : Nat → Part → Prop
  | symbol {h : Nat} {negated : Bool} {name : String} : s.Holds h (.symbol name) negated →
      ShowsPart s h (.operand (.symbol negated name))
  | link {h : Nat} {c : Connective} : s.Holds h (.link c) false → ShowsPart s h (.link c)
  | group {h head : Nat} {negated : Bool} {rest : List Nat} {content : Formula} :
      s.Holds h (.group head) negated → s.IsRing (head :: rest) →
      ShowsParts s (head :: rest) content.parts →
      ShowsPart s h (.operand (.group negated content))

/-- The nodes show the parts of a row. -/
inductive ShowsParts (s : Store) : List Nat → List Part → Prop
  | nil : ShowsParts s [] []
  | cons {h : Nat} {p : Part} {members : List Nat} {parts : List Part} :
      ShowsPart s h p → ShowsParts s members parts → ShowsParts s (h :: members) (p :: parts)

end

/-- The ring of the given head shows the parts. -/
def ShowsRow (s : Store) (head : Nat) (parts : List Part) : Prop :=
  ∃ rest, s.IsRing (head :: rest) ∧ s.ShowsParts (head :: rest) parts

/-- The ring of the given head shows the formula. -/
abbrev Shows (s : Store) (head : Nat) (f : Formula) : Prop :=
  s.ShowsRow head f.parts

variable {s s' : Store}

/-! ### Regions show what they hold -/

mutual

theorem HasPart.shows {h : Nat} {p : Part} {A : Set Nat} (part : s.HasPart h p A) :
    s.ShowsPart h p := by
  match part with
  | .symbol holds => exact .symbol holds
  | .link holds => exact .link holds
  | .group holds isRing row _ => exact .group holds isRing row.shows

theorem HasParts.shows {members : List Nat} {parts : List Part} {A : Set Nat}
    (row : s.HasParts members parts A) : s.ShowsParts members parts := by
  match row with
  | .nil => exact .nil
  | .cons part row _ => exact .cons part.shows row.shows

end

theorem HasRow.shows {head : Nat} {parts : List Part} {A : Set Nat}
    (row : s.HasRow head parts A) : s.ShowsRow head parts :=
  let ⟨rest, isRing, row⟩ := row
  ⟨rest, isRing, row.shows⟩

theorem HasRing.shows {head : Nat} {f : Formula} {A : Set Nat} (ring : s.HasRing head f A) :
    s.Shows head f :=
  HasRow.shows ring

/-! ### What keeps a formula in sight -/

theorem ShowsPart.lt_size {h : Nat} {p : Part} (part : s.ShowsPart h p) : h < s.size := by
  cases part with
  | symbol holds | link holds | group holds => exact holds.lt_size

theorem ShowsParts.lt_size {members : List Nat} {parts : List Part}
    (row : s.ShowsParts members parts) : ∀ m ∈ members, m < s.size := by
  match row with
  | .nil => exact List.forall_mem_nil _
  | .cons part row => exact List.forall_mem_cons.2 ⟨part.lt_size, row.lt_size⟩

mutual

/-- A part is shown as long as no old node changes that is reached from its node. -/
theorem ShowsPart.congr_of_reaches {h : Nat} {p : Part} (part : s.ShowsPart h p)
    (node : ∀ k < s.size, s.Reaches h k → s'.node k = s.node k) : s'.ShowsPart h p := by
  match part with
  | .symbol holds => exact .symbol (holds.congr_node (node _ holds.lt_size .refl))
  | .link holds => exact .link (holds.congr_node (node _ holds.lt_size .refl))
  | .group holds isRing row =>
      have inner := Reaches.of_group holds.payload isRing
      exact .group (holds.congr_node (node _ holds.lt_size .refl))
        (isRing.congr fun k isMember => node k (row.lt_size k isMember) (inner k isMember))
        (row.congr_of_reaches fun m isMember k old reaches =>
          node k old ((inner m isMember).trans reaches))

/-- A row is shown as long as no old node changes that is reached from its members. -/
theorem ShowsParts.congr_of_reaches {members : List Nat} {parts : List Part}
    (row : s.ShowsParts members parts)
    (node : ∀ m ∈ members, ∀ k < s.size, s.Reaches m k → s'.node k = s.node k) :
    s'.ShowsParts members parts := by
  match row with
  | .nil => exact .nil
  | .cons part row =>
      rcases List.forall_mem_cons.1 node with ⟨first, rest⟩
      exact .cons (part.congr_of_reaches first) (row.congr_of_reaches rest)

end

/-- What a ring shows is shown as long as no old node changes that is reached from its head. -/
theorem ShowsRow.congr_of_reaches {head : Nat} {parts : List Part} (row : s.ShowsRow head parts)
    (node : ∀ k < s.size, s.Reaches head k → s'.node k = s.node k) : s'.ShowsRow head parts := by
  rcases row with ⟨rest, isRing, row⟩
  have members := isRing.reaches
  exact ⟨rest, isRing.congr fun k isMember => node k (row.lt_size k isMember) (members k isMember),
    row.congr_of_reaches fun m isMember k old reaches =>
      node k old ((members m isMember).trans reaches)⟩

/-- A part is shown as long as no old node changes. -/
theorem ShowsPart.congr {h : Nat} {p : Part} (part : s.ShowsPart h p)
    (node : ∀ k < s.size, s'.node k = s.node k) : s'.ShowsPart h p :=
  part.congr_of_reaches fun k old _ => node k old

/-- A row is shown as long as no old node changes. -/
theorem ShowsParts.congr {members : List Nat} {parts : List Part}
    (row : s.ShowsParts members parts) (node : ∀ k < s.size, s'.node k = s.node k) :
    s'.ShowsParts members parts :=
  row.congr_of_reaches fun _ _ k old _ => node k old

/-- What a ring shows is shown as long as no old node changes. -/
theorem ShowsRow.congr {head : Nat} {parts : List Part} (row : s.ShowsRow head parts)
    (node : ∀ k < s.size, s'.node k = s.node k) : s'.ShowsRow head parts :=
  row.congr_of_reaches fun k old _ => node k old

/-- Of the nodes that there were, none has changed. -/
theorem Evolves.keeps {B : Set Nat} (evolves : s.Evolves s' ∅ B) :
    ∀ k < s.size, s'.node k = s.node k :=
  fun k old => evolves.node k old id

/-! ### What a node shows is determined -/

mutual

theorem ShowsPart.unique {h : Nat} {p q : Part} (part : s.ShowsPart h p)
    (other : s.ShowsPart h q) : p = q := by
  match part with
  | .symbol holds =>
      cases other with
      | symbol holds' =>
          cases holds.payload.symm.trans holds'.payload
          cases holds.negated.symm.trans holds'.negated
          rfl
      | link holds' | group holds' => cases holds.payload.symm.trans holds'.payload
  | .link holds =>
      cases other with
      | link holds' =>
          cases holds.payload.symm.trans holds'.payload
          rfl
      | symbol holds' | group holds' => cases holds.payload.symm.trans holds'.payload
  | .group holds isRing row =>
      cases other with
      | symbol holds' | link holds' => cases holds.payload.symm.trans holds'.payload
      | group holds' isRing' row' =>
          cases holds.payload.symm.trans holds'.payload
          cases holds.negated.symm.trans holds'.negated
          cases (walk_ring isRing).symm.trans (walk_ring isRing')
          rw [Formula.parts_injective (row.unique row')]

theorem ShowsParts.unique {members : List Nat} {parts parts' : List Part}
    (row : s.ShowsParts members parts) (other : s.ShowsParts members parts') :
    parts = parts' := by
  match row with
  | .nil =>
      cases other
      rfl
  | .cons part row =>
      cases other with
      | cons part' row' => rw [part.unique part', row.unique row']

end

/-! ### Levels of rows -/

theorem ShowsParts.exists_node {members : List Nat} {parts : List Part}
    (row : s.ShowsParts members parts) : ∀ p ∈ parts, ∃ h, s.ShowsPart h p := by
  match row with
  | .nil => exact List.forall_mem_nil _
  | .cons part row => exact List.forall_mem_cons.2 ⟨⟨_, part⟩, row.exists_node⟩

theorem ShowsParts.exists_part {members : List Nat} {parts : List Part}
    (row : s.ShowsParts members parts) : ∀ m ∈ members, ∃ p ∈ parts, s.ShowsPart m p := by
  match row with
  | .nil => exact List.forall_mem_nil _
  | .cons part row =>
      refine List.forall_mem_cons.2 ⟨⟨_, List.mem_cons_self, part⟩, fun m isMember => ?_⟩
      rcases row.exists_part m isMember with ⟨p, isPart, part⟩
      exact ⟨p, List.mem_cons_of_mem _ isPart, part⟩

/-- There is a node for each level of rows in what a node shows: the parts that they show differ in
their levels, so that the nodes differ. -/
theorem ShowsPart.exists_handles {n h : Nat} {p : Part} (part : s.ShowsPart h p)
    (deep : p.depth = n) : ∃ handles : List Nat, handles.Nodup ∧ handles.length = n + 1 ∧
      ∀ k ∈ handles, ∃ q : Part, s.ShowsPart k q ∧ q.depth ≤ n := by
  induction n generalizing h p with
  | zero => exact ⟨[h], List.nodup_singleton h, rfl, by simpa using ⟨p, part, deep⟩⟩
  | succ n ih =>
      have inner : ∃ k q, s.ShowsPart k q ∧ q.depth = n := by
        cases part with
        | symbol | link => cases deep
        | @group _ _ _ _ content _ _ row =>
            have deep : content.depth = n + 1 := deep
            by_contra none
            have shallow : ∀ q ∈ content.parts, q.depth < n := by
              intro q isPart
              rcases row.exists_node q isPart with ⟨k, shown⟩
              have enough := Formula.depth_le_succ_iff.1 (Nat.le_of_eq deep) q isPart
              exact Nat.lt_of_le_of_ne enough fun same => none ⟨k, q, shown, same⟩
            have := Formula.depth_le_of_forall_lt shallow
            omega
      rcases inner with ⟨k, q, shown, deep'⟩
      rcases ih shown deep' with ⟨handles, distinct, length, shallow⟩
      refine ⟨h :: handles, List.nodup_cons.2 ⟨fun listed => ?_, distinct⟩, by simp [length], ?_⟩
      · rcases shallow h listed with ⟨q, shown, enough⟩
        rw [part.unique shown] at deep
        omega
      · refine List.forall_mem_cons.2 ⟨⟨p, part, Nat.le_of_eq deep⟩, fun k listed => ?_⟩
        rcases shallow k listed with ⟨q, shown, enough⟩
        exact ⟨q, shown, Nat.le_succ_of_le enough⟩

theorem ShowsPart.depth_lt_size {h : Nat} {p : Part} (part : s.ShowsPart h p) :
    p.depth < s.size := by
  rcases part.exists_handles rfl with ⟨handles, distinct, length, shown⟩
  have few := length_le_size distinct fun k listed =>
    let ⟨_, part, _⟩ := shown k listed
    part.lt_size
  omega

/-- There are fewer levels of rows in a formula than nodes in the store that shows it. -/
theorem Shows.depth_le_size {head : Nat} {f : Formula} (ring : s.Shows head f) :
    f.depth ≤ s.size := by
  rcases ring with ⟨rest, isRing, row⟩
  refine Formula.depth_le_of_forall_lt fun p isPart => ?_
  rcases row.exists_node p isPart with ⟨h, part⟩
  exact part.depth_lt_size

/-! ### Reading formulas -/

theorem ShowsPart.connective {h : Nat} {c : Connective} (part : s.ShowsPart h (.link c)) :
    s.connective h = .ok c := by
  cases part with
  | link holds => exact holds.connective

theorem ShowsParts.exists_pairsWith {inner : Nat → Except Error Formula} {h : Nat}
    {rest : List Nat} {f : Formula} (row : s.ShowsParts (h :: rest) f.parts)
    (each : ∀ x ∈ f.operands, ∀ k, s.ShowsPart k (.operand x) → s.operandWith inner k = .ok x) :
    ∃ first pairs, s.operandWith inner h = .ok first ∧ s.pairsWith inner rest = .ok pairs ∧
      .ofPairs first pairs = f := by
  match f with
  | .single x =>
      rcases row with _ | ⟨part, row⟩
      rcases row
      exact ⟨x, [], each x List.mem_cons_self _ part, rfl, rfl⟩
  | .chain x c f =>
      rcases List.forall_mem_cons.1 each with ⟨first, restEach⟩
      rcases row with _ | ⟨part, _ | ⟨link, row⟩⟩
      rcases List.exists_cons_of_ne_nil f.parts_ne_nil with ⟨p, parts, split⟩
      have whole := row
      rw [split] at row
      cases row with
      | cons =>
          rcases whole.exists_pairsWith restEach with ⟨y, pairs, read, readRest, same⟩
          refine ⟨x, (c, y) :: pairs, first _ part, ?_, ?_⟩
          · simp only [pairsWith, link.connective, read, readRest, bind, Except.bind]
            rfl
          · rw [Formula.ofPairs, same]

/-- The ring that shows a formula is read as the formula. -/
theorem Shows.formulaTo {levels head : Nat} {f : Formula} (ring : s.Shows head f)
    (enough : f.depth ≤ levels) : s.formulaTo levels head = .ok f := by
  induction levels generalizing head f with
  | zero => exact absurd (Nat.le_trans f.one_le_depth enough) (Nat.not_succ_le_zero 0)
  | succ levels ih =>
      rcases ring with ⟨rest, isRing, row⟩
      have each : ∀ x ∈ f.operands, ∀ h, s.ShowsPart h (.operand x) →
          s.operandWith (s.formulaTo levels) h = .ok x := by
        intro x isOperand h part
        have enough := Formula.depth_le_succ_iff.1 enough _ (Formula.operand_mem_parts.2 isOperand)
        cases part with
        | symbol holds =>
            rcases holds.exists_node with ⟨⟨_, _, _, _⟩, found, rfl, rfl⟩
            simp only [operandWith, found, bind, Except.bind]
            rfl
        | group holds isRing row =>
            rcases holds.exists_node with ⟨⟨_, _, _, _⟩, found, rfl, rfl⟩
            have inner := ih ⟨_, isRing, row⟩ enough
            simp only [operandWith, found, bind, Except.bind, inner]
            rfl
      rcases row.exists_pairsWith each with ⟨first, pairs, read, readRest, same⟩
      simp only [Store.formulaTo, walk_ring isRing, bind, Except.bind, read, readRest,
        List.tail_cons, ← same]
      rfl

theorem Shows.formula {head : Nat} {f : Formula} (ring : s.Shows head f) :
    s.formula head = .ok f :=
  ring.formulaTo (Nat.le_succ_of_le ring.depth_le_size)

end Store

/-! ### Layouts -/

variable {s : Store}

mutual

theorem OperandLayout.Laid.shows {x : OperandLayout} (laid : x.Laid s) :
    s.ShowsPart x.handle (.operand x.operand) := by
  cases laid with
  | symbol holds => exact .symbol holds
  | group holds laid =>
      rcases laid.shows with ⟨rest, isRing, row⟩
      exact .group holds isRing row

/-- A formula that is laid out is shown. -/
theorem RingLayout.Laid.shows {ring : RingLayout} (laid : ring.Laid s) :
    s.Shows ring.head ring.formula := by
  cases laid with
  | single isRing laid => exact ⟨[], isRing, .cons laid.shows .nil⟩
  | pair isRing laid holds laid' =>
      exact ⟨_, isRing, .cons laid.shows (.cons (.link holds) (.cons laid'.shows .nil))⟩

end

theorem RingLayout.Laid.formula {ring : RingLayout} (laid : ring.Laid s) :
    s.formula ring.head = .ok ring.formula :=
  laid.shows.formula

end Entail.Ring
