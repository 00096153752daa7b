import Entail.Proofs.Formula.Parsed
import Entail.Proofs.Formula.Parser
import Entail.Proofs.Formula.Parts
import Entail.Proofs.Ring.Precedence
import Entail.Ring.Parser

/-!
# Assembling rings

The slots of a row are added one by one.  The rings that its back-references
hold lie in old nodes and are left alone, so that two of them may hold the same
ring.
-/

namespace Entail

open Entail.Ring

/-! ### Slots that hold rings -/

namespace Slot

/-- The slot with a function applied to the target of a back-reference. -/
def map {ρ σ : Type} (f : ρ → σ) : Slot ρ → Slot σ
  | symbol negated name => .symbol negated name
  | reference negated target => .reference negated (f target)

theorem negated_map {ρ σ : Type} (f : ρ → σ) (slot : Slot ρ) :
    (slot.map f).negated = slot.negated := by
  cases slot <;> rfl

/-- The nodes of the ring that a slot holds. -/
def handles : Slot RingLayout → List Nat
  | symbol _ _ => []
  | reference _ ring => ring.handles

/-- The operand that a slot becomes in the given node. -/
def layout (handle : Nat) : Slot RingLayout → OperandLayout
  | symbol negated name => .symbol handle negated name
  | reference negated ring => .group handle negated ring

/-- The ring that a slot holds lies in its nodes. -/
def Laid (s : Store) : Slot RingLayout → Prop
  | symbol _ _ => True
  | reference _ ring => ring.Laid s

variable {s s' : Store} {slot : Slot RingLayout}

theorem Laid.congr (laid : slot.Laid s) (node : ∀ h ∈ slot.handles, s'.node h = s.node h) :
    slot.Laid s' := by
  cases slot with
  | symbol => trivial
  | reference negated ring => exact RingLayout.Laid.congr laid node

@[simp]
theorem handle_layout (h : Nat) (slot : Slot RingLayout) : (slot.layout h).handle = h := by
  cases slot <;> rfl

@[simp]
theorem owned_layout (h : Nat) (slot : Slot RingLayout) :
    (slot.layout h).owned = slot.handles := by
  cases slot <;> rfl

theorem Laid.lt_size (laid : slot.Laid s) : ∀ h ∈ slot.handles, h < s.size := by
  cases slot with
  | symbol => exact List.forall_mem_nil _
  | reference => exact RingLayout.Laid.lt_size laid

theorem operand_layout (h : Nat) (slot : Slot RingLayout) :
    (slot.layout h).operand = (slot.map RingLayout.formula).operand := by
  cases slot <;> rfl

/-- A slot becomes an operand when its node is added. -/
theorem Laid.layout (laid : slot.Laid s) {h : Nat}
    (holds : s.Holds h (Builder.slotPayload (slot.map RingLayout.head)) slot.negated) :
    (slot.layout h).Laid s := by
  cases slot with
  | symbol => exact .symbol holds
  | reference => exact .group holds laid

end Slot

/-! ### Levels of rings -/

namespace Ring

mutual

theorem OperandLayout.depth_operand (x : OperandLayout) : x.operand.depth = x.depth := by
  cases x with
  | symbol => rfl
  | group _ _ content => exact content.depth_formula

/-- A layout has as many levels of rings as its formula has levels of rows. -/
theorem RingLayout.depth_formula (ring : RingLayout) : ring.formula.depth = ring.depth := by
  cases ring with
  | single x => exact congrArg Nat.succ x.depth_operand
  | pair left _ _ right =>
      simp only [RingLayout.formula, RingLayout.depth, Formula.pair, Formula.depth,
        left.depth_operand, right.depth_operand]
      omega

end

end Ring

/-- Every link of a row adds one level at most when the row is grouped. -/
theorem Grouped.depth_le {row : Row Operand} {f : Formula} (grouped : Grouped row f) {n : Nat}
    (operands : row.Forall fun x => x.depth ≤ n) : f.depth ≤ n + row.rest.length + 1 := by
  have inner (f : Formula) : f.toOperand.depth ≤ f.depth := by
    cases f with
    | single x => exact Nat.le_succ _
    | chain => exact Nat.le_refl _
  induction grouped with
  | single x => exact Nat.succ_le_succ operands.1
  | @split left right f g c _ _ _ _ ih ih' =>
      rcases Row.forall_append.1 operands with ⟨first, second⟩
      have deep := ih first
      have deep' := ih' second
      have inner₁ := inner f
      have inner₂ := inner g
      simp only [Formula.pair, Formula.depth, Row.append, List.length_append, List.length_cons]
      omega

namespace Ring

variable {base s s' : Store}

/-! ### Adding members -/

/-- Some members of a row have been added to `base`, made of the slots that have moved; the rings of
these and of the slots that wait lie in `base`. -/
structure Pending (base s : Store) (members : List Member) (moved slots : List (Slot RingLayout)) :
    Prop where
  ring : s.IsRing (members.map Member.handle)
  member : ∀ m ∈ members, m.Laid s
  slot : ∀ slot ∈ moved ++ slots, slot.Laid base
  adds : base.Adds s (members.map Member.handle)
  owned : members.flatMap Member.owned = moved.flatMap Slot.handles

namespace Pending

variable {first : Member} {members : List Member} {moved taken slots : List (Slot RingLayout)}

theorem isOld (pending : Pending base s members moved slots) :
    ∀ h ∈ moved.flatMap Slot.handles, h < base.size := by
  intro h isOwned
  rcases List.mem_flatMap.1 isOwned with ⟨slot, listed, isHandle⟩
  exact (pending.slot slot (List.mem_append_left _ listed)).lt_size h isHandle

/-- A push adds a member that owns the rings of the slots that it was made of. -/
theorem exists_push (pending : Pending base s (first :: members) moved (taken ++ slots))
    {m : Member} {payload : Payload} {negated : Bool} (handle : m.handle = s.size)
    (owned : m.owned = taken.flatMap Slot.handles)
    (laid : ∀ s' : Store, s'.Holds s.size payload negated → (∀ slot ∈ taken, slot.Laid s') →
      m.Laid s') :
    ∃ s', Builder.push first.handle payload negated s = .ok () s' ∧
      Pending base s' (first :: members ++ [m]) (moved ++ taken) slots := by
  rcases pending with ⟨ring, member, slot, adds, ownedBefore⟩
  rcases Builder.exists_push ring payload negated with ⟨s', pushed, ring', holds, grows⟩
  have oldNode : ∀ h, h < base.size → s'.node h = s.node h := by
    intro h old
    have inRange := Nat.lt_of_lt_of_le old adds.le
    apply grows.node h inRange
    rw [List.mem_append, List.mem_singleton]
    exact not_or.2 ⟨adds.not_mem old, Nat.ne_of_lt inRange⟩
  have adds' := adds.cons grows.size oldNode
  rw [← List.append_assoc] at slot
  have isOld : ∀ x ∈ moved ++ taken, ∀ h ∈ x.handles, h < base.size :=
    fun x listed => (slot x (List.mem_append_left _ listed)).lt_size
  have member' : ∀ x ∈ first :: members, x.Laid s' := by
    intro x listed
    have inRange := ring.lt_size _ (List.mem_map_of_mem listed)
    apply (member x listed).congr (grows.payload _ inRange) (grows.negated _ inRange)
    intro h isOwned
    have isOwned' := List.mem_flatMap.2 ⟨x, listed, isOwned⟩
    rw [ownedBefore] at isOwned'
    rcases List.mem_flatMap.1 isOwned' with ⟨slot, listed', isHandle⟩
    exact oldNode h (isOld slot (List.mem_append_left _ listed') h isHandle)
  have taken' : ∀ x ∈ taken, x.Laid s' := by
    intro x listed
    have listed' := List.mem_append_right moved listed
    exact (slot x (List.mem_append_left _ listed')).congr
      fun h isHandle => adds'.node h (isOld x listed' h isHandle)
  refine ⟨s', pushed, ?ring, ?member, slot, ?adds, ?owned⟩
  case ring => simpa [handle] using ring'
  case member =>
    rw [List.forall_mem_append, List.forall_mem_singleton]
    exact ⟨member', laid s' holds taken'⟩
  case adds =>
    apply adds'.perm
    simpa [handle] using List.perm_append_singleton s.size ((first :: members).map Member.handle)
  case owned => simp only [List.flatMap_append, List.flatMap_singleton, ownedBefore, owned]

/-- A connective is added. -/
theorem exists_push_link (pending : Pending base s (first :: members) moved slots)
    (c : Connective) :
    ∃ s', Builder.push first.handle (.link c) false s = .ok () s' ∧
      Pending base s' (first :: members ++ [.link s.size c]) moved slots := by
  have waiting : Pending base s (first :: members) moved ([] ++ slots) := pending
  have pushed := waiting.exists_push (m := .link s.size c) rfl rfl fun _ holds _ => .link holds
  rwa [List.append_nil] at pushed

/-- An operand is added. -/
theorem exists_push_operand {x : Slot RingLayout}
    (pending : Pending base s (first :: members) moved (x :: slots)) :
    ∃ s', Builder.push first.handle (Builder.slotPayload (x.map RingLayout.head)) x.negated s =
        .ok () s' ∧
      Pending base s' (first :: members ++ [.operand (x.layout s.size)]) (moved ++ [x]) slots := by
  have waiting : Pending base s (first :: members) moved ([x] ++ slots) := pending
  apply waiting.exists_push
  · exact x.handle_layout s.size
  · simp [Member.owned]
  · intro s' holds laid
    exact .operand ((laid x List.mem_cons_self).layout holds)

/-- The links of a row are added one by one. -/
theorem exists_addLinks {rest : List (Connective × Slot RingLayout)}
    (pending : Pending base s (first :: members) moved (rest.map Prod.snd)) :
    ∃ (s' : Store) (links : List LinkLayout),
      (rest.map fun pair => (pair.1, pair.2.map RingLayout.head)).forM
          (Builder.addLink first.handle) s = .ok () s' ∧
        Pending base s' (first :: members ++ RowLayout.tail links) (moved ++ rest.map Prod.snd)
          [] ∧
        (links.map fun link => (link.connective, link.operand.operand)) =
          rest.map fun pair => (pair.1, (pair.2.map RingLayout.formula).operand) := by
  induction rest generalizing members moved s with
  | nil =>
      have pending' : Pending base s (first :: members ++ RowLayout.tail [])
          (moved ++ ([] : List (Connective × Slot RingLayout)).map Prod.snd) [] := by
        simpa [RowLayout.tail] using pending
      exact ⟨s, [], rfl, pending', rfl⟩
  | cons pair rest ih =>
      rcases pair with ⟨c, x⟩
      rcases exists_push_link pending c with ⟨s₁, pushed, pending₁⟩
      rcases exists_push_operand pending₁ with ⟨s₂, pushed', pending₂⟩
      rcases ih pending₂ with ⟨s', links, ran, pending', operands⟩
      have added : Builder.addLink first.handle (c, x.map RingLayout.head) s = .ok () s₂ := by
        rw [Builder.addLink, Builder.bind_of_ok pushed, x.negated_map]
        exact pushed'
      exists s', ⟨s.size, c, x.layout s₁.size⟩ :: links
      constructor
      · exact (Builder.bind_of_ok added _).trans ran
      · constructor
        · rw [RowLayout.tail_cons]
          simpa using pending'
        · rw [List.map_cons, List.map_cons, operands, x.operand_layout]

end Pending

end Ring

/-! ### Rows of slots -/

/-- The elements of a row. -/
def Row.elements {α : Type} (row : Row α) : List α :=
  row.first :: row.rest.map Prod.snd

theorem Row.elements_map {α β : Type} (f : α → β) (row : Row α) :
    (row.map f).elements = row.elements.map f := by
  simp [elements, map]

theorem Row.forall_elements {α : Type} {P : α → Prop} {row : Row α} :
    row.Forall P ↔ ∀ x ∈ row.elements, P x := by
  rw [Forall, elements, List.forall_mem_cons, List.forall_mem_map]

namespace Ring

variable {base s s' : Store} {row : Row (Slot RingLayout)}

theorem Pending.ofFirst (laid : ∀ slot ∈ row.elements, slot.Laid s) :
    Pending s (s.add (Builder.slotPayload (row.first.map RingLayout.head)) row.first.negated)
      [.operand (row.first.layout s.size)] [row.first] (row.rest.map Prod.snd) := by
  have oldNode {h : Nat} (old : h < s.size) :
      (s.add (Builder.slotPayload (row.first.map RingLayout.head)) row.first.negated).node h =
        s.node h :=
    s.node_add_of_lt _ _ old
  have first := laid row.first List.mem_cons_self
  constructor
  case ring => simpa [Member.handle] using s.isRing_add _ _
  case member =>
    have kept := first.congr fun h isHandle => oldNode (first.lt_size h isHandle)
    exact List.forall_mem_singleton.2 (.operand (kept.layout (s.holds_add _ _)))
  case slot => exact laid
  case adds =>
    simpa [Member.handle] using (Store.Adds.nil s).cons (s.size_add _ _) fun h => oldNode
  case owned => simp [Member.owned]

theorem RowLayout.operand_mem_elements {row : RowLayout} {x : OperandLayout}
    (isMember : .operand x ∈ row.members) : x.operand ∈ row.row.elements := by
  rcases row with ⟨first, rest⟩
  rcases List.mem_cons.1 isMember with same | isMember
  · cases same
    exact List.mem_cons_self
  · rcases List.mem_flatMap.1 isMember with ⟨link, listed, isPart⟩
    have isOperand : x = link.operand := by simpa using isPart
    rw [isOperand]
    refine List.mem_cons_of_mem _ ?_
    simp only [RowLayout.row, List.map_map]
    exact List.mem_map.2 ⟨link, listed, rfl⟩

theorem RowLayout.length_members (row : RowLayout) :
    row.members.length = 2 * row.rest.length + 1 := by
  simp [members, tail, List.length_flatMap, Nat.mul_comm]

/-- Adding a row makes a ring of its operands and connectives. -/
theorem Builder.exists_addRow (laid : ∀ slot ∈ row.elements, slot.Laid s) :
    ∃ (s' : Store) (added : RowLayout),
      addRow (row.map (Slot.map RingLayout.head)) s = .ok added.head s' ∧
        added.Built s s' (row.elements.flatMap Slot.handles) ∧
        s'.size = s.size + added.members.length ∧
        added.row = (row.map (Slot.map RingLayout.formula)).map Slot.operand := by
  rcases (Pending.ofFirst laid).exists_addLinks with ⟨s', links, ran, pending, operands⟩
  rw [Member.handle, Slot.handle_layout] at ran
  let added : RowLayout := ⟨row.first.layout s.size, links⟩
  have ran' : addRow (row.map (Slot.map RingLayout.head)) s = .ok added.head s' := by
    rw [addRow, bind_of_ok (add_eq _ _), Row.map, row.first.negated_map, bind_of_ok ran,
      RowLayout.head, Slot.handle_layout]
    rfl
  have operands' : added.row = (row.map (Slot.map RingLayout.formula)).map Slot.operand := by
    simp only [added, RowLayout.row, operands, Slot.operand_layout, Row.map, List.map_map]
    rfl
  have adds : s.Adds s' (added.members.map Member.handle) := pending.adds
  have handles : added.handles =
      added.members.map Member.handle ++ row.elements.flatMap Slot.handles :=
    congrArg _ pending.owned
  have isNew : ∀ m ∈ added.members, s.size ≤ m.handle :=
    fun m listed => ((adds.mem_iff _).1 (List.mem_map_of_mem listed)).1
  refine ⟨s', added, ran', ⟨⟨pending.ring, pending.member⟩, ?_, isNew, pending.isOld⟩, ?_,
    operands'⟩
  · exact ⟨added.members.map Member.handle, adds, handles ▸ .refl _⟩
  · rw [adds.size_eq, List.length_map]

/-- Assembling a row of slots makes a ring of the formula that the row is grouped to.  The members
of the ring are new; the rings that the slots hold stay where they are. -/
theorem Builder.exists_assemble {references : List Nat} {text : List Char}
    (read : Row.ofText references text = .ok (row.map (Slot.map RingLayout.head)))
    (laid : ∀ slot ∈ row.elements, slot.Laid s)
    (shallow : ((row.map (Slot.map RingLayout.formula)).map Slot.operand).Forall fun x =>
      x.depth ≤ s.size) :
    ∃ (s' : Store) (ring : RingLayout) (new : List Nat),
      assemble references text s = .ok ring.head s' ∧ ring.Laid s' ∧ s.Adds s' new ∧
        ring.handles.Perm (new ++ row.elements.flatMap Slot.handles) ∧ ring.depth ≤ s'.size ∧
        ring.formula = ((row.map (Slot.map RingLayout.formula)).map Slot.operand).byPrecedence := by
  rcases exists_addRow laid with ⟨s₁, added, ran, built, size, operands⟩
  rw [← operands] at shallow ⊢
  have shallow' : ∀ x, .operand x ∈ added.members → x.depth ≤ s₁.size := by
    intro x isMember
    rw [← x.depth_operand]
    have deep := Row.forall_elements.1 shallow _ (RowLayout.operand_mem_elements isMember)
    omega
  rcases built.exists_applyPrecedence shallow' with
    ⟨s', ring, new, ran', laid', adds, perm, grown, formula⟩
  have assembled : assemble references text s = .ok ring.head s' := by
    rw [assemble, bind_of_ok (read_of_ok read), bind_of_ok ran, bind_of_ok get_eq]
    exact ran'
  have deep : ring.depth ≤ s'.size := by
    have grouped := added.row.grouped_byPrecedence.depth_le shallow
    rw [← formula, ring.depth_formula, added.length_rest_row] at grouped
    rw [added.length_members] at size
    omega
  exact ⟨s', ring, new, assembled, laid', adds, perm, deep, formula⟩

/-- If the rings that the slots hold share no nodes, neither do those of the new ring. -/
theorem Builder.exists_assemble_of_adds {references : List Nat} {text : List Char}
    (read : Row.ofText references text = .ok (row.map (Slot.map RingLayout.head)))
    (laid : ∀ slot ∈ row.elements, slot.Laid s)
    (adds : base.Adds s (row.elements.flatMap Slot.handles)) :
    ∃ (s' : Store) (ring : RingLayout),
      assemble references text s = .ok ring.head s' ∧ ring.Laid s' ∧
        base.Adds s' ring.handles ∧
        ring.formula = ((row.map (Slot.map RingLayout.formula)).map Slot.operand).byPrecedence := by
  have shallow : ((row.map (Slot.map RingLayout.formula)).map Slot.operand).Forall fun x =>
      x.depth ≤ s.size := by
    rw [Row.forall_elements, Row.elements_map, Row.elements_map, List.map_map]
    refine List.forall_mem_map.2 fun slot listed => ?_
    cases slot with
    | symbol => exact Nat.zero_le _
    | reference negated ring =>
        have distinct := (List.nodup_flatMap.1 adds.distinct).1 _ listed
        have deep := RingLayout.Laid.depth_le_size (laid _ listed) distinct
        rwa [← ring.depth_formula] at deep
  rcases exists_assemble read laid shallow with
    ⟨s', ring, new, assembled, laid', adds', perm, _, formula⟩
  exact ⟨s', ring, assembled, laid', (adds.append adds').perm (perm.trans List.perm_append_comm),
    formula⟩

end Ring

end Entail
