import Entail.Proofs.Ring.Links
import Entail.Ring.Walk

/-!
# Layouts of formulas

A layout tells in which nodes of a store a formula lies: each ring consists of
one operand node, or of two with a connective node between them, and a group
node owns the ring below it.
-/

namespace Entail.Ring

mutual

/-- An operand and the node that holds it. -/
inductive OperandLayout
  | symbol (handle : Nat) (negated : Bool) (name : String)
  | group (handle : Nat) (negated : Bool) (content : RingLayout)

/-- The operands of a ring, and the node of their connective if there are two. -/
inductive RingLayout
  | single (operand : OperandLayout)
  | pair (left : OperandLayout) (handle : Nat) (link : Connective) (right : OperandLayout)

end

/-- The node of an operand. -/
def OperandLayout.handle : OperandLayout → Nat
  | .symbol handle _ _ => handle
  | .group handle _ _ => handle

namespace RingLayout

/-- The first member of a ring. -/
def head : RingLayout → Nat
  | single x => x.handle
  | pair left _ _ _ => left.handle

/-- The members of a ring. -/
def members : RingLayout → List Nat
  | single x => [x.handle]
  | pair left handle _ right => [left.handle, handle, right.handle]

end RingLayout

mutual

/-- The nodes that an operand owns through its own node. -/
def OperandLayout.owned : OperandLayout → List Nat
  | .symbol _ _ _ => []
  | .group _ _ content => content.handles

/-- The members of a ring and the nodes that they own. -/
def RingLayout.handles : RingLayout → List Nat
  | .single x => x.handle :: x.owned
  | .pair left handle _ right =>
    left.handle :: left.owned ++ handle :: right.handle :: right.owned

end

mutual

/-- The operand that is laid out. -/
def OperandLayout.operand : OperandLayout → Operand
  | .symbol _ negated name => .symbol negated name
  | .group _ negated content => .group negated content.formula

/-- The formula that is laid out. -/
def RingLayout.formula : RingLayout → Formula
  | .single x => .single x.operand
  | .pair left _ link right => .pair left.operand link right.operand

end

mutual

/-- The levels of rings below an operand. -/
def OperandLayout.depth : OperandLayout → Nat
  | .symbol _ _ _ => 0
  | .group _ _ content => content.depth

/-- The levels of rings of a formula. -/
def RingLayout.depth : RingLayout → Nat
  | .single x => x.depth + 1
  | .pair left _ _ right => max left.depth right.depth + 1

end

/-- What a node holds besides its links. -/
structure Store.Holds (s : Store) (h : Nat) (payload : Payload) (negated : Bool) : Prop where
  payload : s.payload h = .ok payload
  negated : s.negated h = .ok negated

mutual

/-- An operand lies in its nodes. -/
inductive OperandLayout.Laid (s : Store) : OperandLayout → Prop
  | symbol {h : Nat} {negated : Bool} {name : String} : s.Holds h (.symbol name) negated →
      OperandLayout.Laid s (.symbol h negated name)
  | group {h : Nat} {negated : Bool} {content : RingLayout} :
      s.Holds h (.group content.head) negated → RingLayout.Laid s content →
      OperandLayout.Laid s (.group h negated content)

/-- A formula lies in its nodes. -/
inductive RingLayout.Laid (s : Store) : RingLayout → Prop
  | single {x : OperandLayout} : s.IsRing [x.handle] → OperandLayout.Laid s x →
      RingLayout.Laid s (.single x)
  | pair {left right : OperandLayout} {h : Nat} {c : Connective} :
      s.IsRing [left.handle, h, right.handle] → OperandLayout.Laid s left →
      s.Holds h (.link c) false → OperandLayout.Laid s right →
      RingLayout.Laid s (.pair left h c right)

end

/-! ### Nodes of a layout -/

variable {s s' : Store}

theorem Store.Holds.congr {h : Nat} {p : Payload} {negated : Bool}
    (holds : s.Holds h p negated) (payloadKept : s'.payload h = s.payload h)
    (negatedKept : s'.negated h = s.negated h) : s'.Holds h p negated :=
  ⟨payloadKept.trans holds.payload, negatedKept.trans holds.negated⟩

theorem Store.Holds.congr_node {h : Nat} {p : Payload} {negated : Bool}
    (holds : s.Holds h p negated) (same : s'.node h = s.node h) : s'.Holds h p negated := by
  apply holds.congr
  · rw [Store.payload, Store.payload, same]
  · rw [Store.negated, Store.negated, same]

theorem Store.Holds.exists_node {h : Nat} {p : Payload} {negated : Bool}
    (holds : s.Holds h p negated) :
    ∃ n, s.node h = .ok n ∧ n.payload = p ∧ n.negated = negated := by
  rcases holds with ⟨payload, negated⟩
  cases found : s.node h with
  | error e =>
      rw [Store.payload, found] at payload
      contradiction
  | ok n =>
      rw [Store.payload, found] at payload
      rw [Store.negated, found] at negated
      exact ⟨n, rfl, Except.ok.inj payload, Except.ok.inj negated⟩

theorem Store.Holds.lt_size {h : Nat} {p : Payload} {negated : Bool}
    (holds : s.Holds h p negated) : h < s.size := by
  rcases holds.exists_node with ⟨n, found, _⟩
  exact Store.lt_size_of_node found

theorem Store.Holds.connective {h : Nat} {c : Connective} {negated : Bool}
    (holds : s.Holds h (.link c) negated) : s.connective h = .ok c := by
  rw [Store.connective, holds.payload]
  rfl

theorem OperandLayout.Laid.lt_size_handle {x : OperandLayout} (laid : x.Laid s) :
    x.handle < s.size := by
  cases laid with
  | symbol holds => exact holds.lt_size
  | group holds _ => exact holds.lt_size

theorem OperandLayout.Laid.isLink {x : OperandLayout} (laid : x.Laid s) :
    s.isLink x.handle = .ok false := by
  cases laid with
  | symbol holds =>
      rw [Store.isLink, OperandLayout.handle, holds.payload]
      rfl
  | group holds _ =>
      rw [Store.isLink, OperandLayout.handle, holds.payload]
      rfl

mutual

theorem OperandLayout.Laid.lt_size_owned {x : OperandLayout} (laid : x.Laid s) :
    ∀ h ∈ x.owned, h < s.size := by
  cases laid with
  | symbol _ => exact fun h listed => nomatch listed
  | group _ laid => exact laid.lt_size

theorem RingLayout.Laid.lt_size {ring : RingLayout} (laid : ring.Laid s) :
    ∀ h ∈ ring.handles, h < s.size := by
  cases laid with
  | single _ laid => exact List.forall_mem_cons.2 ⟨laid.lt_size_handle, laid.lt_size_owned⟩
  | @pair left right _ _ _ laid holds laid' =>
      have first : ∀ h ∈ left.handle :: left.owned, h < s.size :=
        List.forall_mem_cons.2 ⟨laid.lt_size_handle, laid.lt_size_owned⟩
      have second : ∀ h ∈ right.handle :: right.owned, h < s.size :=
        List.forall_mem_cons.2 ⟨laid'.lt_size_handle, laid'.lt_size_owned⟩
      exact List.forall_mem_append.2 ⟨first, List.forall_mem_cons.2 ⟨holds.lt_size, second⟩⟩

end

mutual

/-- An operand stays laid out while what its node holds and the nodes that it owns do not change. -/
theorem OperandLayout.Laid.congr {x : OperandLayout} (laid : x.Laid s)
    (payload : s'.payload x.handle = s.payload x.handle)
    (negated : s'.negated x.handle = s.negated x.handle)
    (owned : ∀ h ∈ x.owned, s'.node h = s.node h) : x.Laid s' := by
  cases laid with
  | symbol holds => exact .symbol (holds.congr payload negated)
  | group holds laid => exact .group (holds.congr payload negated) (laid.congr owned)

/-- A formula stays laid out while its nodes do not change. -/
theorem RingLayout.Laid.congr {ring : RingLayout} (laid : ring.Laid s)
    (node : ∀ h ∈ ring.handles, s'.node h = s.node h) : ring.Laid s' := by
  have payload {h : Nat} (listed : h ∈ ring.handles) : s'.payload h = s.payload h := by
    rw [Store.payload, Store.payload, node h listed]
  have negated {h : Nat} (listed : h ∈ ring.handles) : s'.negated h = s.negated h := by
    rw [Store.negated, Store.negated, node h listed]
  cases laid with
  | @single x isRing laid =>
      have atHead : x.handle ∈ (RingLayout.single x).handles := List.mem_cons_self
      constructor
      · apply isRing.congr
        intro h listed
        rcases List.mem_singleton.1 listed with rfl
        exact node _ atHead
      · apply laid.congr (payload atHead) (negated atHead)
        exact fun h listed => node h (List.mem_cons_of_mem _ listed)
  | @pair left right h c isRing laid holds laid' =>
      have atLeft : left.handle ∈ (RingLayout.pair left h c right).handles := List.mem_cons_self
      have atLink : h ∈ (RingLayout.pair left h c right).handles :=
        List.mem_append_right _ List.mem_cons_self
      have atRight : right.handle ∈ (RingLayout.pair left h c right).handles :=
        List.mem_append_right _ (List.mem_cons_of_mem _ List.mem_cons_self)
      constructor
      · apply isRing.congr
        intro x listed
        simp only [List.mem_cons, List.not_mem_nil, or_false] at listed
        rcases listed with rfl | rfl | rfl
        · exact node _ atLeft
        · exact node _ atLink
        · exact node _ atRight
      · apply laid.congr (payload atLeft) (negated atLeft)
        exact fun x listed => node x (List.mem_append_left _ (List.mem_cons_of_mem _ listed))
      · exact holds.congr (payload atLink) (negated atLink)
      · apply laid'.congr (payload atRight) (negated atRight)
        exact fun x listed =>
          node x (List.mem_append_right _ (List.mem_cons_of_mem _ (List.mem_cons_of_mem _ listed)))

end

/-! ### Levels of rings -/

mutual

theorem OperandLayout.depth_le (x : OperandLayout) : x.depth ≤ x.owned.length := by
  cases x with
  | symbol => exact Nat.le_refl _
  | group _ _ content => exact content.depth_le

/-- There are no more levels of rings than nodes. -/
theorem RingLayout.depth_le (ring : RingLayout) : ring.depth ≤ ring.handles.length := by
  cases ring with
  | single x => exact Nat.succ_le_succ x.depth_le
  | pair left h c right =>
      have leftDepth := left.depth_le
      have rightDepth := right.depth_le
      simp only [RingLayout.depth, RingLayout.handles, List.length_append, List.length_cons]
      omega

end

theorem RingLayout.Laid.depth_le_size {ring : RingLayout} (laid : ring.Laid s)
    (distinct : ring.handles.Nodup) : ring.depth ≤ s.size :=
  Nat.le_trans ring.depth_le (Store.length_le_size distinct laid.lt_size)

end Entail.Ring
