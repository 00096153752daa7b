import Entail.Proofs.Ring.Rule

/-!
# Operands apart from each other

What a member of a ring owns does not lead back to the ring, since it has fewer
levels of rows.  So the links and signs of the members may change while what
they own stays in sight, also where several of them own one ring.  Two nodes of
which neither is reached from the other are such members by themselves.
-/

namespace Entail.Ring

namespace Store

variable {s s' : Store} {N N' A B : Set Nat}

/-! ### Levels of rows -/

/-- The node is a member of a ring of parts with fewer levels of rows than given. -/
def ShownBelow (s : Store) (levels k : Nat) : Prop :=
  ∃ members parts, k ∈ members ∧ s.IsRing members ∧ s.ShowsParts members parts ∧
    ∀ p ∈ parts, p.depth < levels

theorem ShownBelow.of_step {levels a b : Nat} (shown : s.ShownBelow levels a) (step : s.Steps a b) :
    s.ShownBelow levels b := by
  rcases shown with ⟨members, parts, isMember, ring, row, shallow⟩
  rcases step with next | prev | isGroup
  · exact ⟨members, parts, ring.mem_of_link isMember (.inl next), ring, row, shallow⟩
  · exact ⟨members, parts, ring.mem_of_link isMember (.inr prev), ring, row, shallow⟩
  · rcases row.exists_part a isMember with ⟨p, isPart, part⟩
    have deep := shallow p isPart
    cases part with
    | symbol holds | link holds => cases holds.payload.symm.trans isGroup
    | group holds inner content =>
        cases holds.payload.symm.trans isGroup
        exact ⟨_, _, List.mem_cons_self, inner, content,
          fun q isInner => Nat.lt_trans (Formula.depth_lt_of_mem_parts isInner) deep⟩

theorem ShownBelow.of_reaches {levels a b : Nat} (shown : s.ShownBelow levels a)
    (reaches : s.Reaches a b) : s.ShownBelow levels b := by
  induction reaches with
  | refl => exact shown
  | tail _ step ih => exact ih.of_step step

/-- What a member of a ring owns does not lead back to the ring. -/
theorem ShowsParts.not_mem_of_reaches {members : List Nat} {parts : List Part}
    (row : s.ShowsParts members parts) (ring : s.IsRing members) {m b k : Nat}
    (isMember : m ∈ members) (isGroup : s.payload m = .ok (.group b)) (reaches : s.Reaches b k) :
    k ∉ members := by
  intro isOuter
  rcases row.exists_part m isMember with ⟨_, _, part⟩
  cases part with
  | symbol holds | link holds => cases holds.payload.symm.trans isGroup
  | @group _ _ _ _ content holds inner innerRow =>
      cases holds.payload.symm.trans isGroup
      have below : s.ShownBelow content.depth b :=
        ⟨_, _, List.mem_cons_self, inner, innerRow, fun _ => Formula.depth_lt_of_mem_parts⟩
      rcases below.of_reaches reaches with ⟨members', _, isOther, ring', row', shallow⟩
      -- the ring that is reached is the outer one, of which a part is as deep as the content
      have isMember' := (ring.isRotated ring' isOuter isOther).mem_iff.1 isMember
      rcases row'.exists_part m isMember' with ⟨q, isPart, part'⟩
      cases (ShowsPart.group holds inner innerRow).unique part'
      exact Nat.lt_irrefl _ (shallow _ isPart)

/-! ### Rings apart from nodes -/

/-- The ring shows the formula whatever becomes of the given nodes. -/
def ShowsApart (s : Store) (N : Set Nat) (head : Nat) (f : Formula) : Prop :=
  ∀ s' : Store, (∀ k < s.size, k ∉ N → s'.node k = s.node k) → s'.Shows head f

namespace ShowsApart

variable {head : Nat} {f : Formula}

theorem shows (shown : s.ShowsApart N head f) : s.Shows head f :=
  shown s fun _ _ _ => rfl

theorem of_reaches (ring : s.Shows head f) (apart : ∀ k ∈ N, ¬s.Reaches head k) :
    s.ShowsApart N head f :=
  fun _ node => ring.congr_of_reaches fun k old reaches =>
    node k old fun isNode => apart k isNode reaches

/-- What is shown apart from the nodes that change is shown afterwards, apart from new nodes as
well. -/
theorem evolves (shown : s.ShowsApart N head f) (evolves : s.Evolves s' A B) (within : A ⊆ N)
    (origin : ∀ k ∈ N', k ∈ N ∨ s.size ≤ k) : s'.ShowsApart N' head f := by
  refine fun s'' node => shown s'' fun k old outside => ?_
  have outside' : k ∉ N' := fun isNode => (origin k isNode).elim outside (Nat.not_le.2 old)
  rw [node k (Nat.lt_of_lt_of_le old evolves.size) outside',
    evolves.node k old fun isNode => outside (within isNode)]

end ShowsApart

theorem HasRing.showsApart {head : Nat} {f : Formula} (ring : s.HasRing head f A)
    (apart : Disjoint A N) : s.ShowsApart N head f :=
  fun _ node => HasRow.shows <| ring.congr fun k isNode =>
    node k (ring.lt_size k isNode) (Set.disjoint_left.1 apart isNode)

/-! ### Nodes apart from what they own -/

/-- The node holds the part, and the ring that it may own shows its formula whatever becomes of the
given nodes. -/
inductive HoldsPart (s : Store) (N : Set Nat) (h : Nat) : Part → Prop
  | symbol {negated : Bool} {name : String} : s.Holds h (.symbol name) negated →
      HoldsPart s N h (.operand (.symbol negated name))
  | link {c : Connective} : s.Holds h (.link c) false → HoldsPart s N h (.link c)
  | group {head : Nat} {negated : Bool} {content : Formula} : s.Holds h (.group head) negated →
      s.ShowsApart N head content → HoldsPart s N h (.operand (.group negated content))

namespace HoldsPart

variable {h : Nat} {p : Part}

theorem lt_size (part : s.HoldsPart N h p) : h < s.size := by
  cases part with
  | symbol holds | link holds | group holds => exact holds.lt_size

/-- The node shows its part in another store that differs in the given nodes, but not in what the
node itself holds. -/
theorem shows_of_node (part : s.HoldsPart N h p) (holds : s'.node h = s.node h)
    (node : ∀ k < s.size, k ∉ N → s'.node k = s.node k) : s'.ShowsPart h p := by
  cases part with
  | symbol holds' => exact .symbol (holds'.congr_node holds)
  | link holds' => exact .link (holds'.congr_node holds)
  | group holds' shown =>
      rcases shown s' node with ⟨rest, isRing, row⟩
      exact .group (holds'.congr_node holds) isRing row

theorem shows (part : s.HoldsPart N h p) : s.ShowsPart h p :=
  part.shows_of_node rfl fun _ _ _ => rfl

theorem evolves (part : s.HoldsPart N h p) (evolves : s.Evolves s' A B) (within : A ⊆ N)
    (origin : ∀ k ∈ N', k ∈ N ∨ s.size ≤ k) (payload : s'.payload h = s.payload h)
    (negated : s'.negated h = s.negated h) : s'.HoldsPart N' h p := by
  cases part with
  | symbol holds => exact .symbol (holds.congr payload negated)
  | link holds => exact .link (holds.congr payload negated)
  | group holds shown =>
      exact .group (holds.congr payload negated) (shown.evolves evolves within origin)

theorem exists_toggle {x : Operand} (part : s.HoldsPart N h (.operand x)) (isNode : h ∈ N) :
    ∃ s', s.toggle h = .ok s' ∧ s'.HoldsPart N h (.operand x.toggle) ∧ s.Retains s' h := by
  cases part with
  | symbol holds =>
      rcases holds.exists_toggle with ⟨s', toggled, holds, retains⟩
      exact ⟨s', toggled, .symbol holds, retains⟩
  | group holds shown =>
      rcases holds.exists_toggle with ⟨s', toggled, holds, retains⟩
      have evolves : s.Evolves s' N ∅ := retains.evolves isNode (Set.empty_subset N)
      have shown := shown.evolves evolves Set.Subset.rfl fun _ => .inl
      exact ⟨s', toggled, .group holds shown, retains⟩

end HoldsPart

theorem ShowsPart.holdsPart {h : Nat} {p : Part} (part : s.ShowsPart h p)
    (apart : ∀ b, s.payload h = .ok (.group b) → ∀ k ∈ N, ¬s.Reaches b k) : s.HoldsPart N h p := by
  cases part with
  | symbol holds => exact .symbol holds
  | link holds => exact .link holds
  | group holds isRing row =>
      exact .group holds (.of_reaches ⟨_, isRing, row⟩ (apart _ holds.payload))

theorem HasPart.holdsPart {h : Nat} {p : Part} (part : s.HasPart h p A)
    (apart : ∀ k ∈ A, k ∈ N → k = h) : s.HoldsPart N h p := by
  match p, part with
  | _, .symbol holds => exact .symbol holds
  | _, .link holds => exact .link holds
  | .operand (.group _ _), part =>
      rcases hasPart_group_iff.1 part with ⟨head, C, rfl, holds, ring, notInner⟩
      exact .group holds (ring.showsApart (by grind))

/-- The nodes hold the parts, apart from the given nodes. -/
abbrev HoldsParts (s : Store) (N : Set Nat) (members : List Nat) (parts : List Part) : Prop :=
  List.Forall₂ (s.HoldsPart N) members parts

theorem ShowsParts.holdsParts {members : List Nat} {parts : List Part}
    (row : s.ShowsParts members parts)
    (apart : ∀ m ∈ members, ∀ b, s.payload m = .ok (.group b) → ∀ k ∈ N, ¬s.Reaches b k) :
    s.HoldsParts N members parts := by
  match row with
  | .nil => exact .nil
  | .cons part row =>
      rcases List.forall_mem_cons.1 apart with ⟨first, rest⟩
      exact .cons (part.holdsPart first) (row.holdsParts rest)

/-- The members of a ring hold their parts apart from the ring itself. -/
theorem ShowsParts.holdsParts_of_isRing {members : List Nat} {parts : List Part}
    (row : s.ShowsParts members parts) (ring : s.IsRing members) :
    s.HoldsParts {k | k ∈ members} members parts :=
  row.holdsParts fun _ isMember _ isGroup _ isOuter reaches =>
    row.not_mem_of_reaches ring isMember isGroup reaches isOuter

theorem HoldsParts.shows_of_node {members : List Nat} {parts : List Part}
    (row : s.HoldsParts N members parts) (holds : ∀ m ∈ members, s'.node m = s.node m)
    (node : ∀ k < s.size, k ∉ N → s'.node k = s.node k) : s'.ShowsParts members parts := by
  induction row with
  | nil => exact .nil
  | cons part _ ih =>
      rcases List.forall_mem_cons.1 holds with ⟨first, rest⟩
      exact .cons (part.shows_of_node first node) (ih rest)

/-- A ring of nodes that hold their parts is apart from whatever its members are apart from. -/
theorem HoldsParts.showsApart {head : Nat} {rest : List Nat} {f : Formula}
    (row : s.HoldsParts N (head :: rest) f.parts) (ring : s.IsRing (head :: rest))
    (outside : ∀ m ∈ head :: rest, m ∉ N) : s.ShowsApart N head f := by
  intro s' node
  have kept : ∀ m ∈ head :: rest, s'.node m = s.node m := fun m isMember =>
    node m (ring.lt_size m isMember) (outside m isMember)
  exact ⟨rest, ring.congr kept, row.shows_of_node kept node⟩

/-! ### Isolated operands -/

/-- Two nodes, each a ring by itself, hold the operands apart from each other and from the given
nodes; these are not the two. -/
structure IsolatedPair (s : Store) (N : Set Nat) (left right : Nat) (x y : Operand) : Prop where
  single : s.IsRing [left]
  single' : s.IsRing [right]
  different : left ≠ right
  first : s.HoldsPart (N ∪ {left, right}) left (.operand x)
  second : s.HoldsPart (N ∪ {left, right}) right (.operand y)
  old : ∀ k ∈ N, k < s.size
  outside : ∀ k ∈ N, k ≠ left ∧ k ≠ right

namespace IsolatedPair

variable {left right : Nat} {x y : Operand}

theorem symm (pair : s.IsolatedPair N left right x y) : s.IsolatedPair N right left y x := by
  have swapped : N ∪ {left, right} = N ∪ {right, left} := by rw [Set.pair_comm]
  exact ⟨pair.single', pair.single, pair.different.symm, swapped ▸ pair.second,
    swapped ▸ pair.first, pair.old, fun k isNode => (pair.outside k isNode).symm⟩

/-- Two nodes that are rings by themselves are isolated if neither is reached from the other. -/
theorem of_reaches (first : s.Shows left (.single x)) (second : s.Shows right (.single y))
    (apart : ¬s.Reaches left right) (apart' : ¬s.Reaches right left) :
    s.IsolatedPair ∅ left right x y := by
  rcases first with ⟨_, isRing, row⟩
  rcases second with ⟨_, isRing', row'⟩
  have owned {h : Nat} {p : Part} (ring : s.IsRing [h]) (row : s.ShowsParts [h] [p]) {b : Nat}
      (isGroup : s.payload h = .ok (.group b)) : ¬s.Reaches b h := fun reaches =>
    row.not_mem_of_reaches ring List.mem_cons_self isGroup reaches List.mem_cons_self
  rcases row with _ | ⟨part, _ | _⟩
  rcases row' with _ | ⟨part', _ | _⟩
  refine ⟨isRing, isRing', fun same => apart (same ▸ .refl), ?_, ?_, by simp, by simp⟩
  · refine part.holdsPart fun b isGroup k isNode reaches => ?_
    rcases isNode with none | rfl | rfl
    · exact none
    · exact owned isRing (.cons part .nil) isGroup reaches
    · exact apart (.head (.inr (.inr isGroup)) reaches)
  · refine part'.holdsPart fun b isGroup k isNode reaches => ?_
    rcases isNode with none | rfl | rfl
    · exact none
    · exact apart' (.head (.inr (.inr isGroup)) reaches)
    · exact owned isRing' (.cons part' .nil) isGroup reaches

/-- A node is isolated from the node that comes to hold a region beside it. -/
theorem of_evolves (single : s.IsRing [left])
    (first : s.HoldsPart (insert left (N ∪ A)) left (.operand x)) (evolves : s.Evolves s' A B)
    (row : s'.HasRow right [.operand y] B) (notInner : left ∉ A) (notGiven : left ∉ N)
    (apart : Disjoint A N) (old : ∀ k ∈ N, k < s.size) : s'.IsolatedPair N left right x y := by
  rcases hasRow_singleton_iff.1 row with ⟨single', part⟩
  have inRange := single.lt_size left List.mem_cons_self
  have kept := evolves.node left inRange notInner
  have origin := evolves.origin
  have isSecond := part.mem
  have apart' := evolves.disjoint apart old
  have first : s'.HoldsPart (N ∪ {left, right}) left (.operand x) :=
    first.evolves evolves (by grind) (by grind) (by rw [payload, kept, payload])
      (by rw [negated, kept, negated])
  have second : s'.HoldsPart (N ∪ {left, right}) right (.operand y) := part.holdsPart (by grind)
  exact ⟨single.congr (by simpa using kept), single', by grind, first, second,
    fun k isNode => Nat.lt_of_lt_of_le (old k isNode) evolves.size, by grind⟩

theorem showsApart (pair : s.IsolatedPair N left right x y) : s.ShowsApart N left (.single x) := by
  have first : s.HoldsPart N left (.operand x) :=
    pair.first.evolves (.refl s (Set.empty_subset ∅)) (Set.empty_subset _) (fun _ => .inl ∘ .inl)
      rfl rfl
  refine HoldsParts.showsApart (.cons first .nil) pair.single ?_
  exact List.forall_mem_singleton.2 fun isNode => (pair.outside left isNode).1 rfl

/-- As long as no old node changes, two nodes stay isolated, also from new nodes. -/
theorem evolves (pair : s.IsolatedPair N left right x y) (evolves : s.Evolves s' ∅ B)
    (origin : ∀ k ∈ N', k ∈ N ∨ s.size ≤ k) (old : ∀ k ∈ N', k < s'.size) :
    s'.IsolatedPair N' left right x y := by
  have leftIn := pair.first.lt_size
  have rightIn := pair.second.lt_size
  have keeps := evolves.keeps
  have wider : ∀ k ∈ N' ∪ {left, right}, k ∈ N ∪ {left, right} ∨ s.size ≤ k := by grind
  refine ⟨pair.single.congr (by grind), pair.single'.congr (by grind), pair.different, ?_, ?_,
    old, ?_⟩
  · exact pair.first.evolves evolves (Set.empty_subset _) wider
      (by rw [payload, keeps left leftIn, payload]) (by rw [negated, keeps left leftIn, negated])
  · exact pair.second.evolves evolves (Set.empty_subset _) wider
      (by rw [payload, keeps right rightIn, payload])
      (by rw [negated, keeps right rightIn, negated])
  · intro k isNode
    rcases origin k isNode with isNode | isNew
    · exact pair.outside k isNode
    · omega

theorem exists_toggle (pair : s.IsolatedPair N left right x y) :
    ∃ s', s.toggle left = .ok s' ∧ s'.IsolatedPair N left right x.toggle y ∧
      s.Evolves s' {left} {left} := by
  rcases pair.first.exists_toggle (by simp) with ⟨s', toggled, first, retains⟩
  have evolves : s.Evolves s' {left} {left} := retains.evolves rfl Set.Subset.rfl
  have other := retains.node right pair.different.symm
  have second : s'.HoldsPart (N ∪ {left, right}) right (.operand y) :=
    pair.second.evolves evolves (by simp) (fun _ => .inl) (by rw [payload, other, payload])
      (by rw [negated, other, negated])
  exact ⟨s', toggled, ⟨retains.isRing pair.single, retains.isRing pair.single', pair.different,
    first, second, retains.size ▸ pair.old, pair.outside⟩, evolves⟩

end IsolatedPair

end Store

end Entail.Ring
