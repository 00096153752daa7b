import Entail.Proofs.NormalForm.Negation
import Entail.Proofs.Outcome
import Entail.Proofs.Ring.Reading
import Entail.Proofs.Ring.Traversal
import Entail.Ring.Dual

/-!
# De Morgan's law in rings

De Morgan's law dualizes a group node and the members of the ring that it owns,
each of them once, and leaves all links alone.  A node that is dualized twice
is what it was, and a row that is dualized under a flipped negation has the
value that it had, whatever its connectives are.
-/

namespace Entail

/-- A part as it reads under De Morgan's law. -/
def Part.dualize : Part → Part
  | operand x => operand x.toggle
  | link c => link (c.dualIf true)

namespace Formula

theorem parts_dualize (f : Formula) : f.dualize.parts = f.parts.map Part.dualize := by
  cases f with
  | single x => rfl
  | chain x c rest => simp [dualize, parts, Part.dualize, parts_dualize rest]

theorem depth_dualize (f : Formula) : f.dualize.depth = f.depth := by
  have toggled (x : Operand) : x.toggle.depth = x.depth := by
    cases x <;> simp [Operand.toggle, Operand.depth]
  cases f with
  | single x => simp [dualize, depth, toggled]
  | chain x c rest => simp [dualize, depth, toggled, depth_dualize rest]

/-- Under a negation each step of the fold reads as the dual step on negated values. -/
theorem evalWith_dualize {f : Formula} (junctions : ∀ c ∈ f.links, c.isJunction = true)
    (v : Valuation) (combine combine' : Bool → Bool)
    (same : ∀ value, combine' (!value) = !combine value) :
    f.dualize.evalWith v combine' = !f.evalWith v combine := by
  match f with
  | single x => rw [dualize, evalWith, evalWith, Operand.eval_toggle, same]
  | chain x c rest =>
      rcases List.forall_mem_cons.1 junctions with ⟨junction, junctions⟩
      rw [dualize, evalWith, evalWith, Operand.eval_toggle, same]
      apply evalWith_dualize junctions
      intro value
      have step := @Connective.apply_dualIf true c junction (combine (x.eval v)) value
      simpa using step

end Formula

/-- A group of conjunctions and disjunctions means what its dual means under the other sign. -/
theorem Operand.eval_group_dualize {f : Formula} (junctions : ∀ c ∈ f.links, c.isJunction = true)
    (negated : Bool) (v : Valuation) :
    (group (!negated) f.dualize).eval v = (group negated f).eval v := by
  have flipped := Formula.evalWith_dualize junctions v id id fun _ => rfl
  rw [eval_group, eval_group, Formula.eval, flipped, Formula.eval]
  cases f.evalWith v id <;> cases negated <;> rfl

namespace Ring

/-! ### Dualizing nodes -/

namespace Node

/-- The node as De Morgan's law leaves it: a connective is replaced by its dual, anything else
changes its sign. -/
def dualize (n : Node) : Node :=
  match n.payload with
  | .link c => { n with payload := .link (c.dualIf true) }
  | _ => { n with negated := !n.negated }

@[simp]
theorem dualize_dualize (n : Node) : n.dualize.dualize = n := by
  rcases n with ⟨_ | _ | c, negated, prev, next⟩ <;> simp [dualize]

@[simp]
theorem next_dualize (n : Node) : n.dualize.next = n.next := by
  rw [dualize]
  split <;> rfl

@[simp]
theorem prev_dualize (n : Node) : n.dualize.prev = n.prev := by
  rw [dualize]
  split <;> rfl

/-- The node holds no arrow. -/
def HasDual (n : Node) : Prop :=
  ∀ c, n.payload = .link c → c.isJunction = true

theorem HasDual.dualize {n : Node} (hasDual : n.HasDual) : n.dualize.HasDual := by
  rcases n with ⟨_ | _ | c, negated, prev, next⟩
  · exact hasDual
  · exact hasDual
  · rintro _ ⟨⟩
    exact Connective.isJunction_dualIf (hasDual c rfl)

end Node

namespace Store

variable {s s' s'' : Store} {handles : List Nat}

/-- Stores with the same nodes are the same. -/
theorem eq_of_node (same : ∀ k, s'.node k = s.node k) : s' = s := by
  rcases s with ⟨nodes⟩
  rcases s' with ⟨nodes'⟩
  congr
  apply List.ext_getElem?
  intro k
  have same := same k
  simp only [node] at same
  split at same <;> split at same <;> simp_all

/-- The only change is that the given nodes are dualized. -/
structure Dualizes (s s' : Store) (handles : List Nat) : Prop where
  size : s'.size = s.size
  inside : ∀ k ∈ handles, s'.node k = (s.node k).map Node.dualize
  outside : ∀ k ∉ handles, s'.node k = s.node k

namespace Dualizes

theorem sameLinks (dualizes : s.Dualizes s' handles) (k : Nat) : s.SameLinks s' k := by
  by_cases isInside : k ∈ handles
  · have inside := dualizes.inside k isInside
    constructor
    · rw [next, next, inside]
      cases s.node k <;> simp [Except.map]
    · rw [prev, prev, inside]
      cases s.node k <;> simp [Except.map]
  · exact .of_node (dualizes.outside k isInside)

/-- What is dualized twice is as it was. -/
theorem eq_of_dualizes (first : s.Dualizes s' handles) (second : s'.Dualizes s'' handles) :
    s'' = s := by
  apply eq_of_node
  intro k
  by_cases isInside : k ∈ handles
  · rw [second.inside k isInside, first.inside k isInside]
    cases s.node k <;> simp [Except.map]
  · rw [second.outside k isInside, first.outside k isInside]

theorem evolves {A : Set Nat} (dualizes : s.Dualizes s' handles) (within : ∀ k ∈ handles, k ∈ A) :
    s.Evolves s' A A :=
  ⟨Nat.le_of_eq dualizes.size.symm,
    fun k _ outside => dualizes.outside k fun isInside => outside (within k isInside),
    fun _ => .inl⟩

end Dualizes

/-- The nodes are there, and none of them holds an arrow. -/
def HaveDuals (s : Store) (handles : List Nat) : Prop :=
  ∀ k ∈ handles, ∃ n, s.node k = .ok n ∧ n.HasDual

/-- A node that holds no arrow is dualized, and no other node changes. -/
theorem exists_dualizeNode {h : Nat} (duals : s.HaveDuals [h]) :
    ∃ s', s.dualizeNode h = .ok s' ∧ s.Dualizes s' [h] := by
  rcases duals h List.mem_cons_self with ⟨n, found, hasDual⟩
  rcases exists_modify (lt_size_of_node found) Node.dualize with ⟨s', modified⟩
  refine ⟨s', ?_, size_of_modify modified, ?_, fun k outside => ?_⟩
  · rw [← modified, dualizeNode, payload, modify, found]
    rcases n with ⟨_ | _ | c, negated, prev, next⟩
    · rw [toggle, modify, found]
      rfl
    · rw [toggle, modify, found]
      rfl
    · rcases Connective.exists_dual? (hasDual c rfl) with ⟨d, isDual⟩
      simp only [Except.map, bind, Except.bind, isDual, setPayload, modify, found, Node.dualize,
        Connective.dualIf, if_true, Option.getD_some]
  · rw [List.forall_mem_singleton, node_of_modify modified found, found]
    rfl
  · exact node_of_modify_of_ne modified (List.ne_of_not_mem_cons outside)

/-- Distinct nodes that hold no arrows are dualized one after the other. -/
theorem exists_foldlM_dualizeNode (distinct : handles.Nodup) (duals : s.HaveDuals handles) :
    ∃ s', handles.foldlM dualizeNode s = .ok s' ∧ s.Dualizes s' handles := by
  induction handles generalizing s with
  | nil => exact ⟨s, rfl, rfl, List.forall_mem_nil _, fun _ _ => rfl⟩
  | cons h handles ih =>
      rcases List.nodup_cons.1 distinct with ⟨isNew, distinct⟩
      rcases List.forall_mem_cons.1 duals with ⟨first, rest⟩
      rcases exists_dualizeNode (List.forall_mem_singleton.2 first) with ⟨s₁, dualized, step⟩
      have kept : ∀ k ∈ handles, s₁.node k = s.node k := by
        intro k isRest
        apply step.outside
        rintro isFirst
        exact isNew (List.mem_singleton.1 isFirst ▸ isRest)
      have rest : s₁.HaveDuals handles := by
        intro k isRest
        rw [kept k isRest]
        exact rest k isRest
      rcases ih distinct rest with ⟨s₂, folded, run⟩
      refine ⟨s₂, ?_, run.size.trans step.size, List.forall_mem_cons.2 ⟨?_, fun k isRest => ?_⟩,
        fun k outside => ?_⟩
      · simp only [List.foldlM_cons, dualized, bind, Except.bind, folded]
      · rw [run.outside h isNew, step.inside h List.mem_cons_self]
      · rw [run.inside k isRest, kept k isRest]
      · rcases not_or.1 (List.mem_cons.not.1 outside) with ⟨notFirst, notRest⟩
        rw [run.outside k notRest, step.outside k (List.mem_singleton.not.2 notFirst)]

/-- Anything but a connective keeps what it holds and changes its sign. -/
theorem Holds.dualize {h : Nat} {payload : Payload} {negated : Bool}
    (holds : s.Holds h payload negated) (notLink : ∀ c, payload ≠ .link c)
    (inside : s'.node h = (s.node h).map Node.dualize) : s'.Holds h payload !negated := by
  rcases holds.exists_node with ⟨⟨_ | _ | c, _, prev, next⟩, found, rfl, rfl⟩ <;> rw [found] at inside
  · exact ⟨by rw [Store.payload, inside]; rfl, by rw [Store.negated, inside]; rfl⟩
  · exact ⟨by rw [Store.payload, inside]; rfl, by rw [Store.negated, inside]; rfl⟩
  · exact absurd rfl (notLink c)

theorem Holds.dualize_link {h : Nat} {c : Connective} {negated : Bool}
    (holds : s.Holds h (.link c) negated) (inside : s'.node h = (s.node h).map Node.dualize) :
    s'.Holds h (.link (c.dualIf true)) negated := by
  rcases holds.exists_node with ⟨⟨_, _, prev, next⟩, found, rfl, rfl⟩
  rw [found] at inside
  exact ⟨by rw [Store.payload, inside]; rfl, by rw [Store.negated, inside]; rfl⟩

theorem Dualizes.haveDuals (dualizes : s.Dualizes s' handles) (duals : s.HaveDuals handles) :
    s'.HaveDuals handles := by
  intro k isInside
  rcases duals k isInside with ⟨n, found, hasDual⟩
  refine ⟨n.dualize, ?_, hasDual.dualize⟩
  rw [dualizes.inside k isInside, found]
  rfl

section Group

variable {h head : Nat} {rest : List Nat} {negated : Bool}

/-- De Morgan's law dualizes a group and the members of its ring. -/
theorem exists_deMorgan_of_isRing (holds : s.Holds h (.group head) negated)
    (isRing : s.IsRing (head :: rest)) (apart : h ∉ head :: rest)
    (duals : s.HaveDuals (h :: head :: rest)) :
    ∃ s', s.deMorgan h = .ok s' ∧ s.Dualizes s' (h :: head :: rest) := by
  rcases exists_foldlM_dualizeNode (List.nodup_cons.2 ⟨apart, isRing.nodup⟩) duals with
    ⟨s', folded, dualizes⟩
  rcases List.forall_mem_cons.1 duals with ⟨first, _⟩
  rcases exists_dualizeNode (List.forall_mem_singleton.2 first) with ⟨s₁, dualized, step⟩
  have isRing' := isRing.congr_sameLinks fun k _ => step.sameLinks k
  refine ⟨s', ?_, dualizes⟩
  rw [← folded, List.foldlM_cons, dualized, deMorgan, holds.payload]
  rw [dualizeNode, holds.payload] at dualized
  have toggled : s.toggle h = .ok s₁ := dualized
  simp only [bind, Except.bind, toggled, walk_ring isRing']

/-- De Morgan's law, applied twice to a group, changes nothing. -/
theorem exists_deMorgan_deMorgan (holds : s.Holds h (.group head) negated)
    (isRing : s.IsRing (head :: rest)) (apart : h ∉ head :: rest)
    (duals : s.HaveDuals (h :: head :: rest)) :
    ∃ s', s.deMorgan h = .ok s' ∧ s.Dualizes s' (h :: head :: rest) ∧ s'.deMorgan h = .ok s := by
  rcases exists_deMorgan_of_isRing holds isRing apart duals with ⟨s', ran, dualizes⟩
  have holds' := holds.dualize (fun _ => nofun) (dualizes.inside h List.mem_cons_self)
  have isRing' := isRing.congr_sameLinks fun k _ => dualizes.sameLinks k
  rcases exists_deMorgan_of_isRing holds' isRing' apart (dualizes.haveDuals duals) with
    ⟨s'', ran', dualizes'⟩
  exact ⟨s', ran, dualizes, dualizes.eq_of_dualizes dualizes' ▸ ran'⟩

end Group

/-! ### Dualizing parts -/

/-- A part is dualized with its node, whatever else is in its region. -/
theorem HasPart.dualize {h : Nat} {p : Part} {A : Set Nat} (part : s.HasPart h p A)
    (inside : s'.node h = (s.node h).map Node.dualize)
    (node : ∀ k ∈ A, k ≠ h → s'.node k = s.node k) : s'.HasPart h p.dualize A := by
  cases part with
  | symbol holds => exact .symbol (holds.dualize (fun _ => nofun) inside)
  | link holds => exact .link (holds.dualize_link inside)
  | group holds isRing row apart =>
      have content {k : Nat} (isContent : k ∈ _) : s'.node k = s.node k :=
        node k (.inr isContent) fun same => apart (same ▸ isContent)
      exact .group (holds.dualize (fun _ => nofun) inside)
        (isRing.congr fun k isMember => content (row.mem k isMember))
        (row.congr fun k isContent => content isContent) apart

/-- A row is dualized with its members. -/
theorem HasParts.dualize {members : List Nat} {parts : List Part} {A : Set Nat}
    (row : s.HasParts members parts A)
    (inside : ∀ m ∈ members, s'.node m = (s.node m).map Node.dualize)
    (node : ∀ k ∈ A, k ∉ members → s'.node k = s.node k) :
    s'.HasParts members (parts.map Part.dualize) A := by
  cases row with
  | nil => exact .nil
  | cons part row apart =>
      rcases List.forall_mem_cons.1 inside with ⟨first, rest⟩
      refine .cons (part.dualize first ?_) (row.dualize rest ?_) apart
      · intro k isFirst other
        refine node k (.inl isFirst) fun isMember => ?_
        rcases List.mem_cons.1 isMember with same | isMember
        · exact other same
        · exact Set.disjoint_left.1 apart isFirst (row.mem k isMember)
      · intro k isRest notMember
        refine node k (.inr isRest) fun isMember => ?_
        rcases List.mem_cons.1 isMember with rfl | isMember
        · exact Set.disjoint_left.1 apart part.mem isRest
        · exact notMember isMember

theorem HasPart.exists_hasDual {h : Nat} {p : Part} {A : Set Nat} (part : s.HasPart h p A)
    (junction : ∀ c, p = .link c → c.isJunction = true) : ∃ n, s.node h = .ok n ∧ n.HasDual := by
  cases part with
  | symbol holds | group holds =>
      rcases holds.exists_node with ⟨n, found, isPayload, _⟩
      exact ⟨n, found, fun c isLink => nomatch isPayload.symm.trans isLink⟩
  | link holds =>
      rcases holds.exists_node with ⟨n, found, isPayload, _⟩
      refine ⟨n, found, fun c isLink => ?_⟩
      cases isPayload.symm.trans isLink
      exact junction _ rfl

theorem HasParts.haveDuals {members : List Nat} {parts : List Part} {A : Set Nat}
    (row : s.HasParts members parts A) (junctions : ∀ c, .link c ∈ parts → c.isJunction = true) :
    s.HaveDuals members := by
  cases row with
  | nil => exact List.forall_mem_nil _
  | cons part row _ =>
      refine List.forall_mem_cons.2 ⟨part.exists_hasDual fun c same => ?_, row.haveDuals ?_⟩
      · exact junctions c (same ▸ List.mem_cons_self)
      · exact fun c isLink => junctions c (List.mem_cons_of_mem _ isLink)

section Region

variable {h : Nat} {negated : Bool} {f : Formula} {A : Set Nat}

/-- De Morgan's law on a group in a region dualizes its node and those of its row. -/
theorem HasPart.exists_dualizes (part : s.HasPart h (.operand (.group negated f)) A)
    (junctions : ∀ c ∈ f.links, c.isJunction = true) :
    ∃ s' head rest, s.content h = .ok head ∧ s.walk head = .ok (head :: rest) ∧
      s.deMorgan h = .ok s' ∧ s'.deMorgan h = .ok s ∧ s.Dualizes s' (h :: head :: rest) ∧
      (∀ k ∈ h :: head :: rest, k ∈ A) ∧
      s'.HasPart h (.operand (.group (!negated) f.dualize)) A := by
  rcases hasPart_group_iff.1 part with ⟨head, B, rfl, holds, ⟨rest, isRing, row⟩, apart⟩
  have outside : h ∉ head :: rest := fun isMember => apart (row.mem h isMember)
  have inner : s.HaveDuals (head :: rest) :=
    row.haveDuals fun c isLink => junctions c (Formula.link_mem_parts.1 isLink)
  have duals : s.HaveDuals (h :: head :: rest) :=
    List.forall_mem_cons.2 ⟨part.exists_hasDual (fun _ isLink => nomatch isLink), inner⟩
  rcases exists_deMorgan_deMorgan holds isRing outside duals with ⟨s', ran, dualizes, restored⟩
  rcases List.forall_mem_cons.1 dualizes.inside with ⟨insideGroup, insideRow⟩
  refine ⟨s', head, rest, holds.content, walk_ring isRing, ran, restored, dualizes,
    List.forall_mem_cons.2 ⟨.inl rfl, fun k isMember => .inr (row.mem k isMember)⟩,
    hasPart_group_iff.2 ⟨head, B, rfl, holds.dualize (fun _ => nofun) insideGroup, ?_, apart⟩⟩
  refine ⟨rest, isRing.congr_sameLinks fun k _ => dualizes.sameLinks k, ?_⟩
  rw [Formula.parts_dualize]
  refine row.dualize insideRow fun k isNode notMember => dualizes.outside k fun isInside => ?_
  rcases List.mem_cons.1 isInside with rfl | isMember
  · exact apart isNode
  · exact notMember isMember

/-- De Morgan's law on a group. -/
theorem HasPart.exists_deMorgan (part : s.HasPart h (.operand (.group negated f)) A)
    (required : f.requireDual = .ok ()) :
    ∃ s', s.deMorgan h = .ok s' ∧ s'.HasPart h (.operand (.group (!negated) f.dualize)) A ∧
      s.Evolves s' A A ∧ ∀ k, s.SameLinks s' k := by
  rcases part.exists_dualizes (Formula.requireDual_eq_ok_iff.1 required) with
    ⟨s', head, rest, _, _, ran, _, dualizes, within, part'⟩
  exact ⟨s', ran, part', dualizes.evolves within, dualizes.sameLinks⟩

end Region

/-! ### The value of a node -/

/-- The value of an operand node; the ring of a group is folded from left to right. -/
def nodeValue (s : Store) (v : Valuation) (h : Nat) : Except Error Bool :=
  (s.operandWith s.formula h).map (·.eval v)

theorem ShowsPart.nodeValue {h : Nat} {x : Operand} (part : s.ShowsPart h (.operand x))
    (v : Valuation) : s.nodeValue v h = .ok (x.eval v) := by
  cases part with
  | symbol holds =>
      rcases holds.exists_node with ⟨⟨_, _, _, _⟩, found, rfl, rfl⟩
      simp only [Store.nodeValue, operandWith, found, bind, Except.bind]
      rfl
  | group holds isRing row =>
      rcases holds.exists_node with ⟨⟨_, _, _, _⟩, found, rfl, rfl⟩
      have inner := Shows.formula ⟨_, isRing, row⟩
      simp only [Store.nodeValue, operandWith, found, bind, Except.bind, inner]
      rfl

/-- De Morgan's law on a group of conjunctions and disjunctions, in any order, leaves the value of
the group as it is under every valuation.  No link changes, and no node but the group and the
members of its ring; applied once more, the law restores the store. -/
theorem deMorgan_keeps_value {h : Nat} {negated : Bool} {f : Formula} {A : Set Nat}
    (part : s.HasPart h (.operand (.group negated f)) A)
    (junctions : ∀ c ∈ f.links, c.isJunction = true) :
    ∃ s' head rest, s.deMorgan h = .ok s' ∧ s.content h = .ok head ∧
      s.walk head = .ok (head :: rest) ∧
      (∀ v, s.nodeValue v h = .ok (f.eval v != negated) ∧ s'.nodeValue v h = s.nodeValue v h) ∧
      (∀ k, s.SameLinks s' k) ∧ (∀ k, k ≠ h → k ∉ head :: rest → s'.node k = s.node k) ∧
      s'.deMorgan h = .ok s := by
  rcases part.exists_dualizes junctions with
    ⟨s', head, rest, isContent, walked, ran, restored, dualizes, _, part'⟩
  refine ⟨s', head, rest, ran, isContent, walked, fun v => ⟨?_, ?_⟩, dualizes.sameLinks,
    fun k other notMember => ?_, restored⟩
  · rw [part.shows.nodeValue v, Operand.eval_group]
  · rw [part'.shows.nodeValue v, part.shows.nodeValue v, Operand.eval_group_dualize junctions]
  · exact dualizes.outside k fun isInside => (List.mem_cons.1 isInside).elim other notMember

/-- The law is applied to a negated group that mixes its connectives and owns another group, and
applied once more. -/
theorem deMorgan_keeps_value_of_mixed : ∃ s s' : Store,
    s.text 5 = .ok "~(a&~(c)||~b)" ∧ s.deMorgan 5 = .ok s' ∧ s'.text 5 = .ok "(~a||(c)&b)" ∧
      (∀ v, s'.nodeValue v 5 = s.nodeValue v 5) ∧ s'.deMorgan 5 = .ok s := by
  let s : Store := ⟨[⟨.symbol "a", false, some 4, some 1⟩, ⟨.link .conj, false, some 0, some 2⟩,
    ⟨.group 6, true, some 1, some 3⟩, ⟨.link .disj, false, some 2, some 4⟩,
    ⟨.symbol "b", true, some 3, some 0⟩, ⟨.group 0, true, some 5, some 5⟩,
    ⟨.symbol "c", false, some 6, some 6⟩]⟩
  let inner : Formula := .single (.symbol false "c")
  let content : Formula :=
    .chain (.symbol false "a") .conj (.chain (.group true inner) .disj (.single (.symbol true "b")))
  have single : s.IsRing [6] := ⟨⟨rfl, rfl⟩, List.nodup_singleton 6⟩
  have ring : s.IsRing [0, 1, 2, 3, 4] :=
    ⟨⟨⟨rfl, rfl⟩, ⟨rfl, rfl⟩, ⟨rfl, rfl⟩, ⟨rfl, rfl⟩, rfl, rfl⟩, by decide⟩
  have innerRow : s.HasParts [6] inner.parts ({6} ∪ ∅) :=
    .cons (.symbol ⟨rfl, rfl⟩) .nil (by simp)
  have row : s.HasParts [0, 1, 2, 3, 4] content.parts _ :=
    .cons (.symbol ⟨rfl, rfl⟩) (.cons (.link ⟨rfl, rfl⟩)
      (.cons (.group ⟨rfl, rfl⟩ single innerRow (by simp)) (.cons (.link ⟨rfl, rfl⟩)
        (.cons (.symbol ⟨rfl, rfl⟩) .nil (by simp)) (by simp)) (by simp)) (by simp)) (by simp)
  have part : s.HasPart 5 (.operand (.group true content)) _ :=
    .group ⟨rfl, rfl⟩ ring row (by simp)
  rcases deMorgan_keeps_value part (by decide) with
    ⟨s', _, _, ran, _, _, value, _, _, restored⟩
  have text : s'.text 5 = .ok "(~a||(c)&b)" := by
    have known : ∃ s', s.deMorgan 5 = .ok s' ∧ s'.text 5 = .ok "(~a||(c)&b)" := by
      decide +kernel
    rcases known with ⟨_, ran', text⟩
    cases ran.symm.trans ran'
    exact text
  exact ⟨s, s', by decide +kernel, ran, text, fun v => (value v).2, restored⟩

end Store

end Ring

end Entail
