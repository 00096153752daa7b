import Mathlib.Data.Set.Lattice
import Mathlib.Order.CompletePartialOrder
import Entail.Proofs.Formula.Parts
import Entail.Proofs.Ring.Builder

/-!
# Regions of formulas

A formula lies in a region, the set of all nodes that its ring reaches, and the
parts of a row lie in regions of their own.  What happens outside of its region
leaves a formula alone.
-/

namespace Entail.Ring

namespace Store

mutual

/-- The node holds the part of a row, which takes up the region. -/
inductive HasPart (s : Store) : Nat → Part → Set Nat → Prop
  | symbol {h : Nat} {negated : Bool} {name : String} : s.Holds h (.symbol name) negated →
      HasPart s h (.operand (.symbol negated name)) {h}
  | link {h : Nat} {c : Connective} : s.Holds h (.link c) false → HasPart s h (.link c) {h}
  | group {h head : Nat} {negated : Bool} {rest : List Nat} {content : Formula} {A : Set Nat} :
      s.Holds h (.group head) negated → s.IsRing (head :: rest) →
      HasParts s (head :: rest) content.parts A → h ∉ A →
      HasPart s h (.operand (.group negated content)) (insert h A)

/-- The nodes hold the parts of a row, which take up disjoint parts of the region. -/
inductive HasParts (s : Store) : List Nat → List Part → Set Nat → Prop
  | nil : HasParts s [] [] ∅
  | cons {h : Nat} {p : Part} {members : List Nat} {parts : List Part} {A B : Set Nat} :
      HasPart s h p A → HasParts s members parts B → Disjoint A B →
      HasParts s (h :: members) (p :: parts) (A ∪ B)

end

/-- The ring of the given head holds the parts, which take up the region. -/
def HasRow (s : Store) (head : Nat) (parts : List Part) (A : Set Nat) : Prop :=
  ∃ rest, s.IsRing (head :: rest) ∧ s.HasParts (head :: rest) parts A

/-- The ring of the given head holds the formula, which takes up the region. -/
abbrev HasRing (s : Store) (head : Nat) (f : Formula) (A : Set Nat) : Prop :=
  s.HasRow head f.parts A

/-- The nodes, each a ring by itself, hold the parts, which take up the region. -/
structure HasSingles (s : Store) (members : List Nat) (parts : List Part) (A : Set Nat) :
    Prop where
  parts : s.HasParts members parts A
  single : ∀ m ∈ members, s.IsRing [m]

variable {s s' s'' : Store}

theorem hasPart_group_iff {h : Nat} {negated : Bool} {f : Formula} {A : Set Nat} :
    s.HasPart h (.operand (.group negated f)) A ↔ ∃ head B, A = insert h B ∧
      s.Holds h (.group head) negated ∧ s.HasRing head f B ∧ h ∉ B := by
  constructor
  · rintro (_ | _ | ⟨holds, isRing, parts, apart⟩)
    exact ⟨_, _, rfl, holds, ⟨_, isRing, parts⟩, apart⟩
  · rintro ⟨head, B, rfl, holds, ⟨rest, isRing, parts⟩, apart⟩
    exact .group holds isRing parts apart

theorem hasParts_singleton_iff {h : Nat} {p : Part} {A : Set Nat} :
    s.HasParts [h] [p] A ↔ s.HasPart h p A := by
  constructor
  · rintro (_ | ⟨part, _ | _, _⟩)
    rwa [Set.union_empty]
  · intro part
    simpa using HasParts.cons part .nil (Set.disjoint_empty A)

theorem hasRow_singleton_iff {h : Nat} {p : Part} {A : Set Nat} :
    s.HasRow h [p] A ↔ s.IsRing [h] ∧ s.HasPart h p A := by
  constructor
  · rintro ⟨rest, isRing, parts⟩
    cases parts with
    | cons part parts _ =>
        cases parts with
        | nil => exact ⟨isRing, by rwa [Set.union_empty]⟩
  · rintro ⟨isRing, part⟩
    exact ⟨[], isRing, hasParts_singleton_iff.2 part⟩

theorem hasSingles_cons_iff {h : Nat} {members : List Nat} {p : Part} {parts : List Part}
    {A : Set Nat} : s.HasSingles (h :: members) (p :: parts) A ↔
      ∃ B C, A = B ∪ C ∧ s.HasRow h [p] B ∧ s.HasSingles members parts C ∧ Disjoint B C := by
  constructor
  · rintro ⟨_ | ⟨part, row, apart⟩, single⟩
    rcases List.forall_mem_cons.1 single with ⟨first, rest⟩
    exact ⟨_, _, rfl, hasRow_singleton_iff.2 ⟨first, part⟩, ⟨row, rest⟩, apart⟩
  · rintro ⟨B, C, rfl, first, ⟨row, rest⟩, apart⟩
    rcases hasRow_singleton_iff.1 first with ⟨isRing, part⟩
    exact ⟨.cons part row apart, List.forall_mem_cons.2 ⟨isRing, rest⟩⟩

/-! ### Nodes of a region -/

theorem HasPart.mem {h : Nat} {p : Part} {A : Set Nat} (part : s.HasPart h p A) : h ∈ A := by
  cases part with
  | symbol | link => exact Set.mem_singleton h
  | group => exact Set.mem_insert ..

theorem HasParts.mem {members : List Nat} {parts : List Part} {A : Set Nat}
    (row : s.HasParts members parts A) : ∀ m ∈ members, m ∈ A := by
  cases row with
  | nil => exact List.forall_mem_nil _
  | cons part row _ =>
      exact List.forall_mem_cons.2 ⟨.inl part.mem, fun m isMember => .inr (row.mem m isMember)⟩

theorem HasParts.nodup {members : List Nat} {parts : List Part} {A : Set Nat}
    (row : s.HasParts members parts A) : members.Nodup := by
  cases row with
  | nil => exact List.nodup_nil
  | cons part row apart =>
      have isNew := fun isMember => Set.disjoint_left.1 apart part.mem (row.mem _ isMember)
      exact List.nodup_cons.2 ⟨isNew, row.nodup⟩

theorem HasParts.length_eq {members : List Nat} {parts : List Part} {A : Set Nat}
    (row : s.HasParts members parts A) : members.length = parts.length := by
  cases row with
  | nil => rfl
  | cons part row apart => exact congrArg Nat.succ row.length_eq

mutual

theorem HasPart.lt_size {h : Nat} {p : Part} {A : Set Nat} (part : s.HasPart h p A) :
    ∀ k ∈ A, k < s.size := by
  match part with
  | .symbol holds | .link holds =>
      rintro _ rfl
      exact holds.lt_size
  | .group holds _ row _ =>
      have content := row.lt_size
      rintro k (rfl | isContent)
      · exact holds.lt_size
      · exact content k isContent

theorem HasParts.lt_size {members : List Nat} {parts : List Part} {A : Set Nat}
    (row : s.HasParts members parts A) : ∀ k ∈ A, k < s.size := by
  match row with
  | .nil => exact fun k isNode => isNode.elim
  | .cons part row _ =>
      rintro k (isFirst | isRest)
      · exact part.lt_size k isFirst
      · exact row.lt_size k isRest

end

theorem HasRow.lt_size {head : Nat} {parts : List Part} {A : Set Nat}
    (row : s.HasRow head parts A) : ∀ k ∈ A, k < s.size :=
  row.choose_spec.2.lt_size

theorem HasRow.mem {head : Nat} {parts : List Part} {A : Set Nat} (row : s.HasRow head parts A) :
    head ∈ A :=
  row.choose_spec.2.mem head List.mem_cons_self

/-! ### Joining and cutting rows -/

theorem HasParts.append {members more : List Nat} {parts parts' : List Part} {A B : Set Nat}
    (row : s.HasParts members parts A) (row' : s.HasParts more parts' B) (apart : Disjoint A B) :
    s.HasParts (members ++ more) (parts ++ parts') (A ∪ B) := by
  cases row with
  | nil => rwa [Set.empty_union]
  | cons part row apart' =>
      rcases Set.disjoint_union_left.1 apart with ⟨first, rest⟩
      rw [Set.union_assoc]
      exact .cons part (row.append row' rest) (Set.disjoint_union_right.2 ⟨apart', first⟩)

theorem HasParts.exists_append {members : List Nat} {parts parts' : List Part} {A : Set Nat}
    (row : s.HasParts members (parts ++ parts') A) :
    ∃ left right B C, members = left ++ right ∧ A = B ∪ C ∧ s.HasParts left parts B ∧
      s.HasParts right parts' C ∧ Disjoint B C := by
  cases parts with
  | nil =>
      exact ⟨[], members, ∅, A, rfl, (Set.empty_union A).symm, .nil, row, Set.empty_disjoint A⟩
  | cons p parts =>
      cases row with
      | @cons h _ _ _ D _ part row apart =>
          rcases row.exists_append with ⟨left, right, B, C, rfl, rfl, first, second, apart'⟩
          rcases Set.disjoint_union_right.1 apart with ⟨apartLeft, apartRight⟩
          exact ⟨h :: left, right, D ∪ B, C, rfl, (Set.union_assoc ..).symm,
            .cons part first apartLeft, second, Set.disjoint_union_left.2 ⟨apartRight, apart'⟩⟩

theorem HasSingles.nil (s : Store) : s.HasSingles [] [] ∅ :=
  ⟨.nil, List.forall_mem_nil _⟩

theorem HasSingles.append {members more : List Nat} {parts parts' : List Part} {A B : Set Nat}
    (row : s.HasSingles members parts A) (row' : s.HasSingles more parts' B)
    (apart : Disjoint A B) : s.HasSingles (members ++ more) (parts ++ parts') (A ∪ B) :=
  ⟨row.parts.append row'.parts apart, List.forall_mem_append.2 ⟨row.single, row'.single⟩⟩

/-! ### What leaves a formula alone -/

mutual

/-- A part stays where it is while its region does not change. -/
theorem HasPart.congr {h : Nat} {p : Part} {A : Set Nat} (part : s.HasPart h p A)
    (node : ∀ k ∈ A, s'.node k = s.node k) : s'.HasPart h p A := by
  match part with
  | .symbol holds => exact .symbol (holds.congr_node (node _ rfl))
  | .link holds => exact .link (holds.congr_node (node _ rfl))
  | .group holds isRing row apart =>
      exact .group (holds.congr_node (node _ (.inl rfl)))
        (isRing.congr fun k isMember => node k (.inr (row.mem k isMember)))
        (row.congr fun k isContent => node k (.inr isContent)) apart

/-- A row stays where it is while its region does not change. -/
theorem HasParts.congr {members : List Nat} {parts : List Part} {A : Set Nat}
    (row : s.HasParts members parts A) (node : ∀ k ∈ A, s'.node k = s.node k) :
    s'.HasParts members parts A := by
  match row with
  | .nil => exact .nil
  | .cons part row apart =>
      exact .cons (part.congr fun k isFirst => node k (.inl isFirst))
        (row.congr fun k isRest => node k (.inr isRest)) apart

end

theorem HasRow.congr {head : Nat} {parts : List Part} {A : Set Nat} (row : s.HasRow head parts A)
    (node : ∀ k ∈ A, s'.node k = s.node k) : s'.HasRow head parts A := by
  rcases row with ⟨rest, isRing, row⟩
  exact ⟨rest, isRing.congr fun k isMember => node k (row.mem k isMember), row.congr node⟩

theorem HasSingles.congr {members : List Nat} {parts : List Part} {A : Set Nat}
    (row : s.HasSingles members parts A) (node : ∀ k ∈ A, s'.node k = s.node k) :
    s'.HasSingles members parts A := by
  refine ⟨row.parts.congr node, fun m isMember => (row.single m isMember).congr fun k listed => ?_⟩
  rcases List.mem_singleton.1 listed with rfl
  exact node k (row.parts.mem k isMember)

/-- A part stays where it is if links of its node are changed. -/
theorem HasPart.relink {h : Nat} {p : Part} {A : Set Nat} (part : s.HasPart h p A)
    (payload : s'.payload h = s.payload h) (negated : s'.negated h = s.negated h)
    (node : ∀ k ∈ A, k ≠ h → s'.node k = s.node k) : s'.HasPart h p A := by
  cases part with
  | symbol holds => exact .symbol (holds.congr payload negated)
  | link holds => exact .link (holds.congr payload negated)
  | group holds isRing row apart =>
      have content {k : Nat} (isContent : k ∈ _) : s'.node k = s.node k :=
        node k (.inr isContent) fun same => apart (same ▸ isContent)
      exact .group (holds.congr payload negated)
        (isRing.congr fun k isMember => content (row.mem k isMember))
        (row.congr fun k isContent => content isContent) apart

theorem HasPart.relinks {changed : List Nat} {h : Nat} {p : Part} {A : Set Nat}
    (part : s.HasPart h p A) (relinks : s.Relinks s' changed)
    (outside : ∀ k ∈ A, k ∈ changed → k = h) : s'.HasPart h p A :=
  part.relink (relinks.payload h) (relinks.negated h)
    fun k isNode other => relinks.node k fun isChanged => other (outside k isNode isChanged)

/-- A row stays where it is if links of its members are changed. -/
theorem HasParts.relink {members : List Nat} {parts : List Part} {A : Set Nat}
    (row : s.HasParts members parts A)
    (payload : ∀ m ∈ members, s'.payload m = s.payload m)
    (negated : ∀ m ∈ members, s'.negated m = s.negated m)
    (node : ∀ k ∈ A, k ∉ members → s'.node k = s.node k) : s'.HasParts members parts A := by
  cases row with
  | nil => exact .nil
  | cons part row apart =>
      rcases List.forall_mem_cons.1 payload with ⟨firstPayload, restPayload⟩
      rcases List.forall_mem_cons.1 negated with ⟨firstNegated, restNegated⟩
      refine .cons (part.relink firstPayload firstNegated ?_)
        (row.relink restPayload restNegated ?_) apart
      · intro k isFirst other
        refine node k (.inl isFirst) fun isMember => ?_
        rcases List.mem_cons.1 isMember with same | isMember
        · exact other same
        · exact Set.disjoint_left.1 apart isFirst (row.mem k isMember)
      · intro k isRest notMember
        refine node k (.inr isRest) fun isMember => ?_
        rcases List.mem_cons.1 isMember with rfl | isMember
        · exact Set.disjoint_left.1 apart part.mem isRest
        · exact notMember isMember

theorem HasParts.relinks {members changed : List Nat} {parts : List Part} {A : Set Nat}
    (row : s.HasParts members parts A) (relinks : s.Relinks s' changed)
    (outside : ∀ k ∈ A, k ∈ changed → k ∈ members) : s'.HasParts members parts A :=
  row.relink (fun m _ => relinks.payload m) (fun m _ => relinks.negated m)
    fun k isNode notMember => relinks.node k fun isChanged => notMember (outside k isNode isChanged)

/-! ### Changes within a region -/

/-- Of the nodes that there were, only those of `A` have changed; `B` consists of nodes of `A` and
of new ones. -/
structure Evolves (s s' : Store) (A B : Set Nat) : Prop where
  size : s.size ≤ s'.size
  node : ∀ k < s.size, k ∉ A → s'.node k = s.node k
  origin : ∀ k ∈ B, k ∈ A ∨ s.size ≤ k

namespace Evolves

variable {A A' B C D R : Set Nat}

theorem refl (s : Store) (subset : B ⊆ A) : s.Evolves s A B :=
  ⟨Nat.le_refl _, fun _ _ _ => rfl, fun _ isNode => .inl (subset isNode)⟩

theorem trans (first : s.Evolves s' A B) (second : s'.Evolves s'' (A ∪ B) C) :
    s.Evolves s'' A C where
  size := Nat.le_trans first.size second.size
  node := by
    intro k old outside
    have outside' : k ∉ A ∪ B := by
      rintro (isNode | isNode)
      · exact outside isNode
      · rcases first.origin k isNode with isNode | isNew
        · exact outside isNode
        · exact absurd old (Nat.not_lt_of_le isNew)
    rw [second.node k (Nat.lt_of_lt_of_le old first.size) outside', first.node k old outside]
  origin := by
    intro k isNode
    rcases second.origin k isNode with (isNode | isNode) | isNew
    · exact .inl isNode
    · exact first.origin k isNode
    · exact .inr (Nat.le_trans first.size isNew)

theorem mono (evolves : s.Evolves s' A B) (subset : A ⊆ A') : s.Evolves s' A' B :=
  ⟨evolves.size, fun k old outside => evolves.node k old fun isNode => outside (subset isNode),
    fun k isNode => (evolves.origin k isNode).imp_left fun isNode => subset isNode⟩

theorem restrict (evolves : s.Evolves s' A B) (subset : C ⊆ B) : s.Evolves s' A C :=
  ⟨evolves.size, evolves.node, fun k isNode => evolves.origin k (subset isNode)⟩

theorem union (evolves : s.Evolves s' A B) (subset : R ⊆ A) : s.Evolves s' A (B ∪ R) :=
  ⟨evolves.size, evolves.node, fun k isNode => isNode.elim (evolves.origin k)
    fun isNode => .inl (subset isNode)⟩

/-- Two changes in a row, the second one within what the first one left. -/
theorem comp (first : s.Evolves s' A B) (second : s'.Evolves s'' A' C) (within : A' ⊆ A ∪ B)
    (subset : D ⊆ A ∪ B ∪ C) : s.Evolves s'' A D := by
  have whole := first.trans ((second.mono within).union Set.Subset.rfl)
  exact whole.restrict fun k isNode => (subset isNode).symm

/-- What was apart from the region that was changed is apart from the one that came of it. -/
theorem disjoint (evolves : s.Evolves s' A B) (apart : Disjoint A R)
    (old : ∀ k ∈ R, k < s.size) : Disjoint B R := by
  refine Set.disjoint_left.2 fun k isNode isOther => ?_
  rcases evolves.origin k isNode with isNode | isNew
  · exact Set.disjoint_left.1 apart isNode isOther
  · exact absurd (old k isOther) (Nat.not_lt_of_le isNew)

theorem node_of_disjoint (evolves : s.Evolves s' A B) (apart : Disjoint A R)
    (old : ∀ k ∈ R, k < s.size) : ∀ k ∈ R, s'.node k = s.node k :=
  fun k isOther =>
    evolves.node k (old k isOther) fun isNode => Set.disjoint_left.1 apart isNode isOther

theorem part (evolves : s.Evolves s' A B) {h : Nat} {p : Part} (part : s.HasPart h p R)
    (apart : Disjoint A R) : s'.HasPart h p R ∧ Disjoint B R :=
  ⟨part.congr (evolves.node_of_disjoint apart part.lt_size),
    evolves.disjoint apart part.lt_size⟩

theorem parts (evolves : s.Evolves s' A B) {members : List Nat} {parts : List Part}
    (row : s.HasParts members parts R) (apart : Disjoint A R) :
    s'.HasParts members parts R ∧ Disjoint B R :=
  ⟨row.congr (evolves.node_of_disjoint apart row.lt_size), evolves.disjoint apart row.lt_size⟩

theorem row (evolves : s.Evolves s' A B) {head : Nat} {parts : List Part}
    (row : s.HasRow head parts R) (apart : Disjoint A R) :
    s'.HasRow head parts R ∧ Disjoint B R :=
  ⟨row.congr (evolves.node_of_disjoint apart row.lt_size), evolves.disjoint apart row.lt_size⟩

theorem singles (evolves : s.Evolves s' A B) {members : List Nat} {parts : List Part}
    (row : s.HasSingles members parts R) (apart : Disjoint A R) :
    s'.HasSingles members parts R ∧ Disjoint B R :=
  ⟨row.congr (evolves.node_of_disjoint apart row.parts.lt_size),
    evolves.disjoint apart row.parts.lt_size⟩

end Evolves

end Store

/-! ### Builders within a region -/

namespace Builder

open Store

variable {α β : Type} {s : Store} {A A' B : Set Nat} {x : Builder α}
  {post : α → Store → Set Nat → Prop}

/-- Whether a builder comes to an answer and a store of a decidable property is found out by running
it, and likewise for its failure. -/
instance decidableExistsRun {P : α → Store → Prop} [∀ a s, Decidable (P a s)] (x : Builder α)
    (s : Store) : Decidable (∃ a s', x s = .ok a s' ∧ P a s') :=
  match x s with
  | .ok a s' =>
    decidable_of_iff (P a s') ⟨fun holds => ⟨a, s', rfl, holds⟩, fun ⟨_, _, same, holds⟩ => by
      cases same
      exact holds⟩
  | .error _ _ => isFalse nofun

instance decidableExistsFailure {P : Error → Store → Prop} [∀ error s, Decidable (P error s)]
    (x : Builder α) (s : Store) : Decidable (∃ error s', x s = .error error s' ∧ P error s') :=
  match x s with
  | .ok _ _ => isFalse nofun
  | .error error s' =>
    decidable_of_iff (P error s') ⟨fun holds => ⟨error, s', rfl, holds⟩,
      fun ⟨_, _, same, holds⟩ => by
        cases same
        exact holds⟩

/-- Run on the store, the builder succeeds; of the nodes that there are it changes only those of the
region, and `post` holds of its answer, the new store, and a region that came of the given one. -/
def Yields (x : Builder α) (s : Store) (A : Set Nat) (post : α → Store → Set Nat → Prop) : Prop :=
  ∃ a s' B, x s = .ok a s' ∧ s.Evolves s' A B ∧ post a s' B

namespace Yields

theorem pure {a : α} (subset : B ⊆ A) (holds : post a s B) :
    Yields (Pure.pure a : Builder α) s A post :=
  ⟨a, s, B, rfl, .refl s subset, holds⟩

theorem bind {f : α → Builder β} {post' : β → Store → Set Nat → Prop}
    (first : Yields x s A post) (within : A ⊆ A')
    (second : ∀ a s' B, s.Evolves s' A B → post a s' B → Yields (f a) s' (A' ∪ B) post') :
    Yields (x >>= f) s A' post' := by
  rcases first with ⟨a, s', B, ran, evolves, holds⟩
  rcases second a s' B evolves holds with ⟨b, s'', C, ran', evolves', holds'⟩
  exact ⟨b, s'', C, (bind_of_ok ran f).trans ran', (evolves.mono within).trans evolves', holds'⟩

/-- What is read off the store changes nothing. -/
theorem read {look : Store → Except Error α} {a : α} {f : α → Builder β}
    {post' : β → Store → Set Nat → Prop} (looked : look s = .ok a)
    (second : Yields (f a) s A post') : Yields (Builder.read look >>= f) s A post' := by
  rcases second with ⟨b, s', B, ran, evolves, holds⟩
  exact ⟨b, s', B, (bind_of_ok (read_of_ok looked) f).trans ran, evolves, holds⟩

theorem get {f : Store → Builder β} {post' : β → Store → Set Nat → Prop}
    (second : Yields (f s) s A post') : Yields (MonadState.get >>= f) s A post' := by
  rcases second with ⟨b, s', B, ran, evolves, holds⟩
  exact ⟨b, s', B, ran, evolves, holds⟩

theorem edit {change : Store → Except Error Store} {s' : Store}
    {post : Unit → Store → Set Nat → Prop} (changed : change s = .ok s')
    (evolves : s.Evolves s' A B) (holds : post () s' B) :
    Yields (Builder.edit change) s A post :=
  ⟨(), s', B, edit_of_ok changed, evolves, holds⟩

theorem edit_bind {change : Store → Except Error Store} {s' : Store} {f : Unit → Builder β}
    {post' : β → Store → Set Nat → Prop} (changed : change s = .ok s')
    (evolves : s.Evolves s' A B) (second : Yields (f ()) s' (A ∪ B) post') :
    Yields (Builder.edit change >>= f) s A post' := by
  rcases second with ⟨b, s'', C, ran, evolves', holds⟩
  exact ⟨b, s'', C, (bind_of_ok (edit_of_ok changed) f).trans ran, evolves.trans evolves', holds⟩

/-- What is left to be done may be judged in the store that the first steps have made. -/
theorem after {y : Builder α} {s' : Store} (ran : x s = y s') (evolves : s.Evolves s' A B)
    (rest : Yields y s' (A ∪ B) post) : Yields x s A post := by
  rcases rest with ⟨a, s'', C, ran', evolves', holds⟩
  exact ⟨a, s'', C, ran.trans ran', evolves.trans evolves', holds⟩

theorem mono (yields : Yields x s A post) (subset : A ⊆ A') : Yields x s A' post := by
  rcases yields with ⟨a, s', B, ran, evolves, holds⟩
  exact ⟨a, s', B, ran, evolves.mono subset, holds⟩

/-- What lies beside the region joins the region that comes of it. -/
theorem frame {R : Set Nat} {post' : α → Store → Set Nat → Prop} (yields : Yields x s A post)
    (within : A ∪ R ⊆ A')
    (holds : ∀ a s' B, s.Evolves s' A B → post a s' B → post' a s' (B ∪ R)) :
    Yields x s A' post' := by
  rcases yields with ⟨a, s', B, ran, evolves, given⟩
  rcases Set.union_subset_iff.1 within with ⟨within, beside⟩
  exact ⟨a, s', B ∪ R, ran, (evolves.mono within).union beside, holds a s' B evolves given⟩

theorem imp {post' : α → Store → Set Nat → Prop} (yields : Yields x s A post)
    (weaker : ∀ a s' B, s.Evolves s' A B → post a s' B → post' a s' B) : Yields x s A post' := by
  rcases yields with ⟨a, s', B, ran, evolves, holds⟩
  exact ⟨a, s', B, ran, evolves, weaker a s' B evolves holds⟩

end Yields

/-! ### Builders that may fail -/

variable {γ δ : Type} {r : Except Error γ}

/-- Run on the store, the builder comes to the given outcome: it yields an answer that is related to
that of the outcome, or it fails with the same error.  Either way, of the nodes that there are only
those of the region change. -/
def ComesTo (x : Builder α) (s : Store) (A : Set Nat) (r : Except Error γ)
    (post : α → γ → Store → Set Nat → Prop) : Prop :=
  match r with
  | .ok c => Yields x s A fun a => post a c
  | .error error => ∃ s', x s = .error error s' ∧ s.Evolves s' A ∅

namespace ComesTo

variable {post : α → γ → Store → Set Nat → Prop}

/-- What is left to be done may be judged in the store that the first steps have made. -/
theorem after {y : Builder α} {s' : Store} (ran : x s = y s') (evolves : s.Evolves s' A B)
    (rest : ComesTo y s' (A ∪ B) r post) : ComesTo x s A r post := by
  cases r with
  | ok c => exact Yields.after ran evolves rest
  | error error =>
      rcases rest with ⟨s'', failed, evolves'⟩
      exact ⟨s'', ran.trans failed, evolves.trans evolves'⟩

theorem mono (comes : ComesTo x s A r post) (subset : A ⊆ A') : ComesTo x s A' r post := by
  cases r with
  | ok c => exact Yields.mono comes subset
  | error error =>
      rcases comes with ⟨s', failed, evolves⟩
      exact ⟨s', failed, evolves.mono subset⟩

theorem bind {f : α → Builder β} {g : γ → Except Error δ} {post' : β → δ → Store → Set Nat → Prop}
    (first : ComesTo x s A r post) (within : A ⊆ A')
    (second : ∀ a c s' B, s.Evolves s' A B → post a c s' B →
      ComesTo (f a) s' (A' ∪ B) (g c) post') :
    ComesTo (x >>= f) s A' (r >>= g) post' := by
  cases r with
  | error error =>
      rcases first with ⟨s', ran, evolves⟩
      exact ⟨s', bind_of_error ran f, evolves.mono within⟩
  | ok c =>
      rcases first with ⟨a, s', B, ran, evolves, holds⟩
      have rest := second a c s' B evolves holds
      change ComesTo (x >>= f) s A' (g c) post'
      exact rest.after (bind_of_ok ran f) (evolves.mono within)

/-- A first step that cannot fail. -/
theorem after_yields {f : α → Builder β} {post' : α → Store → Set Nat → Prop}
    {post'' : β → γ → Store → Set Nat → Prop} (first : Yields x s A post') (within : A ⊆ A')
    (second : ∀ a s' B, s.Evolves s' A B → post' a s' B → ComesTo (f a) s' (A' ∪ B) r post'') :
    ComesTo (x >>= f) s A' r post'' := by
  rcases first with ⟨a, s', B, ran, evolves, holds⟩
  exact (second a s' B evolves holds).after (bind_of_ok ran f) (evolves.mono within)

theorem read {look : Store → Except Error α} {a : α} {f : α → Builder β}
    {post' : β → γ → Store → Set Nat → Prop} (looked : look s = .ok a)
    (second : ComesTo (f a) s A r post') : ComesTo (Builder.read look >>= f) s A r post' := by
  cases r with
  | ok c => exact Yields.read looked second
  | error error =>
      rcases second with ⟨s', ran, evolves⟩
      exact ⟨s', (bind_of_ok (read_of_ok looked) f).trans ran, evolves⟩

theorem get {f : Store → Builder β} {post' : β → γ → Store → Set Nat → Prop}
    (second : ComesTo (f s) s A r post') : ComesTo (MonadState.get >>= f) s A r post' := by
  cases r with
  | ok c => exact Yields.get second
  | error error => exact second

/-- A failure that leaves the store as it is. -/
theorem fails {error : Error} (failed : x s = .error error s) :
    ComesTo x s A (.error error) post :=
  ⟨s, failed, .refl s (Set.empty_subset A)⟩

theorem throw (error : Error) :
    ComesTo (MonadExcept.throw error : Builder α) s A (.error error) post :=
  fails rfl

theorem map {f : γ → δ} {post' : α → δ → Store → Set Nat → Prop} (comes : ComesTo x s A r post)
    (weaker : ∀ a c s' B, s.Evolves s' A B → post a c s' B → post' a (f c) s' B) :
    ComesTo x s A (r.map f) post' := by
  cases r with
  | error error => exact comes
  | ok c => exact Yields.imp comes fun a s' B evolves holds => weaker a c s' B evolves holds

theorem imp {post' : α → γ → Store → Set Nat → Prop} (comes : ComesTo x s A r post)
    (weaker : ∀ a c s' B, s.Evolves s' A B → post a c s' B → post' a c s' B) :
    ComesTo x s A r post' := by
  cases r with
  | error error => exact comes
  | ok c => exact Yields.imp comes fun a => weaker a c

/-- What is made of the answer is related to what is made of that of the outcome. -/
theorem map_answer {f : α → β} {g : γ → δ} {post' : β → δ → Store → Set Nat → Prop}
    (comes : ComesTo x s A r post)
    (weaker : ∀ a c s' B, post a c s' B → post' (f a) (g c) s' B) :
    ComesTo (x >>= fun a => pure (f a)) s A (r.map g) post' := by
  cases r with
  | error error =>
      rcases comes with ⟨s', failed, evolves⟩
      exact ⟨s', bind_of_error failed _, evolves⟩
  | ok c =>
      rcases comes with ⟨a, s', B, ran, evolves, holds⟩
      exact ⟨f a, s', B, bind_of_ok ran _, evolves, weaker a c s' B holds⟩

/-- The answer is related to that of the outcome at hand. -/
theorem known (comes : ComesTo x s A r post) :
    ComesTo x s A r fun a c s' B => r = .ok c ∧ post a c s' B := by
  cases r with
  | error error => exact comes
  | ok c => exact Yields.imp comes fun a s' B _ holds => ⟨rfl, holds⟩

/-- An outcome may be given by another one that shows the same. -/
theorem of_map_eq {r' : Except Error δ} {ε : Type} {f : γ → ε} {g : δ → ε}
    {post' : α → δ → Store → Set Nat → Prop} (comes : ComesTo x s A r post)
    (same : r'.map g = r.map f)
    (holds : ∀ a c d s' B, g d = f c → post a c s' B → post' a d s' B) :
    ComesTo x s A r' post' := by
  cases r with
  | error error =>
      cases r' with
      | error error' =>
          cases same
          exact comes
      | ok d => cases same
  | ok c =>
      cases r' with
      | error error' => cases same
      | ok d =>
          exact Yields.imp comes fun a s' B _ given => holds a c d s' B (Except.ok.inj same) given

end ComesTo

end Builder

end Entail.Ring
