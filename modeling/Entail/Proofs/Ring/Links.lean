import Mathlib.Data.List.Nodup
import Mathlib.Data.List.Perm.Subperm
import Entail.Ring.Edit
import Entail.Ring.Walk

/-!
# Rings as lists

The members of a ring, in the order of the forward links, form a list without
repetitions that may be rotated.  Splicing and taking out nodes acts on this
list, and leaves alone whatever the nodes hold as well as all other nodes.
-/

namespace Entail.Ring.Store

variable {s s' s'' : Store}

/-! ### Nodes -/

theorem getElem?_of_node {h : Nat} {n : Node} (found : s.node h = .ok n) :
    s.nodes[h]? = some n := by
  unfold node at found
  split at found
  · next isNode => rw [isNode, Except.ok.inj found]
  · contradiction

theorem lt_size_of_node {h : Nat} {n : Node} (found : s.node h = .ok n) : h < s.size :=
  (List.getElem?_eq_some_iff.1 (getElem?_of_node found)).1

theorem exists_node {h : Nat} (inRange : h < s.size) : ∃ n, s.node h = .ok n :=
  ⟨s.nodes.get ⟨h, inRange⟩, by rw [node, List.getElem?_eq_getElem inRange]; rfl⟩

/-- There are no more distinct handles than nodes. -/
theorem length_le_size {handles : List Nat} (distinct : handles.Nodup)
    (inRange : ∀ h ∈ handles, h < s.size) : handles.length ≤ s.size := by
  have subset : handles ⊆ List.range s.size := fun h listed => List.mem_range.2 (inRange h listed)
  simpa using (List.subperm_of_subset distinct subset).length_le

/-! ### Changing one node -/

section Modify

variable {h : Nat} {f : Node → Node}

theorem exists_modify (inRange : h < s.size) (f : Node → Node) :
    ∃ s', s.modify h f = .ok s' := by
  rcases exists_node inRange with ⟨n, found⟩
  exact ⟨_, by rw [modify, found]; rfl⟩

theorem modify_eq_ok (modified : s.modify h f = .ok s') :
    ∃ n, s.node h = .ok n ∧ s' = ⟨s.nodes.set h (f n)⟩ := by
  rw [modify] at modified
  cases found : s.node h with
  | error e =>
      rw [found] at modified
      contradiction
  | ok n =>
      rw [found] at modified
      cases modified
      exact ⟨n, rfl, rfl⟩

/-- A change that keeps its node changes nothing. -/
theorem modify_of_same {n : Node} (found : s.node h = .ok n) (same : f n = n) :
    s.modify h f = .ok s := by
  rcases List.getElem?_eq_some_iff.1 (getElem?_of_node found) with ⟨inRange, rfl⟩
  rw [modify, found]
  simp only [Except.map, same, List.set_getElem_self]

theorem size_of_modify (modified : s.modify h f = .ok s') : s'.size = s.size := by
  rcases modify_eq_ok modified with ⟨n, _, rfl⟩
  simp [size]

theorem node_of_modify_of_ne (modified : s.modify h f = .ok s') {x : Nat} (different : x ≠ h) :
    s'.node x = s.node x := by
  rcases modify_eq_ok modified with ⟨n, _, rfl⟩
  simp [node, List.getElem?_set_ne (Ne.symm different)]

theorem node_of_modify (modified : s.modify h f = .ok s') {n : Node} (found : s.node h = .ok n) :
    s'.node h = .ok (f n) := by
  rcases modify_eq_ok modified with ⟨n', found', rfl⟩
  have inRange := lt_size_of_node found
  rw [found] at found'
  cases found'
  rw [size] at inRange
  simp [node, inRange]

/-- What a change keeps of the changed node, it keeps of every node. -/
theorem map_node_of_modify {α : Type} (modified : s.modify h f = .ok s') (part : Node → α)
    (keeps : ∀ n, part (f n) = part n) (x : Nat) :
    (s'.node x).map part = (s.node x).map part := by
  by_cases same : x = h
  · subst same
    rcases modify_eq_ok modified with ⟨n, found, _⟩
    rw [node_of_modify modified found, found]
    exact congrArg Except.ok (keeps n)
  · rw [node_of_modify_of_ne modified same]

end Modify

theorem lt_size_of_next {h : Nat} {target : Option Nat} (found : s.next h = .ok target) :
    h < s.size := by
  unfold next at found
  cases isNode : s.node h with
  | ok n => exact lt_size_of_node isNode
  | error e =>
      rw [isNode] at found
      contradiction

theorem next_eq_of_node {h : Nat} (same : s'.node h = s.node h) : s'.next h = s.next h := by
  rw [next, next, same]

theorem prev_eq_of_node {h : Nat} (same : s'.node h = s.node h) : s'.prev h = s.prev h := by
  rw [prev, prev, same]

/-- The only change is in links of the given nodes. -/
structure Relinks (s s' : Store) (members : List Nat) : Prop where
  size : s'.size = s.size
  payload : ∀ x, s'.payload x = s.payload x
  negated : ∀ x, s'.negated x = s.negated x
  node : ∀ x, x ∉ members → s'.node x = s.node x

namespace Relinks

variable {members more : List Nat}

theorem trans (first : s.Relinks s' members) (second : s'.Relinks s'' members) :
    s.Relinks s'' members where
  size := second.size.trans first.size
  payload := fun x => (second.payload x).trans (first.payload x)
  negated := fun x => (second.negated x).trans (first.negated x)
  node := fun x outside => (second.node x outside).trans (first.node x outside)

theorem mono (relinks : s.Relinks s' members) (subset : members ⊆ more) :
    s.Relinks s' more :=
  ⟨relinks.size, relinks.payload, relinks.negated,
    fun x outside => relinks.node x fun isMember => outside (subset isMember)⟩

end Relinks

theorem relinks_of_modify {h : Nat} {f : Node → Node} (modified : s.modify h f = .ok s')
    (payload : ∀ n, (f n).payload = n.payload) (negated : ∀ n, (f n).negated = n.negated) :
    s.Relinks s' [h] :=
  ⟨size_of_modify modified, map_node_of_modify modified _ payload,
    map_node_of_modify modified _ negated,
    fun x outside => node_of_modify_of_ne modified (by simpa using outside)⟩

/-- The only change is that `b` is put behind `a`. -/
structure Linked (s s' : Store) (a b : Nat) : Prop where
  relinks : s.Relinks s' [a, b]
  next : s'.next a = .ok (some b)
  prev : s'.prev b = .ok (some a)
  otherNext : ∀ x, x ≠ a → s'.next x = s.next x
  otherPrev : ∀ x, x ≠ b → s'.prev x = s.prev x

/-- Two nodes can be made neighbours. -/
theorem exists_link {a b : Nat} (hasFirst : a < s.size) (hasSecond : b < s.size) :
    ∃ s', s.link (some a) (some b) = .ok s' ∧ s.Linked s' a b := by
  rcases exists_modify hasFirst fun n => { n with next := some b } with ⟨middle, forward⟩
  have hasSecond' : b < middle.size := by rwa [size_of_modify forward]
  rcases exists_modify hasSecond' fun n => { n with prev := some a } with ⟨s', backward⟩
  rcases exists_node hasFirst with ⟨n, found⟩
  rcases exists_node hasSecond' with ⟨n', found'⟩
  have nextKept := map_node_of_modify backward Node.next fun _ => rfl
  have prevKept := map_node_of_modify forward Node.prev fun _ => rfl
  have ran : s.link (some a) (some b) = .ok s' := by
    simp only [link, required, bind, Except.bind, forward, backward]
  have first : s.Relinks middle [a, b] :=
    (relinks_of_modify forward (fun _ => rfl) fun _ => rfl).mono
      (List.cons_subset_cons a (List.nil_subset [b]))
  have second : middle.Relinks s' [a, b] :=
    (relinks_of_modify backward (fun _ => rfl) fun _ => rfl).mono (List.subset_cons_self a [b])
  have nextOf : s'.next a = .ok (some b) := by
    apply (nextKept a).trans
    rw [node_of_modify forward found]
    rfl
  have prevOf : s'.prev b = .ok (some a) := by
    rw [prev, node_of_modify backward found']
    rfl
  have otherNext (x : Nat) (different : x ≠ a) : s'.next x = s.next x := by
    apply (nextKept x).trans
    rw [node_of_modify_of_ne forward different]
    rfl
  have otherPrev (x : Nat) (different : x ≠ b) : s'.prev x = s.prev x := by
    rw [prev, node_of_modify_of_ne backward different]
    exact prevKept x
  exact ⟨s', ran, first.trans second, nextOf, prevOf, otherNext, otherPrev⟩

/-! ### Paths -/

/-- Two nodes are neighbours, in this order. -/
def Joined (s : Store) (a b : Nat) : Prop :=
  s.next a = .ok (some b) ∧ s.prev b = .ok (some a)

/-- The forward links lead from `a` through the given nodes to `b`, and the backward links the same
way back. -/
def Path (s : Store) : Nat → List Nat → Nat → Prop
  | a, [], b => s.Joined a b
  | a, x :: rest, b => s.Joined a x ∧ s.Path x rest b

theorem path_append_iff {a b x : Nat} {left right : List Nat} :
    s.Path a (left ++ x :: right) b ↔ s.Path a left x ∧ s.Path x right b := by
  induction left generalizing a with
  | nil => rfl
  | cons y left ih => simp only [List.cons_append, Path, ih, and_assoc]

/-- A path is kept if its links are. -/
theorem Path.congr {a b : Nat} {rest : List Nat} (path : s.Path a rest b)
    (next : ∀ x ∈ a :: rest, s'.next x = s.next x)
    (prev : ∀ x ∈ rest ++ [b], s'.prev x = s.prev x) : s'.Path a rest b := by
  induction rest generalizing a with
  | nil =>
      exact ⟨(next a List.mem_cons_self).trans path.1, (prev b List.mem_cons_self).trans path.2⟩
  | cons x rest ih =>
      rcases path with ⟨⟨forward, backward⟩, path⟩
      constructor
      · exact ⟨(next a List.mem_cons_self).trans forward, (prev x List.mem_cons_self).trans backward⟩
      · apply ih path
        · exact fun y listed => next y (List.mem_cons_of_mem _ listed)
        · exact fun y listed => prev y (List.mem_cons_of_mem _ listed)

/-- The last link of a path may be turned to another node. -/
theorem Path.redirect {a b : Nat} {rest : List Nat} (path : s.Path a rest b)
    (distinct : (a :: rest).Nodup) :
    ∃ last ∈ a :: rest, s.Joined last b ∧ ∀ (s' : Store) (c : Nat), s'.Joined last c →
      (∀ x ∈ a :: rest, x ≠ last → s'.next x = s.next x) →
      (∀ x ∈ rest, s'.prev x = s.prev x) → s'.Path a rest c := by
  induction rest generalizing a with
  | nil => exact ⟨a, List.mem_cons_self, path, fun s' c joined _ _ => joined⟩
  | cons x rest ih =>
      rcases path with ⟨joined, path⟩
      rcases List.nodup_cons.1 distinct with ⟨isNew, distinct⟩
      rcases ih path distinct with ⟨last, listed, lastJoined, redirect⟩
      have different : a ≠ last := fun same => isNew (same ▸ listed)
      exists last, List.mem_cons_of_mem _ listed, lastJoined
      intro s' c joined' next prev
      constructor
      · exact ⟨(next a List.mem_cons_self different).trans joined.1,
          (prev x List.mem_cons_self).trans joined.2⟩
      · apply redirect s' c joined'
        · exact fun y listed => next y (List.mem_cons_of_mem _ listed)
        · exact fun y listed => prev y (List.mem_cons_of_mem _ listed)

theorem Path.lt_size {a b : Nat} {rest : List Nat} (path : s.Path a rest b) :
    ∀ x ∈ a :: rest, x < s.size := by
  induction rest generalizing a with
  | nil =>
      intro x listed
      rcases List.mem_singleton.1 listed with rfl
      exact lt_size_of_next path.1
  | cons y rest ih => exact List.forall_mem_cons.2 ⟨lt_size_of_next path.1.1, ih path.2⟩

/-! ### Rings -/

/-- The given nodes, in this order, are the members of a ring. -/
def IsRing (s : Store) : List Nat → Prop
  | [] => False
  | h :: rest => s.Path h rest h ∧ (h :: rest).Nodup

namespace IsRing

variable {h : Nat} {members rest left right : List Nat}

theorem nodup (ring : s.IsRing members) : members.Nodup := by
  cases members with
  | nil => exact ring.elim
  | cons h rest => exact ring.2

theorem lt_size (ring : s.IsRing members) : ∀ x ∈ members, x < s.size := by
  cases members with
  | nil => exact ring.elim
  | cons h rest => exact ring.1.lt_size

/-- A ring is kept if the links of its members are. -/
theorem congr_links (ring : s.IsRing members) (next : ∀ x ∈ members, s'.next x = s.next x)
    (prev : ∀ x ∈ members, s'.prev x = s.prev x) : s'.IsRing members := by
  cases members with
  | nil => exact ring
  | cons h rest =>
      constructor
      · apply ring.1.congr next
        intro x listed
        rcases List.mem_append.1 listed with isRest | isHead
        · exact prev x (List.mem_cons_of_mem _ isRest)
        · exact prev x (List.mem_cons.2 (.inl (List.mem_singleton.1 isHead)))
      · exact ring.2

theorem congr (ring : s.IsRing members) (node : ∀ x ∈ members, s'.node x = s.node x) :
    s'.IsRing members :=
  ring.congr_links (fun x listed => next_eq_of_node (node x listed))
    fun x listed => prev_eq_of_node (node x listed)

/-- A ring may be walked from any of its members. -/
theorem rotate (ring : s.IsRing (left ++ right)) : s.IsRing (right ++ left) := by
  cases left with
  | nil => simpa using ring
  | cons a left =>
      cases right with
      | nil => simpa using ring
      | cons b right =>
          have distinct : ((a :: left) ++ (b :: right)).Nodup := ring.2
          exact ⟨path_append_iff.2 (path_append_iff.1 ring.1).symm,
            List.nodup_append_comm.1 distinct⟩

end IsRing

/-- The node in front of the head is its last neighbour; the new node goes between them. -/
theorem exists_insertBefore {h new : Nat} {rest : List Nat} (ring : s.IsRing (h :: rest))
    (single : s.IsRing [new]) (isNew : new ∉ h :: rest) :
    ∃ s', s.insertBefore h new = .ok s' ∧ s'.IsRing (h :: rest ++ [new]) ∧
      s.Relinks s' (h :: rest ++ [new]) := by
  rcases ring with ⟨path, distinct⟩
  rcases path.redirect distinct with ⟨last, listed, ⟨_, lastPrev⟩, redirect⟩
  have lastIn := path.lt_size last listed
  have newIn := single.lt_size new List.mem_cons_self
  have headIn := path.lt_size h List.mem_cons_self
  rcases exists_link lastIn newIn with ⟨middle, ran, first⟩
  rw [← first.relinks.size] at newIn headIn
  rcases exists_link newIn headIn with ⟨s', ran', second⟩
  have notLast : last ≠ new := fun same => isNew (same ▸ listed)
  have notHead : new ≠ h := fun same => isNew (same ▸ List.mem_cons_self)
  have inserted : s.insertBefore h new = .ok s' := by
    simp only [insertBefore, lastPrev, bind, Except.bind, ran, ran']
  have joined : s'.Joined last new := by
    constructor
    · rw [second.otherNext last notLast, first.next]
    · rw [second.otherPrev new notHead, first.prev]
  have path' : s'.Path h rest new := by
    apply redirect s' new joined
    · intro x isMember other
      have notNew : x ≠ new := fun same => isNew (same ▸ isMember)
      rw [second.otherNext x notNew, first.otherNext x other]
    · intro x isRest
      have notNew : x ≠ new := fun same => isNew (same ▸ List.mem_cons_of_mem _ isRest)
      have other : x ≠ h := fun same => (List.nodup_cons.1 distinct).1 (same ▸ isRest)
      rw [second.otherPrev x other, first.otherPrev x notNew]
  have distinct' : ([new] ++ (h :: rest)).Nodup := List.nodup_cons.2 ⟨isNew, distinct⟩
  have relinks : s.Relinks s' (h :: rest ++ [new]) := by
    apply Relinks.trans
    · apply first.relinks.mono
      intro x isChanged
      rcases List.mem_pair.1 isChanged with rfl | rfl
      · exact List.mem_append_left _ listed
      · exact List.mem_append_right _ List.mem_cons_self
    · apply second.relinks.mono
      intro x isChanged
      rcases List.mem_pair.1 isChanged with rfl | rfl
      · exact List.mem_append_right _ List.mem_cons_self
      · exact List.mem_append_left _ List.mem_cons_self
  exact ⟨s', inserted, ⟨path_append_iff.2 ⟨path', second.next, second.prev⟩,
    List.nodup_append_comm.1 distinct'⟩, relinks⟩

/-- A node whose links both point to it is a ring by itself. -/
theorem exists_setLinks {h : Nat} (inRange : h < s.size) :
    ∃ s', s.setLinks h (some h) = .ok s' ∧ s'.IsRing [h] ∧ s.Relinks s' [h] := by
  rcases exists_modify inRange fun n => { n with prev := some h, next := some h } with
    ⟨s', changed⟩
  rcases exists_node inRange with ⟨n, found⟩
  have joined : s'.Joined h h := by
    constructor
    · rw [next, node_of_modify changed found]
      rfl
    · rw [prev, node_of_modify changed found]
      rfl
  exact ⟨s', changed, ⟨joined, List.nodup_singleton h⟩,
    relinks_of_modify changed (fun _ => rfl) fun _ => rfl⟩

/-- A node that is taken out of a ring of several becomes a ring of its own. -/
theorem exists_isolate {h : Nat} {rest : List Nat} (ring : s.IsRing (h :: rest))
    (several : rest ≠ []) :
    ∃ s', s.isolate h false = .ok s' ∧ s'.IsRing rest ∧ s'.IsRing [h] ∧
      s.Relinks s' (h :: rest) := by
  rcases List.exists_cons_of_ne_nil several with ⟨y, tail, rfl⟩
  rcases ring with ⟨⟨⟨headNext, _⟩, path⟩, distinct⟩
  rcases List.nodup_cons.1 distinct with ⟨isNew, distinct⟩
  rcases path.redirect distinct with ⟨last, listed, ⟨_, headPrev⟩, redirect⟩
  have headIn := lt_size_of_next headNext
  rcases exists_link (path.lt_size last listed) (path.lt_size y List.mem_cons_self) with
    ⟨middle, ran, linked⟩
  rw [← linked.relinks.size] at headIn
  rcases exists_setLinks headIn with ⟨s', ran', single, relinks⟩
  have notHead {x : Nat} (isMember : x ∈ y :: tail) : x ≠ h := fun same => isNew (same ▸ isMember)
  have nodeKept {x : Nat} (isMember : x ∈ y :: tail) : s'.node x = middle.node x :=
    relinks.node x (by simpa using notHead isMember)
  have isolated : s.isolate h false = .ok s' := by
    rcases exists_node (lt_size_of_next headNext) with ⟨n, found⟩
    have nextOf : n.next = some y := by
      rw [next, found] at headNext
      exact Except.ok.inj headNext
    have prevOf : n.prev = some last := by
      rw [prev, found] at headPrev
      exact Except.ok.inj headPrev
    have outside : (some last != some h) = true := by simpa using notHead listed
    simp only [isolate, bind, Except.bind, found, nextOf, prevOf, Option.isSome_some, outside,
      Bool.and_self, if_true, ran, Bool.false_eq_true, if_false, ran']
  have joined : s'.Joined last y := by
    constructor
    · rw [next_eq_of_node (nodeKept listed), linked.next]
    · rw [prev_eq_of_node (nodeKept List.mem_cons_self), linked.prev]
  have path' : s'.Path y tail y := by
    apply redirect s' y joined
    · intro x isMember other
      rw [next_eq_of_node (nodeKept isMember), linked.otherNext x other]
    · intro x isTail
      have other : x ≠ y := fun same => (List.nodup_cons.1 distinct).1 (same ▸ isTail)
      rw [prev_eq_of_node (nodeKept (List.mem_cons_of_mem _ isTail)), linked.otherPrev x other]
  have relinks' : s.Relinks s' (h :: y :: tail) := by
    apply Relinks.trans
    · apply linked.relinks.mono
      intro x isChanged
      rcases List.mem_pair.1 isChanged with rfl | rfl
      · exact List.mem_cons_of_mem _ listed
      · exact List.mem_cons_of_mem _ List.mem_cons_self
    · exact relinks.mono (List.cons_subset_cons h (List.nil_subset _))
  exact ⟨s', isolated, ⟨path', distinct⟩, single, relinks'⟩

/-- The ring of a head is put behind the last member of another ring. -/
theorem exists_extendFront {h k : Nat} {rest more : List Nat} (ring : s.IsRing (h :: rest))
    (ring' : s.IsRing (k :: more)) (apart : ∀ x ∈ h :: rest, x ∉ k :: more) :
    ∃ s', s.extendFront h k = .ok s' ∧ s'.IsRing (h :: rest ++ k :: more) ∧
      s.Relinks s' (h :: rest ++ k :: more) := by
  rcases ring with ⟨path, distinct⟩
  rcases ring' with ⟨path', distinct'⟩
  rcases path.redirect distinct with ⟨last, listed, ⟨_, headPrev⟩, redirect⟩
  rcases path'.redirect distinct' with ⟨last', listed', ⟨_, headPrev'⟩, redirect'⟩
  rcases exists_link (path.lt_size last listed) (path'.lt_size k List.mem_cons_self) with
    ⟨middle, ran, first⟩
  have lastIn : last' < middle.size := first.relinks.size ▸ path'.lt_size last' listed'
  have headIn : h < middle.size := first.relinks.size ▸ path.lt_size h List.mem_cons_self
  rcases exists_link lastIn headIn with ⟨s', ran', second⟩
  have spliced : s.extendFront h k = .ok s' := by
    simp only [extendFront, headPrev, headPrev', bind, Except.bind, ran, ran']
  have joined : s'.Joined last k := by
    constructor
    · rw [second.otherNext last fun same => apart _ listed (same ▸ listed'), first.next]
    · rw [second.otherPrev k fun same => apart h List.mem_cons_self (by simp [same]), first.prev]
  have joined' : s'.Joined last' h := ⟨second.next, second.prev⟩
  have before : s'.Path h rest k := by
    apply redirect s' k joined
    · intro x isMember other
      rw [second.otherNext x fun same => apart x isMember (same ▸ listed'),
        first.otherNext x other]
    · intro x isRest
      have isMember := List.mem_cons_of_mem h isRest
      have other : x ≠ h := fun same => (List.nodup_cons.1 distinct).1 (same ▸ isRest)
      rw [second.otherPrev x other,
        first.otherPrev x fun same => apart x isMember (same ▸ List.mem_cons_self)]
  have behind : s'.Path k more h := by
    apply redirect' s' h joined'
    · intro x isMember other
      rw [second.otherNext x other,
        first.otherNext x fun same => apart last listed (same ▸ isMember)]
    · intro x isMore
      have isMember := List.mem_cons_of_mem k isMore
      have other : x ≠ k := fun same => (List.nodup_cons.1 distinct').1 (same ▸ isMore)
      rw [second.otherPrev x fun same => apart h List.mem_cons_self (same ▸ isMember),
        first.otherPrev x other]
  have distinct'' : (h :: rest ++ k :: more).Nodup := by
    rw [List.nodup_append]
    exact ⟨distinct, distinct', fun x isFirst y isSecond same => apart x isFirst (same ▸ isSecond)⟩
  have relinks : s.Relinks s' (h :: rest ++ k :: more) :=
    (first.relinks.mono (by grind)).trans (second.relinks.mono (by grind))
  exact ⟨s', spliced, ⟨path_append_iff.2 ⟨before, behind⟩, distinct''⟩, relinks⟩

/-! ### Walks -/

/-- Walking a path lists its nodes. -/
theorem walkFrom_path {start a : Nat} {rest : List Nat} (path : s.Path a rest start)
    (isNew : start ∉ rest) {bound : Nat} (enough : rest.length < bound) :
    s.walkFrom start bound a = .ok (a :: rest) := by
  induction rest generalizing a bound with
  | nil =>
      cases bound with
      | zero => contradiction
      | succ bound => simp [walkFrom, path.1, bind, Except.bind, pure, Except.pure]
  | cons x rest ih =>
      cases bound with
      | zero => contradiction
      | succ bound =>
          rw [List.mem_cons, not_or] at isNew
          have tail := ih path.2 isNew.2 (Nat.lt_of_succ_lt_succ enough)
          have goesOn : x ≠ start := Ne.symm isNew.1
          simp [walkFrom, path.1.1, bind, Except.bind, pure, Except.pure, goesOn, tail]

/-- Walking a ring lists its members. -/
theorem walk_ring {h : Nat} {rest : List Nat} (ring : s.IsRing (h :: rest)) :
    s.walk h = .ok (h :: rest) := by
  have few : (h :: rest).length ≤ s.size := length_le_size ring.2 ring.lt_size
  rcases exists_node (ring.lt_size h List.mem_cons_self) with ⟨n, found⟩
  have walked := walkFrom_path ring.1 (List.nodup_cons.1 ring.2).1 (Nat.lt_of_succ_le few)
  simp only [walk, discard, found, Functor.mapConst, Function.comp, Except.map, bind, Except.bind,
    walked]

end Entail.Ring.Store
