import Entail.Proofs.Ring.Layout
import Entail.Ring.Builder

/-!
# One step of a builder

Adding a node and collapsing a connective each succeed where the rings are as
expected, and what they leave alone is told node by node.
-/

namespace Entail.Ring

variable {s s' s'' : Store}

namespace Builder

/-! ### Running builders -/

section Run

variable {α β : Type}

theorem bind_of_ok {x : Builder α} {a : α} (ran : x s = .ok a s') (f : α → Builder β) :
    (x >>= f) s = f a s' := by
  change EStateM.bind x f s = f a s'
  rw [EStateM.bind, ran]

theorem bind_of_error {x : Builder α} {error : Error} (ran : x s = .error error s')
    (f : α → Builder β) : (x >>= f) s = .error error s' := by
  change EStateM.bind x f s = .error error s'
  rw [EStateM.bind, ran]

theorem exists_of_bind {x : Builder α} {f : α → Builder β} {b : β}
    (ran : (x >>= f) s = .ok b s'') : ∃ a s', x s = .ok a s' ∧ f a s' = .ok b s'' := by
  cases first : x s with
  | ok a s' => exact ⟨a, s', rfl, (bind_of_ok first f).symm.trans ran⟩
  | error error s' => cases (bind_of_error first f).symm.trans ran

theorem read_of_ok {look : Store → Except Error α} {a : α} (looked : look s = .ok a) :
    read look s = .ok a s := by
  rw [read, looked]

theorem read_of_error {look : Store → Except Error α} {error : Error}
    (looked : look s = .error error) : read look s = .error error s := by
  rw [read, looked]

theorem edit_of_ok {change : Store → Except Error Store} (changed : change s = .ok s') :
    edit change s = .ok () s' := by
  rw [edit, changed]

theorem edit_of_error {change : Store → Except Error Store} {error : Error}
    (changed : change s = .error error) : edit change s = .error error s := by
  rw [edit, changed]

theorem get_eq : (get : Builder Store) s = .ok s s :=
  rfl

theorem add_eq (payload : Payload) (negated : Bool) :
    add payload negated s = .ok s.size (s.add payload negated) :=
  rfl

theorem takeOut_of_ok {neighbour : Store → Except Error (Store × Nat)} {h : Nat}
    (found : neighbour s = .ok (s', h)) : takeOut neighbour s = .ok h s' := by
  rw [takeOut, found]

end Run

end Builder

/-! ### Added nodes -/

namespace Store

section Add

variable (s : Store) (payload : Payload) (negated : Bool)

theorem size_add : (s.add payload negated).size = s.size + 1 := by
  simp [add, size]

theorem node_add_of_lt {x : Nat} (old : x < s.size) :
    (s.add payload negated).node x = s.node x := by
  rw [size] at old
  simp [node, add, List.getElem?_append_left old]

theorem node_add_size :
    (s.add payload negated).node s.size = .ok ⟨payload, negated, some s.size, some s.size⟩ := by
  simp [node, add, size]

theorem holds_add : (s.add payload negated).Holds s.size payload negated := by
  constructor
  · rw [Store.payload, node_add_size]
    rfl
  · rw [Store.negated, node_add_size]
    rfl

theorem isRing_add : (s.add payload negated).IsRing [s.size] := by
  have joined : (s.add payload negated).Joined s.size s.size := by
    constructor
    · rw [next, node_add_size]
      rfl
    · rw [prev, node_add_size]
      rfl
  exact ⟨joined, List.nodup_singleton _⟩

end Add

/-- The given node has become a group; neither links nor other nodes have changed. -/
structure Regroups (s s' : Store) (h head : Nat) : Prop where
  group : s'.Holds h (.group head) false
  size : s'.size = s.size
  next : ∀ x, s'.next x = s.next x
  prev : ∀ x, s'.prev x = s.prev x
  node : ∀ x, x ≠ h → s'.node x = s.node x

theorem exists_setGroup {h : Nat} (inRange : h < s.size) (head : Nat) :
    ∃ s₁ s₂, s.setPayload h (.group head) = .ok s₁ ∧ s₁.setNegated h false = .ok s₂ ∧
      s.Regroups s₂ h head := by
  rcases exists_modify inRange fun n => { n with payload := .group head } with ⟨s₁, first⟩
  rcases exists_modify (by rwa [size_of_modify first]) fun n => { n with negated := false } with
    ⟨s₂, second⟩
  rcases exists_node inRange with ⟨n, found⟩
  have changed := node_of_modify second (node_of_modify first found)
  have holds : s₂.Holds h (.group head) false := by
    constructor
    · rw [payload, changed]
      rfl
    · rw [negated, changed]
      rfl
  have size : s₂.size = s.size := (size_of_modify second).trans (size_of_modify first)
  have kept {α : Type} (part : Node → α)
      (keeps : ∀ n : Node, part { n with payload := .group head } = part n)
      (keeps' : ∀ n : Node, part { n with negated := false } = part n) (x : Nat) :
      (s₂.node x).map part = (s.node x).map part :=
    (map_node_of_modify second part keeps' x).trans (map_node_of_modify first part keeps x)
  have node (x : Nat) (different : x ≠ h) : s₂.node x = s.node x := by
    rw [node_of_modify_of_ne second different, node_of_modify_of_ne first different]
  exact ⟨s₁, s₂, first, second, holds, size, kept Node.next (fun _ => rfl) fun _ => rfl,
    kept Node.prev (fun _ => rfl) fun _ => rfl, node⟩

/-! ### Collapsed connectives -/

/-- The connective node `op` has become a group that owns its two neighbours and a new node between
them. -/
structure Collapsed (s s' : Store) (left : List Nat) (x op y : Nat) (right : List Nat)
    (c : Connective) : Prop where
  outer : s'.IsRing (left ++ op :: right)
  inner : s'.IsRing [x, s.size, y]
  group : s'.Holds op (.group x) false
  link : s'.Holds s.size (.link c) false
  size : s'.size = s.size + 1
  payload : ∀ h, h < s.size → h ≠ op → s'.payload h = s.payload h
  negated : ∀ h, h < s.size → h ≠ op → s'.negated h = s.negated h
  node : ∀ h, h < s.size → h ∉ left ++ x :: op :: y :: right → s'.node h = s.node h

/-- In a list without repetitions, two members are not among the others. -/
theorem not_mem_of_nodup {left right : List Nat} {x op y : Nat}
    (distinct : (left ++ x :: op :: y :: right).Nodup) :
    x ≠ y ∧ ∀ h ∈ left ++ op :: right, h ≠ x ∧ h ≠ y := by
  rw [List.nodup_append] at distinct
  simp only [List.nodup_cons, List.mem_cons, not_or] at distinct
  rcases distinct with ⟨_, ⟨⟨notLink, notLast, notRight⟩, ⟨notLast', _⟩, notInRight, _⟩, apart⟩
  constructor
  · exact notLast
  · intro h listed
    simp only [List.mem_append, List.mem_cons] at listed
    rcases listed with isLeft | rfl | isRight
    · exact ⟨apart h isLeft x (.inl rfl), apart h isLeft y (.inr (.inr (.inl rfl)))⟩
    · exact ⟨Ne.symm notLink, notLast'⟩
    · exact ⟨fun same => notRight (same ▸ isRight), fun same => notInRight (same ▸ isRight)⟩

/-- The neighbours of a connective are taken out of the ring. -/
theorem exists_removeNeighbours {left right : List Nat} {x op y : Nat}
    (ring : s.IsRing (left ++ x :: op :: y :: right)) :
    ∃ s₁ s₂, s.removeFront op false = .ok (s₁, x) ∧ s₁.removeBack op false = .ok (s₂, y) ∧
      s₂.IsRing (left ++ op :: right) ∧ s₂.IsRing [x] ∧ s₂.IsRing [y] ∧
      s.Relinks s₂ (left ++ x :: op :: y :: right) := by
  rcases not_mem_of_nodup ring.nodup with ⟨different, apart⟩
  have fromLeft : s.IsRing (x :: op :: y :: (right ++ left)) := ring.rotate
  have front : s.prev op = .ok (some x) := fromLeft.1.1.2
  rcases exists_isolate fromLeft (List.cons_ne_nil _ _) with
    ⟨s₁, isolated, fromLink, single, relinks⟩
  have removed : s.removeFront op false = .ok (s₁, x) := by
    simp only [removeFront, front, required, bind, Except.bind, isolated]
    rfl
  have back : s₁.next op = .ok (some y) := fromLink.1.1.1
  have linkFirst : s₁.IsRing ([op] ++ y :: (right ++ left)) := fromLink
  have fromRight : s₁.IsRing (y :: (right ++ left ++ [op])) := linkFirst.rotate
  rcases exists_isolate fromRight (by simp) with ⟨s₂, isolated', outer, single', relinks'⟩
  have removed' : s₁.removeBack op false = .ok (s₂, y) := by
    simp only [removeBack, back, required, bind, Except.bind, isolated']
    rfl
  rw [List.append_assoc] at outer
  have outer' : s₂.IsRing (left ++ op :: right) := by simpa using outer.rotate
  have singleKept : s₂.IsRing [x] := by
    apply single.congr
    intro h listed
    apply relinks'.node
    rcases List.mem_singleton.1 listed with rfl
    intro listed
    rcases List.mem_cons.1 listed with same | listed
    · exact different same
    · exact (apart h (by simpa [or_comm, or_left_comm, or_assoc] using listed)).1 rfl
  have relinks'' : s.Relinks s₂ (left ++ x :: op :: y :: right) := by
    apply Relinks.trans
    · apply relinks.mono
      intro h
      simp only [List.mem_cons, List.mem_append]
      tauto
    · apply relinks'.mono
      intro h
      simp only [List.mem_cons, List.mem_append, List.not_mem_nil, or_false]
      tauto
  exact ⟨s₁, s₂, removed, removed', outer', singleKept, single', relinks''⟩

/-- Three single nodes become one ring. -/
theorem exists_linkThree {x m y : Nat} (first : s.IsRing [x]) (second : s.IsRing [m])
    (third : s.IsRing [y]) (distinct : [x, m, y].Nodup) :
    ∃ s', s.linkAll x [m, y] = .ok s' ∧ s'.IsRing [x, m, y] ∧ s.Relinks s' [x, m, y] := by
  simp only [List.nodup_cons, List.mem_cons, List.not_mem_nil, or_false, not_or] at distinct
  rcases distinct with ⟨⟨notMiddle, notLast⟩, notLast', _⟩
  rcases exists_insertBefore first second (by simpa using Ne.symm notMiddle) with
    ⟨s₁, inserted, two, relinks⟩
  have isNew : y ∉ [x, m] := by simp [Ne.symm notLast, Ne.symm notLast']
  have lastKept : s₁.IsRing [y] := by
    apply third.congr
    intro h listed
    apply relinks.node
    rcases List.mem_singleton.1 listed with rfl
    exact isNew
  rcases exists_insertBefore two lastKept isNew with ⟨s₂, inserted', three, relinks'⟩
  have linked : s.linkAll x [m, y] = .ok s₂ := by
    simp only [linkAll, List.foldlM, inserted, inserted', bind, Except.bind, pure, Except.pure]
  exact ⟨s₂, linked, three, (relinks.mono (List.subset_append_left [x, m] [y])).trans relinks'⟩

/-- A node has been added, and the only other change is in links of the given nodes. -/
structure Grows (s s' : Store) (members : List Nat) : Prop where
  size : s'.size = s.size + 1
  payload : ∀ h, h < s.size → s'.payload h = s.payload h
  negated : ∀ h, h < s.size → s'.negated h = s.negated h
  node : ∀ h, h < s.size → h ∉ members → s'.node h = s.node h

theorem grows_add (s : Store) (payload : Payload) (negated : Bool) (members : List Nat) :
    s.Grows (s.add payload negated) members where
  size := s.size_add payload negated
  payload := by
    intro h old
    rw [Store.payload, Store.payload, s.node_add_of_lt payload negated old]
  negated := by
    intro h old
    rw [Store.negated, Store.negated, s.node_add_of_lt payload negated old]
  node := fun _ old _ => s.node_add_of_lt payload negated old

theorem Grows.relinks {members : List Nat} (grows : s.Grows s' members)
    (relinks : s'.Relinks s'' members) : s.Grows s'' members where
  size := relinks.size.trans grows.size
  payload := fun h old => (relinks.payload h).trans (grows.payload h old)
  negated := fun h old => (relinks.negated h).trans (grows.negated h old)
  node := fun h old outside => (relinks.node h outside).trans (grows.node h old outside)

/-- A new connective node joins two single nodes to a ring. -/
theorem exists_joinNew {x y : Nat} (first : s.IsRing [x]) (second : s.IsRing [y])
    (different : x ≠ y) (c : Connective) :
    ∃ s', (s.add (.link c) false).linkAll x [s.size, y] = .ok s' ∧ s'.IsRing [x, s.size, y] ∧
      s'.Holds s.size (.link c) false ∧ s.Grows s' [x, s.size, y] := by
  have added {h : Nat} (old : h < s.size) : (s.add (.link c) false).node h = s.node h :=
    s.node_add_of_lt _ _ old
  have first' : (s.add (.link c) false).IsRing [x] :=
    first.congr fun h listed => added (first.lt_size h listed)
  have second' : (s.add (.link c) false).IsRing [y] :=
    second.congr fun h listed => added (second.lt_size h listed)
  have firstIn := first.lt_size x List.mem_cons_self
  have secondIn := second.lt_size y List.mem_cons_self
  have distinct : [x, s.size, y].Nodup := by
    simp [Nat.ne_of_lt firstIn, Nat.ne_of_gt secondIn, different]
  rcases exists_linkThree first' (s.isRing_add (.link c) false) second' distinct with
    ⟨s', linked, ring, relinks⟩
  have holds : s'.Holds s.size (.link c) false :=
    (s.holds_add (.link c) false).congr (relinks.payload _) (relinks.negated _)
  exact ⟨s', linked, ring, holds, (s.grows_add _ _ _).relinks relinks⟩

end Store

/-- Collapsing a connective of a ring succeeds; if its left neighbour was the head, it becomes the
head itself. -/
theorem Builder.exists_collapse {left right : List Nat} {x op y : Nat} {c : Connective}
    {negated : Bool} (ring : s.IsRing (left ++ x :: op :: y :: right))
    (holds : s.Holds op (.link c) negated) (head : Nat) :
    ∃ s', collapse head op s = .ok (if x = head then op else head) s' ∧
      s.Collapsed s' left x op y right c := by
  rcases Store.not_mem_of_nodup ring.nodup with ⟨different, apart⟩
  rcases Store.exists_removeNeighbours ring with
    ⟨s₁, s₂, removed, removed', outer, first, second, relinks⟩
  have connective : s₂.connective op = .ok c :=
    (holds.congr (relinks.payload op) (relinks.negated op)).connective
  rcases Store.exists_joinNew first second different c with ⟨s₃, joined, inner, link, grows⟩
  have opIn := outer.lt_size op (by simp)
  have opIn' : op < s₃.size := by
    rw [grows.size]
    exact Nat.lt_succ_of_lt opIn
  rcases Store.exists_setGroup opIn' x with ⟨s₄, s₅, setPayload, setNegated, regroups⟩
  have ran : collapse head op s = .ok (if x = head then op else head) s₅ := by
    rw [collapse, bind_of_ok (takeOut_of_ok removed), bind_of_ok (takeOut_of_ok removed'),
      bind_of_ok (read_of_ok connective), bind_of_ok (add_eq _ _),
      bind_of_ok (edit_of_ok joined), bind_of_ok (edit_of_ok setPayload),
      bind_of_ok (edit_of_ok setNegated)]
    rfl
  rcases grows with ⟨size, payload, negated, node⟩
  rw [relinks.size] at inner link size payload negated node opIn
  have nodeKept {h : Nat} (old : h < s.size) (others : h ≠ x ∧ h ≠ y) : s₃.node h = s₂.node h :=
    node h old (by simp [others, Nat.ne_of_lt old])
  have outerKept : s₃.IsRing (left ++ op :: right) := by
    apply outer.congr
    intro h listed
    exact nodeKept (relinks.size ▸ outer.lt_size h listed) (apart h listed)
  have collapsed : s.Collapsed s₅ left x op y right c := by
    constructor
    case outer => exact outerKept.congr_links (fun h _ => regroups.next h) fun h _ => regroups.prev h
    case inner => exact inner.congr_links (fun h _ => regroups.next h) fun h _ => regroups.prev h
    case group => exact regroups.group
    case link => exact link.congr_node (regroups.node s.size (Nat.ne_of_gt opIn))
    case size => rw [regroups.size, size]
    case payload =>
      intro h old notOp
      rw [Store.payload, regroups.node h notOp, ← Store.payload, payload h old, relinks.payload]
    case negated =>
      intro h old notOp
      rw [Store.negated, regroups.node h notOp, ← Store.negated, negated h old, relinks.negated]
    case node =>
      intro h old outside
      simp only [List.mem_append, List.mem_cons, not_or] at outside
      rw [regroups.node h outside.2.2.1, nodeKept old ⟨outside.2.1, outside.2.2.2.1⟩, relinks.node]
      simp [outside]
  exact ⟨s₅, ran, collapsed⟩

/-- A pushed node is the last member of its ring. -/
theorem Builder.exists_push {h : Nat} {rest : List Nat} (ring : s.IsRing (h :: rest))
    (payload : Payload) (negated : Bool) :
    ∃ s', push h payload negated s = .ok () s' ∧ s'.IsRing (h :: rest ++ [s.size]) ∧
      s'.Holds s.size payload negated ∧ s.Grows s' (h :: rest ++ [s.size]) := by
  have added : (s.add payload negated).IsRing (h :: rest) :=
    ring.congr fun x listed => s.node_add_of_lt payload negated (ring.lt_size x listed)
  have isNew : s.size ∉ h :: rest := fun listed => Nat.lt_irrefl _ (ring.lt_size _ listed)
  rcases Store.exists_insertBefore added (s.isRing_add payload negated) isNew with
    ⟨s', inserted, ring', relinks⟩
  have pushed : push h payload negated s = .ok () s' := by
    rw [push, bind_of_ok (add_eq payload negated)]
    exact edit_of_ok inserted
  have holds : s'.Holds s.size payload negated :=
    (s.holds_add payload negated).congr (relinks.payload _) (relinks.negated _)
  exact ⟨s', pushed, ring', holds, (s.grows_add payload negated _).relinks relinks⟩

end Entail.Ring
