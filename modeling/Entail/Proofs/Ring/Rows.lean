import Entail.Formula.Precedence
import Entail.Proofs.Ring.Builder

/-!
# Layouts of rows

A ring whose connectives are not grouped yet holds a row: its members are
operands and connectives in turn.  The members of a row are new, as are the
nodes that a collapse puts below them; what its slots held before lies in old
nodes, which the row may share with others.
-/

namespace Entail.Ring

/-! ### Added nodes -/

/-- The given nodes are those that have been added to `base`, which has not changed otherwise. -/
structure Store.Adds (base s : Store) (handles : List Nat) : Prop where
  le : base.size ≤ s.size
  distinct : handles.Nodup
  mem_iff : ∀ h, h ∈ handles ↔ base.size ≤ h ∧ h < s.size
  node : ∀ h, h < base.size → s.node h = base.node h

namespace Store.Adds

variable {base s s' : Store} {handles handles' : List Nat}

theorem nil (base : Store) : base.Adds base [] where
  le := Nat.le_refl _
  distinct := List.nodup_nil
  mem_iff := by
    intro h
    simp
  node := fun _ _ => rfl

theorem perm (adds : base.Adds s handles) (perm : handles'.Perm handles) :
    base.Adds s handles' where
  le := adds.le
  distinct := perm.nodup_iff.2 adds.distinct
  mem_iff := fun h => perm.mem_iff.trans (adds.mem_iff h)
  node := adds.node

theorem append (first : base.Adds s handles) (second : s.Adds s' handles') :
    base.Adds s' (handles ++ handles') where
  le := Nat.le_trans first.le second.le
  distinct := by
    have apart : ∀ h ∈ handles, ∀ other ∈ handles', h ≠ other := by
      rintro h isFirst _ isSecond rfl
      exact Nat.not_le.2 ((first.mem_iff h).1 isFirst).2 ((second.mem_iff h).1 isSecond).1
    exact List.nodup_append.2 ⟨first.distinct, second.distinct, apart⟩
  mem_iff := by
    intro h
    rw [List.mem_append, first.mem_iff, second.mem_iff]
    have := first.le
    have := second.le
    omega
  node := fun h old => (second.node h (Nat.lt_of_lt_of_le old first.le)).trans (first.node h old)

/-- One more node is added. -/
theorem cons (adds : base.Adds s handles) (size : s'.size = s.size + 1)
    (node : ∀ h, h < base.size → s'.node h = s.node h) : base.Adds s' (s.size :: handles) where
  le := size ▸ Nat.le_succ_of_le adds.le
  distinct := by
    rw [List.nodup_cons, adds.mem_iff]
    exact ⟨fun isOld => Nat.lt_irrefl _ isOld.2, adds.distinct⟩
  mem_iff := by
    intro h
    rw [List.mem_cons, adds.mem_iff, size]
    have := adds.le
    omega
  node := fun h old => (node h old).trans (adds.node h old)

theorem lt_size (adds : base.Adds s handles) {h : Nat} (listed : h ∈ handles) : h < s.size :=
  ((adds.mem_iff h).1 listed).2

theorem not_mem (adds : base.Adds s handles) {h : Nat} (old : h < base.size) : h ∉ handles :=
  fun listed => Nat.not_le.2 old ((adds.mem_iff h).1 listed).1

theorem size_eq (adds : base.Adds s handles) : s.size = base.size + handles.length := by
  have same : handles.Perm (List.range' base.size (s.size - base.size)) := by
    refine (List.perm_ext_iff_of_nodup adds.distinct List.nodup_range').2 fun h => ?_
    have grown := adds.le
    rw [adds.mem_iff, List.mem_range'_1]
    omega
  have grown := adds.le
  rw [same.length_eq, List.length_range']
  omega

end Store.Adds

/-! ### Members of rows -/

/-- A member of a row: an operand, or a connective between two. -/
inductive Member
  | operand (x : OperandLayout)
  | link (handle : Nat) (c : Connective)

namespace Member

/-- The node of a member. -/
def handle : Member → Nat
  | operand x => x.handle
  | link handle _ => handle

/-- The nodes that a member owns through its own node. -/
def owned : Member → List Nat
  | operand x => x.owned
  | link _ _ => []

/-- The connective that a member is. -/
def link? : Member → Option Connective
  | operand _ => none
  | link _ c => some c

/-- A member lies in its nodes. -/
inductive Laid (s : Store) : Member → Prop
  | operand {x : OperandLayout} : x.Laid s → Laid s (.operand x)
  | link {h : Nat} {c : Connective} : s.Holds h (.link c) false → Laid s (.link h c)

variable {s s' : Store} {m : Member}

/-- A member stays laid out while what its node holds and the nodes that it owns do not change. -/
theorem Laid.congr (laid : m.Laid s) (payload : s'.payload m.handle = s.payload m.handle)
    (negated : s'.negated m.handle = s.negated m.handle)
    (owned : ∀ h ∈ m.owned, s'.node h = s.node h) : m.Laid s' := by
  cases laid with
  | operand laid => exact .operand (laid.congr payload negated owned)
  | link holds => exact .link (holds.congr payload negated)

end Member

/-- A connective and the operand behind it. -/
structure LinkLayout where
  handle : Nat
  connective : Connective
  operand : OperandLayout

/-- The first operand of a row, and the connectives with the operands behind it. -/
structure RowLayout where
  first : OperandLayout
  rest : List LinkLayout

namespace RowLayout

/-- The first member of a row. -/
def head (row : RowLayout) : Nat :=
  row.first.handle

/-- The members behind the first operand of a row. -/
def tail (rest : List LinkLayout) : List Member :=
  rest.flatMap fun link => [.link link.handle link.connective, .operand link.operand]

/-- The members of a row in order. -/
def members (row : RowLayout) : List Member :=
  .operand row.first :: tail row.rest

/-- The members of a row and the nodes that they own. -/
def handles (row : RowLayout) : List Nat :=
  row.members.map Member.handle ++ row.members.flatMap Member.owned

/-- The row of operands that is laid out. -/
def row (row : RowLayout) : Row Operand :=
  ⟨row.first.operand, row.rest.map fun link => (link.connective, link.operand.operand)⟩

/-- A row lies in its nodes. -/
structure Laid (s : Store) (row : RowLayout) : Prop where
  ring : s.IsRing (row.members.map Member.handle)
  member : ∀ m ∈ row.members, m.Laid s

/-- A row lies in the nodes that have been added to `base`, its members among them, and in the given
old ones. -/
structure Built (base s : Store) (old : List Nat) (row : RowLayout) : Prop where
  laid : row.Laid s
  exists_new : ∃ new, base.Adds s new ∧ row.handles.Perm (new ++ old)
  isNew : ∀ m ∈ row.members, base.size ≤ m.handle
  isOld : ∀ h ∈ old, h < base.size

variable {base s : Store}

theorem tail_cons (link : LinkLayout) (rest : List LinkLayout) :
    tail (link :: rest) =
      .link link.handle link.connective :: .operand link.operand :: tail rest :=
  rfl

theorem head_of_members {row : RowLayout} {m : Member} {rest : List Member}
    (members : row.members = m :: rest) : row.head = m.handle := by
  rw [RowLayout.members, List.cons.injEq] at members
  rw [← members.1]
  rfl

theorem map_handle_of_members {row : RowLayout} {left right : List Member} {y z : OperandLayout}
    {op : Nat} {c : Connective}
    (split : row.members = left ++ .operand y :: .link op c :: .operand z :: right) :
    row.members.map Member.handle =
      left.map Member.handle ++ y.handle :: op :: z.handle :: right.map Member.handle := by
  simp [split, Member.handle]

theorem length_links (row : RowLayout) :
    (row.members.filter fun m => m.link?.isSome).length = row.rest.length := by
  rcases row with ⟨x, rest⟩
  induction rest with
  | nil => rfl
  | cons link rest ih => exact congrArg Nat.succ ih

/-- A merge puts three members into a group that stands where they stood. -/
theorem exists_merge {c : Connective} {x : OperandLayout} {rest : List LinkLayout}
    {shorter : Row Operand}
    (merged : Row.mergeFirst? Row.enclose c x.operand
      (rest.map fun link => (link.connective, link.operand.operand)) = some shorter) :
    ∃ left y op z right,
      .operand x :: tail rest = left ++ .operand y :: .link op c :: .operand z :: right ∧
      (∀ m ∈ left, m.link? ≠ some c) ∧
      ∀ new, ∃ row : RowLayout,
        row.members = left ++ .operand (.group op false (.pair y new c z)) :: right ∧
        row.row = shorter := by
  induction rest generalizing x shorter with
  | nil => contradiction
  | cons link rest ih =>
      rw [List.map_cons, Row.mergeFirst?] at merged
      split at merged
      · next same =>
          subst same
          cases merged
          exact ⟨[], x, link.handle, link.operand, tail rest, rfl, List.forall_mem_nil _,
            fun new => ⟨⟨.group link.handle false (.pair x new link.connective link.operand), rest⟩,
              rfl, rfl⟩⟩
      · next different =>
          rcases Option.map_eq_some_iff.1 merged with ⟨shorter, mergedTail, rfl⟩
          rcases ih mergedTail with ⟨left, y, op, z, right, split, before, build⟩
          have split' : .operand x :: tail (link :: rest) =
              (.operand x :: .link link.handle link.connective :: left) ++
                .operand y :: .link op c :: .operand z :: right := by
            rw [tail_cons, split]
            rfl
          have before' : ∀ m ∈ .operand x :: .link link.handle link.connective :: left,
              m.link? ≠ some c := by
            rw [List.forall_mem_cons, List.forall_mem_cons]
            exact ⟨(Option.some_ne_none c).symm, fun same => different (Option.some.inj same),
              before⟩
          exists _, y, op, z, right, split', before'
          intro new
          rcases build new with ⟨row, members, rfl⟩
          exists ⟨x, ⟨link.handle, link.connective, row.first⟩ :: row.rest⟩
          constructor
          · rw [RowLayout.members, tail_cons, List.cons_append, List.cons_append, ← members]
            rfl
          · rfl

/-- If no link of a connective can be merged, there is none. -/
theorem link?_ne_of_mergeFirst?_eq_none {c : Connective} {x : OperandLayout}
    {rest : List LinkLayout}
    (missing : Row.mergeFirst? Row.enclose c x.operand
      (rest.map fun link => (link.connective, link.operand.operand)) = none) :
    ∀ m ∈ Member.operand x :: tail rest, m.link? ≠ some c := by
  induction rest generalizing x with
  | nil =>
      intro m listed
      rcases List.mem_singleton.1 listed with rfl
      exact (Option.some_ne_none c).symm
  | cons link rest ih =>
      rw [List.map_cons, Row.mergeFirst?] at missing
      split at missing
      · contradiction
      · next different =>
          rw [tail_cons, List.forall_mem_cons, List.forall_mem_cons]
          exact ⟨(Option.some_ne_none c).symm, fun same => different (Option.some.inj same),
            ih (Option.map_eq_none_iff.1 missing)⟩

/-! ### Collapses of rows -/

section Merge

variable {row row' : RowLayout} {left right : List Member} {y z : OperandLayout} {op new : Nat}
  {c : Connective}

/-- If the left neighbour of a merged connective was the head, its group is the new one. -/
theorem head_merge (split : row.members = left ++ .operand y :: .link op c :: .operand z :: right)
    (grouped : row'.members = left ++ .operand (.group op false (.pair y new c z)) :: right)
    (distinct : (row.members.map Member.handle).Nodup) :
    (if y.handle = row.head then op else row.head) = row'.head := by
  cases left with
  | nil =>
      rw [head_of_members split, head_of_members grouped]
      exact if_pos rfl
  | cons m left =>
      rw [head_of_members split, head_of_members grouped]
      apply if_neg
      intro same
      rw [split] at distinct
      exact (List.nodup_cons.1 distinct).1 (List.mem_map.2 ⟨.operand y, by simp, same⟩)

/-- The nodes of the row after a merge: those before, and a new one. -/
theorem perm_handles_merge
    (split : row.members = left ++ .operand y :: .link op c :: .operand z :: right)
    (grouped : row'.members = left ++ .operand (.group op false (.pair y new c z)) :: right) :
    row'.handles.Perm (new :: row.handles) := by
  rw [List.perm_iff_count, handles, handles, split, grouped]
  intro h
  simp only [List.map_append, List.map_cons, List.flatMap_append, List.flatMap_cons,
    List.count_append, List.count_cons, Member.handle, Member.owned, OperandLayout.handle,
    OperandLayout.owned, RingLayout.handles, List.count_nil]
  omega

end Merge

end RowLayout

/-- A member but the collapsed connective stays laid out if the nodes that it owns are not among
the members. -/
theorem Member.Laid.collapsed {s s' : Store} {left right : List Nat} {x op y : Nat}
    {c : Connective} {m : Member} (laid : m.Laid s) (frame : s.Collapsed s' left x op y right c)
    (inRange : m.handle < s.size) (different : m.handle ≠ op)
    (owned : ∀ h ∈ m.owned, h < s.size ∧ h ∉ left ++ x :: op :: y :: right) : m.Laid s' := by
  apply laid.congr
  · exact frame.payload _ inRange different
  · exact frame.negated _ inRange different
  · exact fun h isOwned => frame.node h (owned h isOwned).1 (owned h isOwned).2

theorem Member.Laid.lt_size_owned {s : Store} {m : Member} (laid : m.Laid s) :
    ∀ h ∈ m.owned, h < s.size := by
  cases laid with
  | operand laid => exact laid.lt_size_owned
  | link => exact List.forall_mem_nil _

namespace RowLayout.Built

variable {base s : Store} {old : List Nat} {row : RowLayout}

/-- No member is a node that a member owns. -/
theorem apart (built : row.Built base s old) :
    ∀ h ∈ row.members.map Member.handle, h ∉ row.members.flatMap Member.owned := by
  intro h isMember isOwned
  rcases built.exists_new with ⟨new, adds, perm⟩
  rcases List.mem_map.1 isMember with ⟨m, listed, rfl⟩
  have notOld : new.count m.handle = (new ++ old).count m.handle := by
    rw [List.count_append, List.count_eq_zero.2 fun isOld =>
      Nat.not_le.2 (built.isOld _ isOld) (built.isNew m listed), Nat.add_zero]
  have once := List.nodup_iff_count_le_one.1 adds.distinct m.handle
  rw [notOld, ← perm.count_eq, RowLayout.handles, List.count_append] at once
  have first := List.count_pos_iff.2 isMember
  have second := List.count_pos_iff.2 isOwned
  omega

section Collapse

variable {row' : RowLayout} {left right : List Member} {y z : OperandLayout} {op new : Nat}
  {c : Connective} {s' : Store}

/-- All members of a row but the collapsed connective stay laid out. -/
theorem laid_of_collapsed (built : row.Built base s old)
    (split : row.members = left ++ .operand y :: .link op c :: .operand z :: right)
    (frame : s.Collapsed s' (left.map Member.handle) y.handle op z.handle
      (right.map Member.handle) c) :
    ∀ m ∈ left ++ .operand y :: .operand z :: right, m.Laid s' := by
  have moved : row.members.Perm (.link op c :: (left ++ .operand y :: .operand z :: right)) := by
    rw [split]
    exact ((List.Perm.swap _ _ _).append_left left).trans List.perm_middle
  have distinct := (moved.map Member.handle).nodup_iff.1 built.laid.ring.nodup
  intro m listed
  have isMember := moved.mem_iff.2 (List.mem_cons_of_mem _ listed)
  have laid := built.laid.member m isMember
  apply laid.collapsed frame (built.laid.ring.lt_size _ (List.mem_map_of_mem isMember))
  · exact fun same => (List.nodup_cons.1 distinct).1 (List.mem_map.2 ⟨m, listed, same⟩)
  · intro h owned
    have isOwned := List.mem_flatMap.2 ⟨m, isMember, owned⟩
    rw [← map_handle_of_members split]
    exact ⟨laid.lt_size_owned h owned, fun isHandle => built.apart h isHandle isOwned⟩

/-- A collapse has added the node of the inner connective. -/
theorem adds_of_collapsed (built : row.Built base s old)
    (split : row.members = left ++ .operand y :: .link op c :: .operand z :: right)
    (frame : s.Collapsed s' (left.map Member.handle) y.handle op z.handle
      (right.map Member.handle) c) {added : List Nat} (adds : base.Adds s added) :
    base.Adds s' (s.size :: added) := by
  apply adds.cons frame.size
  intro h isOld
  apply frame.node h (Nat.lt_of_lt_of_le isOld adds.le)
  rw [← map_handle_of_members split]
  intro isHandle
  rcases List.mem_map.1 isHandle with ⟨m, listed, rfl⟩
  exact Nat.not_le.2 isOld (built.isNew m listed)

/-- The members of a merged row are new, as the merged connective is. -/
theorem isNew_of_grouped (built : row.Built base s old)
    (split : row.members = left ++ .operand y :: .link op c :: .operand z :: right)
    (grouped : row'.members = left ++ .operand (.group op false (.pair y new c z)) :: right) :
    ∀ m ∈ row'.members, base.size ≤ m.handle := by
  have isNew := built.isNew
  rw [split] at isNew
  simp only [List.forall_mem_append, List.forall_mem_cons] at isNew
  rcases isNew with ⟨before, _, atLink, _, behind⟩
  rw [grouped, List.forall_mem_append, List.forall_mem_cons]
  exact ⟨before, atLink, behind⟩

/-- Collapsing a connective of a row groups it with its two neighbours. -/
theorem exists_collapse (built : row.Built base s old)
    (split : row.members = left ++ .operand y :: .link op c :: .operand z :: right)
    (grouped : row'.members = left ++ .operand (.group op false (.pair y s.size c z)) :: right) :
    ∃ s', Builder.collapse row.head op s = .ok row'.head s' ∧ row'.Built base s' old ∧
      s.size ≤ s'.size := by
  have ring := built.laid.ring
  have holds : s.Holds op (.link c) false := by
    cases built.laid.member (.link op c) (by simp [split]) with
    | link holds => exact holds
  have ring' := ring
  rw [map_handle_of_members split] at ring'
  rcases Builder.exists_collapse ring' holds row.head with ⟨s', collapsed, frame⟩
  rw [head_merge split grouped ring.nodup] at collapsed
  refine ⟨s', collapsed, ⟨⟨?ring, ?member⟩, ?new, built.isNew_of_grouped split grouped, built.isOld⟩,
    frame.size ▸ Nat.le_succ _⟩
  case ring =>
    rw [grouped]
    simpa [Member.handle, OperandLayout.handle] using frame.outer
  case member =>
    have kept := built.laid_of_collapsed split frame
    rw [List.forall_mem_append, List.forall_mem_cons, List.forall_mem_cons] at kept
    rcases kept with ⟨before, ⟨first⟩, ⟨second⟩, behind⟩
    have group := OperandLayout.Laid.group frame.group (.pair frame.inner first frame.link second)
    rw [grouped, List.forall_mem_append, List.forall_mem_cons]
    exact ⟨before, .operand group, behind⟩
  case new =>
    rcases built.exists_new with ⟨added, adds, perm⟩
    exact ⟨s.size :: added, built.adds_of_collapsed split frame adds,
      (perm_handles_merge split grouped).trans (perm.cons s.size)⟩

end Collapse

end RowLayout.Built

end Entail.Ring
