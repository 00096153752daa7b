import Mathlib.Logic.Equiv.Basic
import Mathlib.Logic.Function.Basic
import Entail.Proofs.Ring.Links

/-!
# Consistent links

The links of a store are consistent if the backward links are the inverse of
the forward links, and a node has either both or none.  Whatever is spliced or
taken out, the forward links change by exchanging the targets of two nodes, and
a swap renames two nodes; both keep links consistent, however the neighbours of
the nodes overlap.
-/

namespace Entail.Ring

open Function (update update_apply update_self update_of_ne)

/-! ### Links as functions -/

/-- The forward and the backward links of nodes are inverse to each other, and each node has both or
none. -/
structure Inverse (forward backward : Nat → Option Nat) : Prop where
  joined : ∀ a b, forward a = some b ↔ backward b = some a
  both : ∀ h, forward h = none ↔ backward h = none

theorem map_swap_of_ne {target : Option Nat} {a b : Nat} (notFirst : target ≠ some a)
    (notSecond : target ≠ some b) : target.map (Equiv.swap a b) = target := by
  cases target with
  | none => rfl
  | some n =>
      rw [Option.map_some, Equiv.swap_apply_of_ne_of_ne]
      · exact fun same => notFirst (congrArg some same)
      · exact fun same => notSecond (congrArg some same)

namespace Inverse

variable {forward backward : Nat → Option Nat}

theorem symm (inverse : Inverse forward backward) : Inverse backward forward :=
  ⟨fun a b => (inverse.joined b a).symm, fun h => (inverse.both h).symm⟩

theorem exists_backward (inverse : Inverse forward backward) {h : Nat}
    (linked : forward h ≠ none) : ∃ p, backward h = some p ∧ forward p = some h := by
  rcases Option.ne_none_iff_exists'.1 (mt (inverse.both h).2 linked) with ⟨p, behind⟩
  exact ⟨p, behind, (inverse.joined p h).2 behind⟩

theorem exists_forward (inverse : Inverse forward backward) {h : Nat}
    (linked : forward h ≠ none) : ∃ n, forward h = some n ∧ backward n = some h := by
  rcases Option.ne_none_iff_exists'.1 linked with ⟨n, ahead⟩
  exact ⟨n, ahead, (inverse.joined h n).1 ahead⟩

/-- Two nodes that have links may exchange their targets. -/
theorem exchange (inverse : Inverse forward backward) {a b : Nat} (first : forward a ≠ none)
    (second : forward b ≠ none) :
    Inverse (forward ∘ Equiv.swap a b) fun h => (backward h).map (Equiv.swap a b) where
  joined x y := by
    rw [Function.comp_apply, inverse.joined, Option.map_eq_some_iff]
    constructor
    · intro behind
      exact ⟨_, behind, Equiv.swap_apply_self a b x⟩
    · rintro ⟨p, behind, rfl⟩
      rw [Equiv.swap_apply_self]
      exact behind
  both h := by
    rw [Function.comp_apply, Option.map_eq_none_iff, ← inverse.both]
    by_cases isFirst : h = a
    · rw [isFirst, Equiv.swap_apply_left]
      simp only [first, second]
    · by_cases isSecond : h = b
      · rw [isSecond, Equiv.swap_apply_right]
        simp only [first, second]
      · rw [Equiv.swap_apply_of_ne_of_ne isFirst isSecond]

/-- Two nodes may be renamed to each other. -/
theorem rename (inverse : Inverse forward backward) (a b : Nat) :
    Inverse (fun h => (forward (Equiv.swap a b h)).map (Equiv.swap a b))
      fun h => (backward (Equiv.swap a b h)).map (Equiv.swap a b) where
  joined x y := by
    simp only [Option.map_eq_some_iff]
    constructor
    · rintro ⟨n, ahead, rfl⟩
      refine ⟨_, ?_, Equiv.swap_apply_self a b x⟩
      rw [Equiv.swap_apply_self]
      exact (inverse.joined _ _).1 ahead
    · rintro ⟨p, behind, rfl⟩
      refine ⟨_, ?_, Equiv.swap_apply_self a b y⟩
      rw [Equiv.swap_apply_self]
      exact (inverse.joined _ _).2 behind
  both h := by
    simp only [Option.map_eq_none_iff]
    exact inverse.both _

/-- A node that is linked to no other node may be linked to itself. -/
theorem close (inverse : Inverse forward backward) {h : Nat}
    (alone : ∀ n, forward h = some n → n = h) :
    Inverse (update forward h (some h)) (update backward h (some h)) := by
  have behind (p : Nat) (isPrev : backward h = some p) : p = h := by
    have ahead := (inverse.joined p h).2 isPrev
    rcases Option.ne_none_iff_exists'.1 (mt (inverse.both h).1 (by simp [isPrev])) with ⟨n, next⟩
    rcases alone n next with rfl
    exact Option.some.inj (isPrev.symm.trans ((inverse.joined n n).1 next))
  constructor
  · intro a b
    by_cases isFirst : a = h
    · subst isFirst
      by_cases same : b = a
      · simp [same]
      · rw [update_self, update_of_ne same, ← inverse.joined]
        exact ⟨fun linked => absurd (Option.some.inj linked).symm same,
          fun linked => absurd (alone b linked) same⟩
    · by_cases isSecond : b = h
      · subst isSecond
        rw [update_self, update_of_ne isFirst, inverse.joined]
        exact ⟨fun linked => absurd (behind a linked) isFirst,
          fun linked => absurd (Option.some.inj linked).symm isFirst⟩
      · rw [update_of_ne isFirst, update_of_ne isSecond, inverse.joined]
  · intro x
    by_cases same : x = h
    · simp [same]
    · rw [update_of_ne same, update_of_ne same, inverse.both]

/-- A node that is linked to itself may lose its links. -/
theorem drop (inverse : Inverse forward backward) {h : Nat} (alone : forward h = some h) :
    Inverse (update forward h none) (update backward h none) := by
  have behind := (inverse.joined h h).1 alone
  constructor
  · intro a b
    by_cases isFirst : a = h
    · subst isFirst
      by_cases same : b = a
      · simp [same]
      · rw [update_self, update_of_ne same, ← inverse.joined, alone]
        simp [Ne.symm same]
    · by_cases isSecond : b = h
      · subst isSecond
        rw [update_self, update_of_ne isFirst, inverse.joined, behind]
        simp [Ne.symm isFirst]
      · rw [update_of_ne isFirst, update_of_ne isSecond, inverse.joined]
  · intro x
    by_cases same : x = h
    · simp [same]
    · rw [update_of_ne same, update_of_ne same, inverse.both]

/-! ### Exchanging and renaming as chains of links -/

/-- The targets of two nodes are exchanged by two links. -/
theorem exchange_eq (inverse : Inverse forward backward) {a b x y : Nat}
    (first : forward a = some x) (second : forward b = some y) :
    forward ∘ Equiv.swap a b = update (update forward a (some y)) b (some x) ∧
      (fun h => (backward h).map (Equiv.swap a b)) =
        update (update backward y (some a)) x (some b) := by
  have first' := (inverse.joined a x).1 first
  have second' := (inverse.joined b y).1 second
  constructor
  · funext h
    simp only [Function.comp_apply, Equiv.swap_apply_def, update_apply]
    grind
  · funext h
    simp only [update_apply]
    by_cases isFirst : h = x
    · rw [if_pos isFirst, isFirst, first', Option.map_some, Equiv.swap_apply_left]
    · by_cases isSecond : h = y
      · rw [if_neg isFirst, if_pos isSecond, isSecond, second', Option.map_some,
          Equiv.swap_apply_right]
      · rw [if_neg isFirst, if_neg isSecond, map_swap_of_ne]
        · rw [Ne, ← inverse.joined, first]
          exact fun same => isFirst (Option.some.inj same).symm
        · rw [Ne, ← inverse.joined, second]
          exact fun same => isSecond (Option.some.inj same).symm

/-- What becomes of the links when two nodes are renamed to each other. -/
theorem rename_apply (inverse : Inverse forward backward) {h o hn hp on op : Nat}
    (ahead : forward h = some hn) (behind : forward hp = some h) (ahead' : forward o = some on)
    (behind' : forward op = some o) (x : Nat) :
    (forward (Equiv.swap h o x)).map (Equiv.swap h o) =
      if x = h then some (Equiv.swap h o on)
      else if x = o then some (Equiv.swap h o hn)
      else if x = hp then some o else if x = op then some h else forward x := by
  by_cases isFirst : x = h
  · rw [if_pos isFirst, isFirst, Equiv.swap_apply_left, ahead', Option.map_some]
  · by_cases isSecond : x = o
    · rw [if_neg isFirst, if_pos isSecond, isSecond, Equiv.swap_apply_right, ahead, Option.map_some]
    · rw [if_neg isFirst, if_neg isSecond, Equiv.swap_apply_of_ne_of_ne isFirst isSecond]
      by_cases isPrev : x = hp
      · rw [if_pos isPrev, isPrev, behind, Option.map_some, Equiv.swap_apply_left]
      · by_cases isPrev' : x = op
        · rw [if_neg isPrev, if_pos isPrev', isPrev', behind', Option.map_some,
            Equiv.swap_apply_right]
        · rw [if_neg isPrev, if_neg isPrev', map_swap_of_ne]
          · rw [Ne, inverse.joined, (inverse.joined _ _).1 behind]
            exact fun same => isPrev (Option.some.inj same).symm
          · rw [Ne, inverse.joined, (inverse.joined _ _).1 behind']
            exact fun same => isPrev' (Option.some.inj same).symm

end Inverse

/-! ### Links of stores -/

namespace Store

variable {s s' s'' : Store}

/-- The node behind a node, if there is one. -/
def forward (s : Store) (h : Nat) : Option Nat :=
  (s.node h).toOption.bind Node.next

/-- The node in front of a node, if there is one. -/
def backward (s : Store) (h : Nat) : Option Nat :=
  (s.node h).toOption.bind Node.prev

/-- The links of the nodes are consistent. -/
def Consistent (s : Store) : Prop :=
  Inverse s.forward s.backward

/-- The node has links. -/
def IsLinked (s : Store) (h : Nat) : Prop :=
  s.forward h ≠ none

theorem forward_of_node {h : Nat} {n : Node} (found : s.node h = .ok n) :
    s.forward h = n.next := by
  rw [forward, found]
  rfl

theorem backward_of_node {h : Nat} {n : Node} (found : s.node h = .ok n) :
    s.backward h = n.prev := by
  rw [backward, found]
  rfl

theorem next_eq_of_lt {h : Nat} (inRange : h < s.size) : s.next h = .ok (s.forward h) := by
  rcases exists_node inRange with ⟨n, found⟩
  rw [next, found, forward_of_node found]
  rfl

theorem prev_eq_of_lt {h : Nat} (inRange : h < s.size) : s.prev h = .ok (s.backward h) := by
  rcases exists_node inRange with ⟨n, found⟩
  rw [prev, found, backward_of_node found]
  rfl

theorem IsLinked.lt_size {h : Nat} (linked : s.IsLinked h) : h < s.size := by
  rw [IsLinked, forward] at linked
  cases found : s.node h with
  | ok n => exact lt_size_of_node found
  | error e =>
      rw [found] at linked
      contradiction

theorem next_eq_ok_iff {h : Nat} {n : Option Nat} :
    s.next h = .ok n ↔ h < s.size ∧ s.forward h = n := by
  constructor
  · intro found
    have inRange := lt_size_of_next found
    exact ⟨inRange, Except.ok.inj ((next_eq_of_lt inRange).symm.trans found)⟩
  · rintro ⟨inRange, rfl⟩
    exact next_eq_of_lt inRange

theorem forward_of_next {h : Nat} {n : Option Nat} (found : s.next h = .ok n) : s.forward h = n :=
  (next_eq_ok_iff.1 found).2

/-- The links of the store become the given ones, and all else stays as it is. -/
structure Rewires (s s' : Store) (ahead behind : Nat → Option Nat) : Prop where
  size : s'.size = s.size
  payload : ∀ x, s'.payload x = s.payload x
  negated : ∀ x, s'.negated x = s.negated x
  forward : s'.forward = ahead
  backward : s'.backward = behind

namespace Rewires

variable {ahead behind : Nat → Option Nat}

theorem refl (s : Store) : s.Rewires s s.forward s.backward :=
  ⟨rfl, fun _ => rfl, fun _ => rfl, rfl, rfl⟩

theorem consistent (rewires : s.Rewires s' ahead behind) (inverse : Inverse ahead behind) :
    s'.Consistent := by
  rw [Consistent, rewires.forward, rewires.backward]
  exact inverse

/-- A node whose links stay as they are does not change. -/
theorem node (rewires : s.Rewires s' ahead behind) {h : Nat} (inRange : h < s.size)
    (same : ahead h = s.forward h) (same' : behind h = s.backward h) : s'.node h = s.node h := by
  rcases exists_node inRange with ⟨⟨payload, negated, prev, next⟩, found⟩
  rcases exists_node (s := s') (by rwa [rewires.size]) with ⟨⟨payload', negated', prev', next'⟩,
    found'⟩
  have holds := rewires.payload h
  have sign := rewires.negated h
  rw [← rewires.forward, forward_of_node found, forward_of_node found'] at same
  rw [← rewires.backward, backward_of_node found, backward_of_node found'] at same'
  simp only [Store.payload, Store.negated, found, found', Except.map, Except.ok.injEq] at holds sign
  rw [found, found', Except.ok.injEq, Node.mk.injEq]
  exact ⟨holds, sign, same', same⟩

theorem exists_modify (rewires : s.Rewires s' ahead behind) {h : Nat} (inRange : h < s.size)
    {f : Node → Node} (payload : ∀ n, (f n).payload = n.payload)
    (negated : ∀ n, (f n).negated = n.negated) (next prev : Option Nat)
    (nextOf : ∀ n, s'.node h = .ok n → (f n).next = next)
    (prevOf : ∀ n, s'.node h = .ok n → (f n).prev = prev) :
    ∃ s'', s'.modify h f = .ok s'' ∧
      s.Rewires s'' (update ahead h next) (update behind h prev) := by
  have inRange' : h < s'.size := by rwa [rewires.size]
  rcases Store.exists_modify inRange' f with ⟨s'', modified⟩
  rcases exists_node inRange' with ⟨n, found⟩
  have relinks := relinks_of_modify modified payload negated
  refine ⟨s'', modified, relinks.size.trans rewires.size,
    fun x => (relinks.payload x).trans (rewires.payload x),
    fun x => (relinks.negated x).trans (rewires.negated x), ?_, ?_⟩
  · funext x
    by_cases same : x = h
    · rw [same, update_self, forward_of_node (node_of_modify modified found), nextOf n found]
    · rw [update_of_ne same, ← rewires.forward, Store.forward, node_of_modify_of_ne modified same]
      rfl
  · funext x
    by_cases same : x = h
    · rw [same, update_self, backward_of_node (node_of_modify modified found), prevOf n found]
    · rw [update_of_ne same, ← rewires.backward, Store.backward,
        node_of_modify_of_ne modified same]
      rfl

theorem exists_setLinks (rewires : s.Rewires s' ahead behind) {h : Nat} (inRange : h < s.size)
    (target : Option Nat) :
    ∃ s'', s'.setLinks h target = .ok s'' ∧
      s.Rewires s'' (update ahead h target) (update behind h target) :=
  rewires.exists_modify inRange (f := fun n => { n with prev := target, next := target })
    (fun _ => rfl) (fun _ => rfl) target target (fun _ _ => rfl) fun _ _ => rfl

theorem exists_link (rewires : s.Rewires s' ahead behind) {a b : Nat} (first : a < s.size)
    (second : b < s.size) :
    ∃ s'', s'.link (some a) (some b) = .ok s'' ∧
      s.Rewires s'' (update ahead a (some b)) (update behind b (some a)) := by
  rcases rewires.exists_modify first (f := fun n => { n with next := some b }) (fun _ => rfl)
    (fun _ => rfl) (some b) (behind a) (fun _ _ => rfl)
    (fun n found => by rw [← rewires.backward, backward_of_node found]) with
    ⟨middle, forward, rewires⟩
  rw [Function.update_eq_self] at rewires
  rcases rewires.exists_modify second (f := fun n => { n with prev := some a }) (fun _ => rfl)
    (fun _ => rfl) (update ahead a (some b) b) (some a)
    (fun n found => by rw [← rewires.forward, forward_of_node found]) (fun _ _ => rfl) with
    ⟨s'', backward, rewires⟩
  rw [Function.update_eq_self] at rewires
  refine ⟨s'', ?_, rewires⟩
  simp only [link, required, bind, Except.bind, forward, backward]

end Rewires

end Store

end Entail.Ring
