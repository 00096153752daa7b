import Entail.Proofs.Ring.Duplication

/-!
# Sequences of operations

The operations that make, change, copy and splice nodes keep links consistent
wherever they are permitted.  So after any sequence of them every node is in no
ring at all or in one that a walk from it lists completely.
-/

namespace Entail.Ring

/-- An operation on a store. -/
inductive Operation
  | add (payload : Payload) (negated : Bool)
  | copyNode (h : Nat)
  | copy (h : Nat)
  | setPayload (h : Nat) (payload : Payload)
  | setNegated (h : Nat) (negated : Bool)
  | toggle (h : Nat)
  | linkAll (head : Nat) (rest : List Nat)
  | insertBefore (h new : Nat)
  | insertAfter (h new : Nat)
  | isolate (h : Nat) (full : Bool)
  | removeFront (h : Nat) (full : Bool)
  | removeBack (h : Nat) (full : Bool)
  | swap (h other : Nat)
  | extendFront (h head : Nat)
  | extendBack (h head : Nat)

namespace Operation

/-- The store after an operation. -/
def run (s : Store) : Operation → Except Error Store
  | add payload negated => .ok (s.add payload negated)
  | copyNode h => (s.copyNode h).map Prod.fst
  | copy h => (s.copy h).map Prod.fst
  | setPayload h payload => s.setPayload h payload
  | setNegated h negated => s.setNegated h negated
  | toggle h => s.toggle h
  | linkAll head rest => s.linkAll head rest
  | insertBefore h new => s.insertBefore h new
  | insertAfter h new => s.insertAfter h new
  | isolate h full => s.isolate h full
  | removeFront h full => (s.removeFront h full).map Prod.fst
  | removeBack h full => (s.removeBack h full).map Prod.fst
  | swap h other => s.swap h other
  | extendFront h head => s.extendFront h head
  | extendBack h head => s.extendBack h head

/-- The node is a ring by itself or has no links, and is not the given one. -/
def IsSpare (s : Store) (h new : Nat) : Prop :=
  new < s.size ∧ new ≠ h ∧ (s.next new = .ok (some new) ∨ s.next new = .ok none)

/-- What an operation asks of a store: nodes are there, those whose neighbours it changes have
links, those that it puts into a ring are alone, and no ring that it copies owns itself. -/
def IsPermitted (s : Store) : Operation → Prop
  | add _ _ => True
  | copyNode h => h < s.size ∧ ∀ head, s.payload h = .ok (.group head) → s.IsAcyclic head
  | copy h => s.IsAcyclic h
  | setPayload h _ | setNegated h _ | toggle h | isolate h _ => h < s.size
  | linkAll head rest =>
    (head :: rest).Nodup ∧ ∀ h ∈ head :: rest, s.next h = .ok (some h)
  | insertBefore h new | insertAfter h new => s.IsLinked h ∧ IsSpare s h new
  | removeFront h _ | removeBack h _ => s.IsLinked h
  | swap h other | extendFront h other | extendBack h other => s.IsLinked h ∧ s.IsLinked other

/-- Each operation is permitted in the store that those before it leave. -/
def ArePermitted : Store → List Operation → Prop
  | _, [] => True
  | s, op :: ops => op.IsPermitted s ∧ ∀ s', op.run s = .ok s' → ArePermitted s' ops

end Operation

namespace Store

variable {s s' : Store}

/-- A change of what a node holds leaves all links alone. -/
theorem Consistent.exists_modify (consistent : s.Consistent) {h : Nat} (inRange : h < s.size)
    {f : Node → Node} (next : ∀ n, (f n).next = n.next) (prev : ∀ n, (f n).prev = n.prev) :
    ∃ s', s.modify h f = .ok s' ∧ s'.Consistent := by
  rcases Store.exists_modify inRange f with ⟨s', modified⟩
  rcases exists_node inRange with ⟨n, found⟩
  have found' := node_of_modify modified found
  have ahead : s'.forward = s.forward := by
    funext x
    by_cases same : x = h
    · rw [same, forward_of_node found', forward_of_node found, next]
    · rw [forward, forward, node_of_modify_of_ne modified same]
  have behind : s'.backward = s.backward := by
    funext x
    by_cases same : x = h
    · rw [same, backward_of_node found', backward_of_node found, prev]
    · rw [backward, backward, node_of_modify_of_ne modified same]
  refine ⟨s', modified, ?_⟩
  rw [Consistent, ahead, behind]
  exact consistent

/-- Single nodes are linked into a ring one after the other. -/
theorem Consistent.exists_linkAll (consistent : s.Consistent) {head : Nat} {rest : List Nat}
    (linked : s.IsLinked head) (distinct : (head :: rest).Nodup)
    (alone : ∀ h ∈ rest, s.forward h = some h) :
    ∃ s', s.linkAll head rest = .ok s' ∧ s'.Consistent := by
  induction rest generalizing s with
  | nil => exact ⟨s, rfl, consistent⟩
  | cons new rest ih =>
      simp only [List.nodup_cons, List.mem_cons, not_or] at distinct
      rcases distinct with ⟨⟨notNew, notRest⟩, newNotRest, distinct⟩
      rw [List.forall_mem_cons] at alone
      have inRange : new < s.size := IsLinked.lt_size (by simp [IsLinked, alone.1])
      rcases consistent.exists_insertBefore linked inRange (by simp [alone.1]) (Ne.symm notNew) with
        ⟨middle, p, ran, consistent', behind, rewires⟩
      have linked' : middle.IsLinked head := by
        rw [IsLinked, Ne, consistent'.both, rewires.backward]
        simp [Function.update_of_ne notNew, behind]
      have alone' : ∀ h ∈ rest, middle.forward h = some h := by
        intro h isRest
        have notPrev : h ≠ p := by
          rintro rfl
          have ahead := (consistent.joined _ _).2 behind
          rw [alone.2 h isRest, Option.some.injEq] at ahead
          exact notRest (ahead ▸ isRest)
        have isOther : h ≠ new := fun same => newNotRest (same ▸ isRest)
        rw [rewires.forward, Function.comp_apply, Equiv.swap_apply_of_ne_of_ne notPrev isOther,
          Function.update_of_ne isOther, alone.2 h isRest]
      rcases ih consistent' linked' (List.nodup_cons.2 ⟨notRest, distinct⟩) alone' with
        ⟨s', folded, consistent''⟩
      refine ⟨s', ?_, consistent''⟩
      rw [linkAll, List.foldlM_cons, ran]
      exact folded

end Store

namespace Operation

variable {s : Store}

theorem IsSpare.alone {h new : Nat} (spare : IsSpare s h new) :
    ∀ n, s.forward new = some n → n = new := by
  intro n ahead
  rcases spare.2.2 with single | unlinked
  · rw [Store.forward_of_next single, Option.some.injEq] at ahead
    exact ahead.symm
  · rw [Store.forward_of_next unlinked] at ahead
    contradiction

/-- An operation that is permitted can be done, and keeps the links consistent. -/
theorem exists_run (consistent : s.Consistent) {op : Operation} (permitted : op.IsPermitted s) :
    ∃ s', op.run s = .ok s' ∧ s'.Consistent := by
  cases op with
  | add payload negated => exact ⟨_, rfl, consistent.add payload negated⟩
  | copyNode h =>
      rcases consistent.exists_copyNode permitted.1 permitted.2 with ⟨s', copied, ran, kept⟩
      exact ⟨s', by rw [run, ran]; rfl, kept⟩
  | copy h =>
      rcases consistent.exists_copy permitted with ⟨ts, _, s', copied, A, ran, allocates, _⟩
      exact ⟨s', by rw [run, ran]; rfl, allocates.consistent⟩
  | setPayload h payload => exact consistent.exists_modify permitted (fun _ => rfl) fun _ => rfl
  | setNegated h negated => exact consistent.exists_modify permitted (fun _ => rfl) fun _ => rfl
  | toggle h => exact consistent.exists_modify permitted (fun _ => rfl) fun _ => rfl
  | linkAll head rest =>
      rcases permitted with ⟨distinct, single⟩
      rw [List.forall_mem_cons] at single
      refine consistent.exists_linkAll ?_ distinct fun h isRest =>
        Store.forward_of_next (single.2 h isRest)
      rw [Store.IsLinked, Store.forward_of_next single.1]
      exact Option.some_ne_none head
  | insertBefore h new =>
      rcases permitted with ⟨linked, spare⟩
      rcases consistent.exists_insertBefore linked spare.1 spare.alone spare.2.1 with
        ⟨s', p, ran, kept, _⟩
      exact ⟨s', ran, kept⟩
  | insertAfter h new =>
      rcases permitted with ⟨linked, spare⟩
      rcases consistent.exists_insertAfter linked spare.1 spare.alone spare.2.1 with
        ⟨s', ran, kept, _⟩
      exact ⟨s', ran, kept⟩
  | isolate h full =>
      rcases consistent.exists_isolate permitted full with ⟨s', _, _, ran, kept, _⟩
      exact ⟨s', ran, kept⟩
  | removeFront h full =>
      rcases consistent.exists_prev permitted with ⟨p, inRange, behind, _⟩
      rcases consistent.exists_isolate inRange full with ⟨s', _, _, ran, kept, _⟩
      refine ⟨s', ?_, kept⟩
      simp only [run, Store.removeFront, Store.prev_eq_of_lt (Store.IsLinked.lt_size permitted),
        behind, Store.required, bind, Except.bind, ran]
      rfl
  | removeBack h full =>
      rcases consistent.exists_next permitted with ⟨n, inRange, ahead, _⟩
      rcases consistent.exists_isolate inRange full with ⟨s', _, _, ran, kept, _⟩
      refine ⟨s', ?_, kept⟩
      simp only [run, Store.removeBack, Store.next_eq_of_lt (Store.IsLinked.lt_size permitted),
        ahead, Store.required, bind, Except.bind, ran]
      rfl
  | swap h other =>
      rcases consistent.exists_swap permitted.1 permitted.2 with ⟨s', ran, kept, _⟩
      exact ⟨s', ran, kept⟩
  | extendFront h head =>
      rcases consistent.exists_extendFront permitted.1 permitted.2 with ⟨s', _, _, ran, kept, _⟩
      exact ⟨s', ran, kept⟩
  | extendBack h head =>
      rcases consistent.exists_extendBack permitted.1 permitted.2 with ⟨s', _, ran, kept, _⟩
      exact ⟨s', ran, kept⟩

/-- Operations that are permitted can be done one after the other, and keep the links
consistent. -/
theorem exists_foldlM_run {ops : List Operation} (consistent : s.Consistent)
    (permitted : ArePermitted s ops) : ∃ s', ops.foldlM run s = .ok s' ∧ s'.Consistent := by
  induction ops generalizing s with
  | nil => exact ⟨s, rfl, consistent⟩
  | cons op ops ih =>
      rcases exists_run consistent permitted.1 with ⟨middle, ran, consistent'⟩
      rcases ih consistent' (permitted.2 middle ran) with ⟨s', folded, kept⟩
      refine ⟨s', ?_, kept⟩
      rw [List.foldlM_cons, ran]
      exact folded

end Operation

namespace Store

variable {s : Store}

theorem consistent_empty : empty.Consistent := by
  constructor <;> intros <;> simp [forward, backward, node, empty, Except.toOption]

/-- A node as consistent links leave it: it has no links and is walked alone, or it is the neighbour
of both of its neighbours, and a walk from it lists each node that the links lead to once. -/
inductive IsPlaced (s : Store) (h : Nat) : Prop
  | alone : s.next h = .ok none → s.prev h = .ok none → s.walk h = .ok [h] → IsPlaced s h
  | inRing {n p : Nat} {members : List Nat} :
      s.next h = .ok (some n) → s.prev n = .ok (some h) →
      s.prev h = .ok (some p) → s.next p = .ok (some h) →
      s.walk h = .ok members → members.Nodup →
      (∀ k, k ∈ members ↔ Relation.ReflTransGen s.Leads h k) → IsPlaced s h

theorem Consistent.isPlaced (consistent : s.Consistent) {h : Nat} (inRange : h < s.size) :
    s.IsPlaced h := by
  by_cases linked : s.IsLinked h
  · rcases consistent.exists_next linked with ⟨n, isNext, ahead, behind⟩
    rcases consistent.exists_prev linked with ⟨p, isPrev, behind', ahead'⟩
    rcases consistent.exists_isRing linked with ⟨rest, ring⟩
    exact .inRing (next_eq_ok_iff.2 ⟨inRange, ahead⟩) (by rw [prev_eq_of_lt isNext, behind])
      (by rw [prev_eq_of_lt inRange, behind']) (next_eq_ok_iff.2 ⟨isPrev, ahead'⟩) (walk_ring ring)
      ring.nodup fun k => ring.mem_iff
  · have ahead := not_not.1 linked
    exact .alone (next_eq_ok_iff.2 ⟨inRange, ahead⟩)
      (by rw [prev_eq_of_lt inRange, (consistent.both h).1 ahead]) (walk_unlinked inRange linked)

end Store

/-- Whatever permitted operations are done from the empty store on, they can be done, and each node
has no links and is walked alone, or it has both links, is the neighbour of both of its neighbours,
and a walk from it lists the nodes of its ring, each once. -/
theorem Operation.run_keeps_links {ops : List Operation} (permitted : ArePermitted .empty ops) :
    ∃ s, ops.foldlM run .empty = .ok s ∧ ∀ h < s.size, s.IsPlaced h := by
  rcases exists_foldlM_run Store.consistent_empty permitted with ⟨s, ran, consistent⟩
  exact ⟨s, ran, fun h inRange => consistent.isPlaced inRange⟩

theorem Operation.ArePermitted.cons {s s' : Store} {op : Operation} {ops : List Operation}
    (ran : op.run s = .ok s') (permitted : op.IsPermitted s) (rest : ArePermitted s' ops) :
    ArePermitted s (op :: ops) := by
  refine ⟨permitted, fun s'' ran' => ?_⟩
  rw [ran] at ran'
  cases ran'
  exact rest

/-- A member of a ring is exchanged for a node that is alone; another one is taken out and put back
behind its former neighbour. -/
theorem Operation.run_keeps_links_of_swap :
    ArePermitted .empty [.add (.symbol "a") false, .add (.link .conj) false,
        .add (.symbol "b") true, .linkAll 0 [1, 2], .add (.symbol "c") false, .swap 1 3,
        .isolate 0 true, .insertAfter 2 0] ∧
      ∃ s : Store, s.walk 2 = .ok [2, 0, 3] ∧ ∀ h < s.size, s.IsPlaced h := by
  have permitted : ArePermitted .empty [.add (.symbol "a") false, .add (.link .conj) false,
      .add (.symbol "b") true, .linkAll 0 [1, 2], .add (.symbol "c") false, .swap 1 3,
      .isolate 0 true, .insertAfter 2 0] := by
    refine .cons rfl trivial (.cons rfl trivial (.cons rfl trivial (.cons rfl ?_ (.cons rfl trivial
      (.cons rfl ?_ (.cons rfl ?_ (.cons rfl ?_ trivial)))))))
    · exact ⟨by decide, by simp only [List.forall_mem_cons]; exact ⟨rfl, rfl, rfl, nofun⟩⟩
    · exact ⟨Option.some_ne_none _, Option.some_ne_none _⟩
    · exact Nat.zero_lt_succ 3
    · exact ⟨Option.some_ne_none _, by decide, by decide, .inr rfl⟩
  rcases run_keeps_links permitted with ⟨s, ran, placed⟩
  cases ran
  exact ⟨permitted, _, rfl, placed⟩

end Entail.Ring
