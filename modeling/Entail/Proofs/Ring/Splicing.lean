import Entail.Proofs.Ring.Consistent

/-!
# Edits of consistent stores

Each edit of a store with consistent links can be made, and changes the links
by exchanging the targets of two nodes or by renaming two nodes to each other.
Two neighbours, a node that is its own neighbour, and nodes of one ring or of
two need no cases of their own then.
-/

namespace Entail.Ring.Store

open Function (update update_apply update_self update_of_ne)

variable {s s' : Store}

theorem isolate_eq {h : Nat} (inRange : h < s.size) (full : Bool) :
    s.isolate h full = (do
      let s ← if (s.backward h).isSome && s.backward h != some h
        then s.link (s.backward h) (s.forward h) else pure s
      s.setLinks h (if full then none else some h)) := by
  rcases exists_node inRange with ⟨n, found⟩
  rw [isolate, found, backward_of_node found, forward_of_node found]
  rfl

/-- A node that is linked, with the nodes in front of it and behind it. -/
structure Neighbours (s : Store) (h prev next : Nat) : Prop where
  isNode : h < s.size
  isPrev : prev < s.size
  isNext : next < s.size
  behind : s.backward h = some prev
  ahead : s.forward h = some next
  fromPrev : s.forward prev = some h
  fromNext : s.backward next = some h

/-- The links when two nodes are renamed to each other, the one linked to `hn` and from `hp`, the
other one linked to `on` and from `op`. -/
def exchanged (links : Nat → Option Nat) (h o hn hp on op : Nat) : Nat → Option Nat :=
  fun x =>
    if x = h then some (if on = h then o else if on = o then h else on)
    else if x = o then some (if hn = h then o else if hn = o then h else hn)
    else if x = hp then some o else if x = op then some h else links x

theorem Rewires.of_eq {ahead behind ahead' behind' : Nat → Option Nat}
    (rewires : s.Rewires s' ahead behind) (same : ∀ x, ahead' x = ahead x)
    (same' : ∀ x, behind' x = behind x) : s.Rewires s' ahead' behind' := by
  rwa [funext same, funext same']

/-- The links that are set, case by case, are those with the two nodes renamed to each other. -/
theorem Neighbours.exists_swap {h o hp hn op on : Nat} (around : s.Neighbours h hp hn)
    (around' : s.Neighbours o op on) (different : h ≠ o) :
    ∃ s', s.swap h o = .ok s' ∧ s.Rewires s' (exchanged s.forward h o hn hp on op)
      (exchanged s.backward h o hp hn op on) := by
  rcases around with ⟨isH, isHp, isHn, hPrev, hNext, hPrev', hNext'⟩
  rcases around' with ⟨isO, isOp, isOn, oPrev, oNext, oPrev', oNext'⟩
  rw [swap, if_neg different, prev_eq_of_lt isH, next_eq_of_lt isH, prev_eq_of_lt isO,
    next_eq_of_lt isO, hPrev, hNext, oPrev, oNext]
  simp only [bind, Except.bind, Option.some.injEq]
  split_ifs with both single single' pair adjacent adjacent'
  · exact ⟨s, rfl, (Rewires.refl s).of_eq (by grind [exchanged]) (by grind [exchanged])⟩
  · rcases (Rewires.refl s).exists_link isOp isH with ⟨s₁, ran₁, rewires⟩
    rcases rewires.exists_link isH isOn with ⟨s₂, ran₂, rewires⟩
    rcases rewires.exists_setLinks isO (some o) with ⟨s', ran₃, rewires⟩
    simp only [ran₁, ran₂, ran₃]
    refine ⟨s', rfl, rewires.of_eq (fun x => ?_) fun x => ?_⟩
    · simp only [exchanged, update_apply]
      grind
    · simp only [exchanged, update_apply]
      grind
  · rcases (Rewires.refl s).exists_link isHp isO with ⟨s₁, ran₁, rewires⟩
    rcases rewires.exists_link isO isHn with ⟨s₂, ran₂, rewires⟩
    rcases rewires.exists_setLinks isH (some h) with ⟨s', ran₃, rewires⟩
    simp only [ran₁, ran₂, ran₃]
    refine ⟨s', rfl, rewires.of_eq (fun x => ?_) fun x => ?_⟩
    · simp only [exchanged, update_apply]
      grind
    · simp only [exchanged, update_apply]
      grind
  · exact ⟨s, rfl, (Rewires.refl s).of_eq (by grind [exchanged]) (by grind [exchanged])⟩
  · rcases (Rewires.refl s).exists_link isHp isO with ⟨s₁, ran₁, rewires⟩
    rcases rewires.exists_link isO isH with ⟨s₂, ran₂, rewires⟩
    rcases rewires.exists_link isH isOn with ⟨s', ran₃, rewires⟩
    simp only [ran₁, ran₂, ran₃]
    refine ⟨s', rfl, rewires.of_eq (fun x => ?_) fun x => ?_⟩
    · simp only [exchanged, update_apply]
      grind
    · simp only [exchanged, update_apply]
      grind
  · rcases (Rewires.refl s).exists_link isOp isH with ⟨s₁, ran₁, rewires⟩
    rcases rewires.exists_link isH isO with ⟨s₂, ran₂, rewires⟩
    rcases rewires.exists_link isO isHn with ⟨s', ran₃, rewires⟩
    simp only [ran₁, ran₂, ran₃]
    refine ⟨s', rfl, rewires.of_eq (fun x => ?_) fun x => ?_⟩
    · simp only [exchanged, update_apply]
      grind
    · simp only [exchanged, update_apply]
      grind
  · rcases (Rewires.refl s).exists_link isHp isO with ⟨s₁, ran₁, rewires⟩
    rcases rewires.exists_link isO isHn with ⟨s₂, ran₂, rewires⟩
    rcases rewires.exists_link isOp isH with ⟨s₃, ran₃, rewires⟩
    rcases rewires.exists_link isH isOn with ⟨s', ran₄, rewires⟩
    have notHere : hp ≠ h ∧ hp ≠ o ∧ op ≠ h ∧ op ≠ o ∧ hp ≠ op := by grind
    simp only [ran₁, ran₂, ran₃, ran₄]
    refine ⟨s', rfl, rewires.of_eq (fun x => ?_) fun x => ?_⟩
    · simp only [exchanged, update_apply]
      grind
    · simp only [exchanged, update_apply]
      grind

namespace Consistent

theorem exists_prev (consistent : s.Consistent) {h : Nat} (linked : s.IsLinked h) :
    ∃ p < s.size, s.backward h = some p ∧ s.forward p = some h := by
  rcases consistent.exists_backward linked with ⟨p, behind, ahead⟩
  refine ⟨p, IsLinked.lt_size ?_, behind, ahead⟩
  rw [IsLinked, ahead]
  exact Option.some_ne_none h

theorem exists_next (consistent : s.Consistent) {h : Nat} (linked : s.IsLinked h) :
    ∃ n < s.size, s.forward h = some n ∧ s.backward n = some h := by
  rcases consistent.exists_forward linked with ⟨n, ahead, behind⟩
  refine ⟨n, IsLinked.lt_size ?_, ahead, behind⟩
  rw [IsLinked, Ne, consistent.both, behind]
  exact Option.some_ne_none h

/-- A node is put in front of another one by exchanging the targets of the last node of the ring and
of the new node, as if the latter were linked to itself. -/
theorem exists_insertBefore (consistent : s.Consistent) {h new : Nat} (linked : s.IsLinked h)
    (inRange : new < s.size) (alone : ∀ n, s.forward new = some n → n = new) (isOther : new ≠ h) :
    ∃ s' p, s.insertBefore h new = .ok s' ∧ s'.Consistent ∧ s.backward h = some p ∧
      s.Rewires s' (update s.forward new (some new) ∘ Equiv.swap p new)
        fun x => (update s.backward new (some new) x).map (Equiv.swap p new) := by
  rcases consistent.exists_prev linked with ⟨p, isPrev, behind, ahead⟩
  have notNew : p ≠ new := fun same => isOther (alone h (same ▸ ahead)).symm
  rcases (Rewires.refl s).exists_link isPrev inRange with ⟨middle, ran, rewires⟩
  rcases rewires.exists_link inRange linked.lt_size with ⟨s', ran', rewires⟩
  have closed := consistent.close alone
  have first : update s.forward new (some new) p = some h := by rw [update_of_ne notNew, ahead]
  have second : update s.forward new (some new) new = some new := update_self _ _ _
  rcases closed.exchange_eq first second with ⟨forwardEq, backwardEq⟩
  rw [Function.update_comm notNew.symm, Function.update_idem] at forwardEq
  rw [Function.update_idem] at backwardEq
  rw [← forwardEq, ← backwardEq] at rewires
  refine ⟨s', p, ?_, rewires.consistent (closed.exchange ?_ ?_), behind, rewires⟩
  · simp only [insertBefore, prev_eq_of_lt linked.lt_size, behind, bind, Except.bind, ran, ran']
  · rw [first]
    exact Option.some_ne_none h
  · rw [second]
    exact Option.some_ne_none new

/-- A node is put behind another one by exchanging the targets of the two, as if the new one were
linked to itself. -/
theorem exists_insertAfter (consistent : s.Consistent) {h new : Nat} (linked : s.IsLinked h)
    (inRange : new < s.size) (alone : ∀ n, s.forward new = some n → n = new) (isOther : new ≠ h) :
    ∃ s', s.insertAfter h new = .ok s' ∧ s'.Consistent ∧
      s.Rewires s' (update s.forward new (some new) ∘ Equiv.swap h new)
        fun x => (update s.backward new (some new) x).map (Equiv.swap h new) := by
  rcases consistent.exists_next linked with ⟨n, isNext, ahead, behind⟩
  rcases (Rewires.refl s).exists_link linked.lt_size inRange with ⟨middle, ran, rewires⟩
  rcases rewires.exists_link inRange isNext with ⟨s', ran', rewires⟩
  have closed := consistent.close alone
  have first : update s.forward new (some new) h = some n := by
    rw [update_of_ne isOther.symm, ahead]
  have second : update s.forward new (some new) new = some new := update_self _ _ _
  rcases closed.exchange_eq first second with ⟨forwardEq, backwardEq⟩
  rw [Function.update_comm isOther, Function.update_idem] at forwardEq
  rw [Function.update_idem] at backwardEq
  rw [← forwardEq, ← backwardEq] at rewires
  refine ⟨s', ?_, rewires.consistent (closed.exchange ?_ ?_), rewires⟩
  · simp only [insertAfter, next_eq_of_lt linked.lt_size, ahead, bind, Except.bind, ran, ran']
  · rw [first]
    exact Option.some_ne_none n
  · rw [second]
    exact Option.some_ne_none new

/-- The ring of a node is spliced in front of another one by exchanging the targets of the nodes in
front of the two. -/
theorem exists_extendFront (consistent : s.Consistent) {h head : Nat} (linked : s.IsLinked h)
    (linkedHead : s.IsLinked head) :
    ∃ s' p t, s.extendFront h head = .ok s' ∧ s'.Consistent ∧ s.backward h = some p ∧
      s.backward head = some t ∧
      s.Rewires s' (s.forward ∘ Equiv.swap p t) fun x => (s.backward x).map (Equiv.swap p t) := by
  rcases consistent.exists_prev linked with ⟨p, isPrev, behind, ahead⟩
  rcases consistent.exists_prev linkedHead with ⟨t, isTail, behindHead, aheadHead⟩
  rcases (Rewires.refl s).exists_link isPrev linkedHead.lt_size with ⟨middle, ran, rewires⟩
  rcases rewires.exists_link isTail linked.lt_size with ⟨s', ran', rewires⟩
  rcases Inverse.exchange_eq consistent ahead aheadHead with ⟨forwardEq, backwardEq⟩
  rw [← forwardEq, ← backwardEq] at rewires
  refine ⟨s', p, t, ?_, rewires.consistent (Inverse.exchange consistent ?_ ?_), behind, behindHead,
    rewires⟩
  · simp only [extendFront, prev_eq_of_lt linked.lt_size, prev_eq_of_lt linkedHead.lt_size, behind,
      behindHead, bind, Except.bind, ran, ran']
  · rw [ahead]
    exact Option.some_ne_none h
  · rw [aheadHead]
    exact Option.some_ne_none head

/-- The ring of a node is spliced behind another one by exchanging the targets of that one and of
the node in front of the head. -/
theorem exists_extendBack (consistent : s.Consistent) {h head : Nat} (linked : s.IsLinked h)
    (linkedHead : s.IsLinked head) :
    ∃ s' t, s.extendBack h head = .ok s' ∧ s'.Consistent ∧ s.backward head = some t ∧
      s.Rewires s' (s.forward ∘ Equiv.swap h t) fun x => (s.backward x).map (Equiv.swap h t) := by
  rcases consistent.exists_forward linked with ⟨n, ahead, behind⟩
  rcases consistent.exists_prev linkedHead with ⟨t, isTail, behindHead, aheadHead⟩
  have isNext : n < s.size := by
    refine IsLinked.lt_size fun unlinked => ?_
    rw [consistent.both, behind] at unlinked
    contradiction
  rcases (Rewires.refl s).exists_link linked.lt_size linkedHead.lt_size with ⟨middle, ran, rewires⟩
  rcases rewires.exists_link isTail isNext with ⟨s', ran', rewires⟩
  rcases Inverse.exchange_eq consistent ahead aheadHead with ⟨forwardEq, backwardEq⟩
  rw [← forwardEq, ← backwardEq] at rewires
  refine ⟨s', t, ?_, rewires.consistent (Inverse.exchange consistent linked ?_), behindHead,
    rewires⟩
  · simp only [extendBack, prev_eq_of_lt linkedHead.lt_size, next_eq_of_lt linked.lt_size, ahead,
      behindHead, bind, Except.bind, ran, ran']
  · rw [aheadHead]
    exact Option.some_ne_none head

/-- A node is taken out of its ring by exchanging its target and that of the node in front of it,
which makes it a ring by itself. -/
theorem exists_isolate (consistent : s.Consistent) {h : Nat} (inRange : h < s.size) (full : Bool) :
    ∃ s' ahead behind, s.isolate h full = .ok s' ∧ s'.Consistent ∧ ahead h = some h ∧
      s.Rewires s' (update ahead h (if full then none else some h))
        (update behind h (if full then none else some h)) := by
  have keeps {s' : Store} {ahead behind : Nat → Option Nat} (inverse : Inverse ahead behind)
      (alone : ahead h = some h)
      (rewires : s.Rewires s' (update ahead h (if full then none else some h))
        (update behind h (if full then none else some h))) : s'.Consistent := by
    refine rewires.consistent ?_
    cases full with
    | false => exact inverse.close (by simp [alone])
    | true => exact inverse.drop alone
  rw [isolate_eq inRange]
  by_cases linked : s.IsLinked h
  · rcases consistent.exists_prev linked with ⟨p, isPrev, behind, ahead⟩
    rcases consistent.exists_next linked with ⟨n, isNext, ahead', _⟩
    rw [behind, ahead']
    by_cases single : p = h
    · subst single
      rcases (Rewires.refl s).exists_setLinks inRange (if full then none else some p) with
        ⟨s', ran, rewires⟩
      exact ⟨s', s.forward, s.backward, by simpa using ran, keeps consistent ahead rewires, ahead,
        rewires⟩
    · rcases (Rewires.refl s).exists_link isPrev isNext with ⟨middle, ran, rewires⟩
      rcases rewires.exists_setLinks inRange (if full then none else some h) with
        ⟨s', ran', rewires⟩
      have exchanged := Inverse.exchange consistent (a := p) (b := h) (by simp [ahead]) linked
      rcases Inverse.exchange_eq consistent ahead ahead' with ⟨forwardEq, backwardEq⟩
      have alone : (s.forward ∘ Equiv.swap p h) h = some h := by
        rw [Function.comp_apply, Equiv.swap_apply_right, ahead]
      rw [← Function.update_idem (a := h) (some h) _ (update s.forward p (some n)), ← forwardEq,
        ← Function.update_idem (a := h) (some h) _ (update s.backward n (some p)), ← backwardEq]
        at rewires
      refine ⟨s', _, _, ?_, keeps exchanged alone rewires, alone, rewires⟩
      have apart : (some p != some h) = true := by simpa using single
      simp only [Option.isSome_some, apart, Bool.and_self, if_true, ran]
      exact ran'
  · rw [IsLinked, not_not] at linked
    rcases (Rewires.refl s).exists_setLinks inRange (if full then none else some h) with
      ⟨s', ran, rewires⟩
    have closed := Inverse.close consistent (h := h) (by simp [linked])
    rw [← Function.update_idem (a := h) (some h) _ s.forward,
      ← Function.update_idem (a := h) (some h) _ s.backward] at rewires
    refine ⟨s', _, _, ?_, keeps closed (update_self _ _ _) rewires, update_self _ _ _, rewires⟩
    rw [(consistent.both h).1 linked]
    exact ran

/-- The links when two nodes are renamed to each other. -/
def renamed (links : Nat → Option Nat) (a b : Nat) : Nat → Option Nat :=
  fun x => (links (Equiv.swap a b x)).map (Equiv.swap a b)

theorem renamed_eq_exchanged {forward backward : Nat → Option Nat}
    (inverse : Inverse forward backward) {h o hn hp on op : Nat} (ahead : forward h = some hn)
    (behind : forward hp = some h) (ahead' : forward o = some on) (behind' : forward op = some o) :
    renamed forward h o = exchanged forward h o hn hp on op := by
  funext x
  rw [renamed, inverse.rename_apply ahead behind ahead' behind', exchanged, Equiv.swap_apply_def,
    Equiv.swap_apply_def]

theorem exists_neighbours (consistent : s.Consistent) {h : Nat} (linked : s.IsLinked h) :
    ∃ prev next, s.Neighbours h prev next := by
  rcases consistent.exists_prev linked with ⟨p, isPrev, behind, fromPrev⟩
  rcases consistent.exists_next linked with ⟨n, isNext, ahead, fromNext⟩
  exact ⟨p, n, linked.lt_size, isPrev, isNext, behind, ahead, fromPrev, fromNext⟩

/-- The places of two nodes are exchanged by renaming the nodes to each other. -/
theorem exists_swap (consistent : s.Consistent) {h o : Nat} (linked : s.IsLinked h)
    (linked' : s.IsLinked o) :
    ∃ s', s.swap h o = .ok s' ∧ s'.Consistent ∧
      s.Rewires s' (renamed s.forward h o) (renamed s.backward h o) := by
  have swapped : ∃ s', s.swap h o = .ok s' ∧
      s.Rewires s' (renamed s.forward h o) (renamed s.backward h o) := by
    by_cases same : h = o
    · subst same
      have unchanged (links : Nat → Option Nat) : renamed links h h = links := by
        funext x
        simp [renamed]
      rw [swap, if_pos rfl, unchanged, unchanged]
      exact ⟨s, rfl, .refl s⟩
    · rcases consistent.exists_neighbours linked with ⟨hp, hn, around⟩
      rcases consistent.exists_neighbours linked' with ⟨op, on, around'⟩
      rw [renamed_eq_exchanged consistent around.ahead around.fromPrev around'.ahead
          around'.fromPrev,
        renamed_eq_exchanged consistent.symm around.behind around.fromNext around'.behind
          around'.fromNext]
      exact around.exists_swap around' same
  rcases swapped with ⟨s', ran, rewires⟩
  exact ⟨s', ran, rewires.consistent (Inverse.rename consistent h o), rewires⟩

end Consistent

end Entail.Ring.Store
