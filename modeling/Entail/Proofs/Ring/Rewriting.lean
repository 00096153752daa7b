import Entail.Proofs.Ring.Base
import Entail.Proofs.Ring.Isolation

/-!
# Rewriting keeps the value

The rules on two nodes change the nodes in place, copy them or leave them out.
Where neither node is reached from the other, the ring that comes of it has the
value that the connective gives to theirs.  Applied to the first connective of
a ring, a rule leaves the value of the ring as it is.
-/

namespace Entail.Ring

namespace Builder

open Store

variable {s : Store} {N R : Set Nat} {left right : Nat} {x y : Operand}

/-- Two isolated nodes are joined by a new connective. -/
theorem yields_pair_apart (pair : s.IsolatedPair N left right x y) (c : Connective) :
    (Builder.pair left c right).Yields s {left, right} fun h s' B =>
      B = {left, right} ∧ s'.ShowsApart N h (.pair x c y) := by
  rcases exists_joinNew pair.single pair.single' pair.different c with
    ⟨s', linked, ring, link, grows⟩
  have evolves : s.Evolves s' {left, right} {left, right} := by
    refine ⟨?_, fun k old outside => grows.node k old ?_, fun _ => .inl⟩
    · rw [grows.size]
      exact Nat.le_succ _
    · have := Nat.ne_of_lt old
      grind
  have within : ({left, right} : Set Nat) ⊆ N ∪ {left, right} := Set.subset_union_right
  have leftIn := pair.first.lt_size
  have rightIn := pair.second.lt_size
  have row : s'.HoldsParts N [left, s.size, right] (Formula.pair x c y).parts := by
    refine .cons ?_ (.cons (.link link) (.cons ?_ .nil))
    · exact pair.first.evolves evolves within (fun _ isNode => .inl (.inl isNode))
        (grows.payload left leftIn) (grows.negated left leftIn)
    · exact pair.second.evolves evolves within (fun _ isNode => .inl (.inl isNode))
        (grows.payload right rightIn) (grows.negated right rightIn)
  have outside : ∀ m ∈ [left, s.size, right], m ∉ N := by
    have old := pair.old
    have apart := pair.outside
    grind
  have started : Builder.pair left c right s = .ok left s' := by
    rw [Builder.pair, bind_of_ok (add_eq _ _), bind_of_ok (edit_of_ok linked)]
    rfl
  exact ⟨left, s', _, started, evolves, rfl, row.showsApart ring outside⟩

theorem yields_joined_apart (pair : s.IsolatedPair N left right x y) (c : Connective) :
    (Builder.pair left c right).Yields s {left, right} fun h s' _ =>
      s'.ShowsApart N h (.pair x c y) :=
  (yields_pair_apart pair c).imp fun _ _ _ _ joined => joined.2

/-- An isolated node is toggled before the rest is done. -/
theorem Yields.toggle_left {α : Type} {f : Builder α} {post : α → Store → Set Nat → Prop}
    (pair : s.IsolatedPair N left right x y) (within : left ∈ R)
    (rest : ∀ s', s'.IsolatedPair N left right x.toggle y → s.Evolves s' {left} {left} →
      Yields f s' R post) :
    Yields (do toggle left; f) s R post := by
  rcases pair.exists_toggle with ⟨s', toggled, pair', evolves⟩
  refine .edit_bind toggled (evolves.mono (Set.singleton_subset_iff.2 within)) ?_
  exact (rest s' pair' evolves).mono Set.subset_union_left

theorem yields_implication_apart (pair : s.IsolatedPair N left right x y) (c : Connective) :
    (implication left c right).Yields s {left, right} fun h s' _ =>
      s'.ShowsApart N h (Rule.implication x c y) := by
  cases c with
  | conj | iff => exact yields_joined_apart pair _
  | impl => exact .toggle_left pair (by simp) fun s' pair _ => yields_joined_apart pair _
  | disj =>
      refine .read pair.first.shows.negated (.read pair.second.shows.negated ?_)
      rw [Rule.implication]
      split
      · exact yields_joined_apart pair _
      · split
        · exact .toggle_left pair (by simp) fun s' pair _ => yields_joined_apart pair _
        · rw [Set.pair_comm]
          exact .toggle_left pair.symm (by simp) fun s' pair _ => yields_joined_apart pair _

/-- A ring of new nodes is apart from all nodes that there were. -/
theorem Yields.showsApart {made : Builder Nat} {f : Formula}
    (ring : made.Yields s ∅ fun h s' B => s'.HasRing h f B) (old : ∀ k ∈ N, k < s.size) :
    made.Yields s R fun h s' _ => s'.ShowsApart N h f :=
  (ring.imp fun _ _ _ evolves ring =>
    HasRing.showsApart ring (evolves.disjoint (Set.empty_disjoint N) old)).mono (Set.empty_subset R)

/-- Two literals that make up a conjunction or a disjunction are simplified. -/
theorem yields_truthful_apart (pair : s.IsolatedPair N left right x y) (c : Connective) :
    (truthful left c right).Yields s {left, right} fun h s' _ =>
      s'.ShowsApart N h (Rule.truthful x c y) := by
  have part := pair.first.shows
  have part' := pair.second.shows
  refine .read part.isSymbol (.read part'.isSymbol ?_)
  match x, y with
  | .group _ _, _ | .symbol _ _, .group _ _ =>
      simp only [Operand.isSymbol, Bool.and_false, Bool.false_and, Bool.false_eq_true, if_false]
      exact yields_joined_apart pair c
  | .symbol negated name, .symbol negated' name' =>
      rw [Rule.truthful]
      cases junction : c.isJunction with
      | false => exact yields_joined_apart pair c
      | true =>
          refine .read part.truth (.read part'.truth ?_)
          rw [Bool.not_true, if_neg Bool.false_ne_true]
          by_cases decided : (Operand.symbol negated name).truth? = some c.dominant ∨
              (Operand.symbol negated' name').truth? = some c.dominant
          · rw [if_pos decided, if_pos decided]
            exact (yields_addConstant c.dominant).showsApart pair.old
          · rw [if_neg decided, if_neg decided]
            by_cases isFirst : (Operand.symbol negated name).truth?.isSome = true
            · rw [if_pos isFirst, if_pos isFirst]
              exact .pure Set.Subset.rfl pair.symm.showsApart
            · rw [if_neg isFirst, if_neg isFirst]
              by_cases isSecond : (Operand.symbol negated' name').truth?.isSome = true
              · rw [if_pos isSecond, if_pos isSecond]
                exact .pure Set.Subset.rfl pair.showsApart
              · rw [if_neg isSecond, if_neg isSecond]
                refine .read part.name (.read part'.name ?_)
                by_cases sameName : name = name'
                · rw [if_pos sameName, if_pos sameName]
                  refine .read part.negated (.read part'.negated ?_)
                  by_cases sameSign : negated = negated'
                  · rw [Operand.negated, Operand.negated, if_pos sameSign, if_pos sameSign]
                    exact .pure Set.Subset.rfl pair.showsApart
                  · rw [Operand.negated, Operand.negated, if_neg sameSign, if_neg sameSign]
                    exact (yields_addConstant c.dominant).showsApart pair.old
                · rw [if_neg sameName, if_neg sameName]
                  exact yields_joined_apart pair c

/-- A connective is distributed over groups of its dual that are isolated from each other. -/
theorem yields_distribute_apart (pair : s.IsolatedPair N left right x y) {c dual : Connective}
    (isDual : c.dual? = some dual) :
    (distribute left c right).Yields s {left, right} fun h s' _ =>
      s'.ShowsApart N h (Rule.distributeOver c dual x y) := by
  by_cases isFlat : x.isFlat dual = true ∨ y.isFlat dual = true
  · exact (yields_distribute_of_isFlat pair.first.shows pair.second.shows isDual isFlat).showsApart
      pair.old
  · have notFlat := isFlat
    rw [not_or, Bool.not_eq_true, Bool.not_eq_true] at notFlat
    rw [Yields, distribute_eq_pair pair.first.shows pair.second.shows isDual isFlat,
      Rule.distributeOver_of_not_isFlat notFlat.1 notFlat.2]
    exact yields_joined_apart pair c

/-- The group of two isolated nodes is isolated from what they were isolated from. -/
theorem Yields.group_pair_apart {α : Type} {c : Connective} {f : Nat → Builder α}
    {post : α → Store → Set Nat → Prop} (pair : s.IsolatedPair N left right x y)
    (within : {left, right} ⊆ R)
    (rest : ∀ g s' B, s.Evolves s' {left, right} B → s.size ≤ g → g ∈ B → s'.IsRing [g] →
      s'.HoldsPart (insert g N) g (.operand (.group false (.pair x c y))) →
      Yields (f g) s' (R ∪ B) post) :
    Yields (do let g ← addGroup (← Builder.pair left c right) false; f g) s R post := by
  refine (yields_pair_apart pair c).bind within fun ring s₁ B evolves joined => ?_
  rcases joined with ⟨rfl, shown⟩
  have added := s₁.evolves_add (.group ring) false {left, right}
  have apart : (s₁.add (.group ring) false).ShowsApart (insert s₁.size N) ring (.pair x c y) := by
    refine shown.evolves (s₁.evolves_add (.group ring) false ∅) (Set.empty_subset N) ?_
    rintro k (rfl | isNode)
    · exact .inr (Nat.le_refl _)
    · exact .inl isNode
  have both := evolves.trans (added.mono Set.subset_union_left)
  have made := rest s₁.size (s₁.add (.group ring) false) _ both evolves.size (Set.mem_insert ..)
    (s₁.isRing_add _ _) (.group (s₁.holds_add _ _) apart)
  refine .after (bind_of_ok (add_eq (.group ring) false) f) (added.mono Set.subset_union_right) ?_
  exact made.mono (by grind)

/-- An equivalence of two isolated nodes and their copies. -/
theorem yields_biconditional_apart (pair : s.IsolatedPair N left right x y) (c : Connective) :
    (biconditional left c right).Yields s {left, right} fun h s' _ =>
      s'.ShowsApart N h (Rule.biconditional x c y) := by
  cases c with
  | conj | disj | impl => exact yields_joined_apart pair _
  | iff =>
      refine .copy_both pair.first.shows pair.second.shows ?_
      intro left' right' s₁ C D evolves₁ first' second' apart'
      have inFirst := first'.lt_size
      have inSecond := second'.lt_size
      have isNew : ∀ k ∈ C ∪ D, s.size ≤ k := fun k isNode =>
        (evolves₁.origin k isNode).resolve_left id
      have old := pair.old
      have pair₁ : s₁.IsolatedPair (N ∪ (C ∪ D)) left right x y := by
        have size := evolves₁.size
        exact pair.evolves evolves₁ (by grind) (by grind)
      have outside := pair₁.outside
      refine .toggle_left pair₁ (by simp) fun s₂ pair₂ evolves₂ => ?_
      refine .toggle_left pair₂.symm (by simp) fun s₃ pair₃ evolves₃ => ?_
      have toggled : s₁.Evolves s₃ {left, right} ∅ :=
        (evolves₂.mono (by simp)).comp evolves₃ (by simp) (Set.empty_subset _)
      refine .group_pair_apart pair₃.symm (by grind) ?_
      intro neither s₄ B evolves₄ isLater isNode single part
      have changed : s₁.Evolves s₄ {left, right} ∅ :=
        toggled.comp evolves₄ (by simp) (Set.empty_subset _)
      rcases changed.row first' (Set.disjoint_left.2 (by grind)) with ⟨first', _⟩
      rcases changed.row second' (Set.disjoint_left.2 (by grind)) with ⟨second', _⟩
      refine .group_pair first' second' apart' (by grind) fun both s₅ E evolves₅ group => ?_
      have isBoth := group.mem
      have grown : s.size ≤ s₁.size ∧ s₁.size ≤ s₃.size ∧ s₁.size ≤ s₄.size :=
        ⟨evolves₁.size, toggled.size, changed.size⟩
      have groups := IsolatedPair.of_evolves single part evolves₅ group (by grind) (by grind)
        (Set.disjoint_left.2 (by grind)) (by grind)
      exact (yields_joined_apart groups .disj).mono (by grind)

/-! ### Rewriting in a ring -/

/-- The first connective of a ring becomes the group of what a rule makes of its neighbours; the
members may own rings together. -/
theorem exists_rewriteAt {rule : Nat → Connective → Nat → Builder Nat} {head op r : Nat}
    {after : List Nat} {c : Connective} {parts : List Part} {g : Formula}
    (isRing : s.IsRing (head :: op :: r :: after))
    (row : s.ShowsParts (head :: op :: r :: after) (.operand x :: .link c :: .operand y :: parts))
    (rewrites : ∀ (s : Store) (N : Set Nat), s.IsolatedPair N head r x y →
      (rule head c r).Yields s {head, r} fun h s' _ => s'.ShowsApart N h g) :
    ∃ s', rewriteAt head op rule s = .ok op s' ∧ s'.IsRing (op :: after) ∧
      s'.ShowsParts (op :: after) (.operand (.group false g) :: parts) := by
  have distinct := isRing.nodup
  rcases row.holdsParts_of_isRing isRing with _ | ⟨first, _ | ⟨link, _ | ⟨second, others⟩⟩⟩
  have leading : s.IsRing ([] ++ head :: op :: r :: after) := isRing
  rcases exists_removeNeighbours leading with
    ⟨s₁, s₂, removed, removed', outer, single, single', relinks⟩
  have outer : s₂.IsRing (op :: after) := outer
  have evolves : s.Evolves s₂ {k | k ∈ head :: op :: r :: after} ∅ :=
    relinks.evolves (fun _ => id) (Set.empty_subset _)
  have kept {h : Nat} {p : Part} {N : Set Nat} (within : N ⊆ {k | k ∈ head :: op :: r :: after})
      (part : s.HoldsPart {k | k ∈ head :: op :: r :: after} h p) : s₂.HoldsPart N h p :=
    part.evolves evolves Set.Subset.rfl (fun _ isNode => .inl (within isNode)) (relinks.payload h)
      (relinks.negated h)
  have pair : s₂.IsolatedPair {op} head r x y :=
    ⟨single, single', by grind, kept (by grind) first, kept (by grind) second,
      by simpa using outer.lt_size op List.mem_cons_self, by grind⟩
  rcases rewrites s₂ {op} pair with ⟨inner, s₃, B, ran, evolves', shown⟩
  have unchanged : ∀ k ∈ op :: after, s₃.node k = s₂.node k := fun k isMember =>
    evolves'.node k (outer.lt_size k isMember) (by grind)
  have outer' := outer.congr unchanged
  rcases exists_setGroup (outer'.lt_size op List.mem_cons_self) inner with
    ⟨s₄, s₅, setPayload, setNegated, regroups⟩
  have node := regroups.node
  rcases shown s₅ fun k _ outside => node k outside with ⟨rest, innerRing, innerRow⟩
  have others' : s₂.HoldsParts {k | k ∈ head :: op :: r :: after} after parts :=
    others.imp fun _ _ => kept Set.Subset.rfl
  have behind : s₅.ShowsParts after parts := by
    refine others'.shows_of_node (fun m isMember => ?_) fun k old outside => ?_
    · rw [node m (by grind), unchanged m (List.mem_cons_of_mem _ isMember)]
    · rw [node k (by grind), evolves'.node k old (by grind)]
  refine ⟨s₅, ?_, regroups.retains.isRing outer', .cons (.group regroups.group innerRing innerRow)
    behind⟩
  rw [rewriteAt, bind_of_ok (read_of_ok link.shows.connective),
    bind_of_ok (takeOut_of_ok removed), bind_of_ok (takeOut_of_ok removed'), bind_of_ok ran,
    bind_of_ok (show setContent op inner s₃ = .ok () s₄ from edit_of_ok setPayload),
    bind_of_ok (edit_of_ok setNegated), if_pos rfl]
  rfl

end Builder

/-- The value of a ring, folded from left to right. -/
def Store.value (s : Store) (v : Valuation) (head : Nat) : Except Error Bool :=
  (s.formula head).map (·.eval v)

theorem Store.Shows.value {s : Store} {head : Nat} {f : Formula} (ring : s.Shows head f)
    (v : Valuation) : s.value v head = .ok (f.eval v) := by
  rw [Store.value, ring.formula]
  rfl

/-! ### Binary rules -/

/-- The rules on two nodes. -/
inductive BinaryRule
  | implication
  | biconditional
  | distribute
  | truthful
  deriving DecidableEq, Repr

namespace BinaryRule

/-- What a rule does to two nodes with a connective between them. -/
def run : BinaryRule → Nat → Connective → Nat → Builder Nat
  | implication => Builder.implication
  | biconditional => Builder.biconditional
  | distribute => Builder.distribute
  | truthful => Builder.truthful

/-- Only a connective that has a dual can be distributed; the other rules take any. -/
def Applies (rule : BinaryRule) (c : Connective) : Prop :=
  rule = distribute → c.isJunction = true

open Store Builder

/-- A rule makes a ring of the value that the connective gives to those of isolated operands. -/
theorem exists_yields_run {rule : BinaryRule} {c : Connective} (applies : rule.Applies c)
    (x y : Operand) :
    ∃ g : Formula, (∀ v, g.eval v = c.apply (x.eval v) (y.eval v)) ∧
      ∀ (s : Store) (N : Set Nat) (left right : Nat), s.IsolatedPair N left right x y →
        (rule.run left c right).Yields s {left, right} fun h s' _ => s'.ShowsApart N h g := by
  cases rule with
  | implication =>
      exact ⟨_, Rule.eval_implication x c y, fun _ _ _ _ pair => yields_implication_apart pair c⟩
  | biconditional =>
      exact ⟨_, Rule.eval_biconditional x c y,
        fun _ _ _ _ pair => yields_biconditional_apart pair c⟩
  | distribute =>
      rcases Connective.exists_dual? (applies rfl) with ⟨dual, isDual⟩
      exact ⟨_, Rule.eval_distributeOver isDual x y,
        fun _ _ _ _ pair => yields_distribute_apart pair isDual⟩
  | truthful =>
      exact ⟨_, Rule.eval_truthful x c y, fun _ _ _ _ pair => yields_truthful_apart pair c⟩

/-- On isolated operands a rule makes a ring of the value that the connective gives to the values
they had.  At the first connective of a ring, whose members may own rings together, it leaves the
value of the ring as it is; the connective becomes the group of what is made of its neighbours and
is the head of the ring that is left. -/
theorem keeps_value (rule : BinaryRule) {c : Connective} (applies : rule.Applies c) (s : Store) :
    (∀ left right x y, s.Shows left (.single x) → s.Shows right (.single y) →
      ¬s.Reaches left right → ¬s.Reaches right left →
      ∃ h s' g, rule.run left c right s = .ok h s' ∧ s'.Shows h g ∧
        ∀ v, ∃ a b, s.value v left = .ok a ∧ s.value v right = .ok b ∧
          s'.value v h = .ok (c.apply a b)) ∧
    ∀ head x rest, s.Shows head (.chain x c rest) →
      ∃ op r after s' g, s.walk head = .ok (head :: op :: r :: after) ∧
        rewriteAt head op rule.run s = .ok op s' ∧ s'.walk op = .ok (op :: after) ∧
        s'.Shows op (rest.mapHead fun _ => .group false g) ∧
        ∀ v, s'.value v op = s.value v head := by
  constructor
  · intro left right x y first second apart apart'
    rcases exists_yields_run applies x y with ⟨g, meaning, yields⟩
    have pair := IsolatedPair.of_reaches first second apart apart'
    rcases yields s ∅ left right pair with ⟨h, s', B, ran, _, shown⟩
    refine ⟨h, s', g, ran, shown.shows, fun v => ⟨_, _, first.value v, second.value v, ?_⟩⟩
    rw [shown.shows.value v, meaning]
    rfl
  · intro head x rest shown
    rcases exists_yields_run applies x rest.head with ⟨g, meaning, yields⟩
    rcases Formula.parts_mapHead (fun _ => .group false g) rest with ⟨parts, split, split'⟩
    have ring := shown
    rcases ring with ⟨members, isRing, row⟩
    rw [Formula.parts, split] at row
    rcases row with _ | ⟨first, _ | @⟨op, _, _, _, link, _ | @⟨r, _, after, _, second, others⟩⟩⟩
    rcases exists_rewriteAt isRing (.cons first (.cons link (.cons second others)))
      fun s N => yields s N head r with ⟨s', ran, isRing', row'⟩
    rw [← split'] at row'
    have left : s'.Shows op (rest.mapHead fun _ => .group false g) := ⟨after, isRing', row'⟩
    refine ⟨op, r, after, s', g, walk_ring isRing, ran, walk_ring isRing', left, fun v => ?_⟩
    rw [left.value v, shown.value v, Rule.eval_mapHead_group (meaning v)]

/-- A group of a single operand is distributed over as a conjunction is, here by itself and there as
the second operand of a ring. -/
theorem keeps_value_of_distribution : ∃ (s s' t t' : Store) (head op h : Nat),
    distribute.run 1 .disj 2 t = .ok h t' ∧ t'.text h = .ok "(a||b)" ∧
      (∀ v, ∃ a b, t.value v 1 = .ok a ∧ t.value v 2 = .ok b ∧ t'.value v h = .ok (a || b)) ∧
      parseText "a||(b&c)" Store.empty = .ok head s ∧
      rewriteAt head op distribute.run s = .ok op s' ∧ s'.text op = .ok "((a||b)&(a||c))" ∧
      ∀ v, s'.value v op = s.value v head := by
  have applies : distribute.Applies .disj := fun _ => rfl
  have made : ∃ head s, parseText "a||(b&c)" Store.empty = .ok head s ∧
      ∃ members, s.walk head = .ok members ∧
      ∃ h s', rewriteAt head members[1]! distribute.run s = .ok h s' ∧
        s'.text h = .ok "((a||b)&(a||c))" := by
    decide +kernel
  rcases made with ⟨head, s, parsed, members, walked, op, s', rewritten, text⟩
  have known : Formula.ofText "a||(b&c)" = .ok (.pair (.symbol false "a") .disj
      (.group false (.pair (.symbol false "b") .conj (.symbol false "c")))) := by
    decide +kernel
  have parsing := comesTo_parseText "a||(b&c)" Store.empty
  rw [known] at parsing
  rcases parsing with ⟨_, _, _, parsed', _, shown⟩
  cases parsed.symm.trans parsed'
  rcases (keeps_value distribute applies s).2 head _ _ shown with
    ⟨_, _, _, _, _, walked', rewritten', _, _, value⟩
  cases walked.symm.trans walked'
  cases rewritten.symm.trans rewritten'
  let t : Store := ⟨[⟨.symbol "a", false, some 0, some 0⟩, ⟨.group 0, false, some 1, some 1⟩,
    ⟨.symbol "b", false, some 2, some 2⟩]⟩
  have alone (h : Nat) (inRange : h < 3) : t.IsRing [h] := by
    refine ⟨?_, List.nodup_singleton h⟩
    rcases h with _ | _ | _ | h
    · exact ⟨rfl, rfl⟩
    · exact ⟨rfl, rfl⟩
    · exact ⟨rfl, rfl⟩
    · omega
  have first : t.Shows 1 (.single (.group false (.single (.symbol false "a")))) :=
    ⟨[], alone 1 (by decide), .cons (.group ⟨rfl, rfl⟩ (alone 0 (by decide))
      (.cons (.symbol ⟨rfl, rfl⟩) .nil)) .nil⟩
  have second : t.Shows 2 (.single (.symbol false "b")) :=
    ⟨[], alone 2 (by decide), .cons (.symbol ⟨rfl, rfl⟩) .nil⟩
  -- no step leads from the last node to another one, or from another one to it
  have step {a b : Nat} (step : t.Steps a b) : a = 2 ↔ b = 2 := by
    rcases a with _ | _ | _ | a <;> rcases step with found | found | found <;> cases found <;> simp
  have reach {a b : Nat} (reaches : t.Reaches a b) : a = 2 ↔ b = 2 := by
    induction reaches with
    | refl => rfl
    | tail _ last ih => exact ih.trans (step last)
  rcases (keeps_value distribute applies t).1 1 2 _ _ first second
    (fun reaches => absurd ((reach reaches).2 rfl) (by decide))
    (fun reaches => absurd ((reach reaches).1 rfl) (by decide)) with
    ⟨h, t', _, ran, _, value'⟩
  have text' : t'.text h = .ok "(a||b)" := by
    have known : ∃ h t', distribute.run 1 .disj 2 t = .ok h t' ∧ t'.text h = .ok "(a||b)" := by
      decide +kernel
    rcases known with ⟨_, _, ran', text'⟩
    cases ran.symm.trans ran'
    exact text'
  exact ⟨s, s', t, t', head, op, h, ran, text', value', parsed, rewritten, text, value⟩

end BinaryRule

end Entail.Ring
