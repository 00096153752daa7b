import Entail.Proofs.NormalForm.Horn
import Entail.Proofs.Ring.Flattening
import Entail.Proofs.Ring.Removal

/-!
# Horn forms of rings

The Horn form of a ring is that of its formula, and where the formula has none
the error is the same.
-/

namespace Entail

/-- Without errors, `anyM` is `any`. -/
theorem anyM_eq_ok {ε α : Type} {test : α → Except ε Bool} {holds : α → Bool} {xs : List α}
    (each : ∀ x ∈ xs, test x = .ok (holds x)) : xs.anyM test = .ok (xs.any holds) := by
  induction xs with
  | nil => rfl
  | cons x xs ih =>
      rcases List.forall_mem_cons.1 each with ⟨first, rest⟩
      rw [List.anyM, first, List.any_cons]
      cases holds x with
      | true => rfl
      | false => exact ih rest

/-- If only one element fails a test, the others are those that pass it. -/
theorem filter_of_filter_not_eq_singleton {α : Type} {test : α → Bool} {left right : List α} {x : α}
    (only : (left ++ x :: right).filter (!test ·) = [x]) :
    (left ++ x :: right).filter test = left ++ right := by
  have fails : (!test x) = true :=
    (List.mem_filter.1 (only ▸ List.mem_singleton_self x : x ∈ List.filter _ _)).2
  have lengths := congrArg List.length only
  rw [List.filter_append, List.filter_cons, if_pos fails] at lengths
  simp only [List.length_append, List.length_cons, List.length_nil] at lengths
  have noneLeft : left.filter (!test ·) = [] := List.eq_nil_of_length_eq_zero (by omega)
  have noneRight : right.filter (!test ·) = [] := List.eq_nil_of_length_eq_zero (by omega)
  rw [List.filter_append, List.filter_cons_of_neg (by simpa using fails)]
  congr 1
  · exact List.filter_eq_self.2 (by simpa using List.filter_eq_nil_iff.1 noneLeft)
  · exact List.filter_eq_self.2 (by simpa using List.filter_eq_nil_iff.1 noneRight)

/-- Whether a part may stand in a positive row. -/
def Part.isPositive : Part → Bool
  | operand x => x.isPositive
  | link c => c.isJunction

theorem Formula.all_isPositive_parts (f : Formula) : f.parts.all Part.isPositive = f.isPositive := by
  cases f with
  | single x => simp [parts, Part.isPositive, Formula.isPositive]
  | chain x c rest =>
      simp [parts, Part.isPositive, Formula.isPositive, all_isPositive_parts rest, Bool.and_assoc]

/-- Whether a part is a negated operand. -/
def Part.isNegated : Part → Bool
  | operand x => x.negated
  | link _ => false

/-- Whether a part is an implication. -/
def Part.isImplication : Part → Bool
  | operand _ => false
  | link c => c == .impl

theorem Formula.length_filter_isImplication (f : Formula) :
    (f.parts.filter Part.isImplication).length = f.links.count .impl := by
  cases f with
  | single x => rfl
  | chain x c rest =>
      have ih := length_filter_isImplication rest
      cases c <;> simp [parts, links, Part.isImplication, ih]

theorem Formula.count_impl_of_isDefinite {f : Formula} (isDefinite : f.isDefinite = true) :
    f.links.count .impl = 1 := by
  unfold Formula.isDefinite at isDefinite
  split at isDefinite
  · rfl
  · contradiction

theorem Formula.requireDual_of_isRowOf {c : Connective} (junction : c.isJunction = true)
    {f : Formula} (row : f.IsRowOf c) : f.requireDual = .ok () :=
  requireDual_eq_ok_iff.2 fun d isLink => by rw [row d isLink, junction]

theorem Formula.dualize_join (c : Connective) (x : Operand) (xs : List Operand) :
    (join c x xs).dualize = join (c.dualIf true) x.toggle (xs.map Operand.toggle) := by
  induction xs generalizing x with
  | nil => rfl
  | cons y xs ih => rw [join, dualize, ih]; rfl

namespace Ring

namespace Store

variable {s : Store} {A : Set Nat}

/-- What is tested on every member of a row is tested on every part. -/
theorem ShowsParts.allM {members : List Nat} {parts : List Part} {test : Nat → Except Error Bool}
    {holds : Part → Bool} (row : s.ShowsParts members parts)
    (each : ∀ p ∈ parts, ∀ h, s.ShowsPart h p → test h = .ok (holds p)) :
    members.allM test = .ok (parts.all holds) := by
  induction members generalizing parts with
  | nil =>
      cases row
      rfl
  | cons h members ih =>
      rcases row with _ | ⟨part, row⟩
      rcases List.forall_mem_cons.1 each with ⟨first, rest⟩
      rw [List.allM, first _ part, List.all_cons]
      cases holds _ with
      | false => rfl
      | true => exact ih row rest

theorem ShowsPart.isPositiveTo {levels h : Nat} {x : Operand} (part : s.ShowsPart h (.operand x))
    (enough : x.depth < levels) : s.isPositiveTo levels h = .ok x.isPositive := by
  induction levels generalizing h x with
  | zero => contradiction
  | succ levels ih =>
      match x, part with
      | .symbol true _, .symbol holds | .symbol false _, .symbol holds
      | .group true _, .group holds _ _ =>
          rcases holds.exists_node with ⟨⟨_, _, _, _⟩, found, rfl, rfl⟩
          rw [Store.isPositiveTo, found]
          rfl
      | .group false content, .group holds isRing row =>
          rcases holds.exists_node with ⟨⟨_, _, _, _⟩, found, rfl, rfl⟩
          have shallow : ∀ p ∈ content.parts, p.depth < levels := by
            cases levels with
            | zero => exact absurd (Nat.lt_of_lt_of_le content.one_le_depth
                (Nat.le_of_lt_succ enough)) (Nat.lt_irrefl 0)
            | succ levels =>
                exact fun p isPart => Nat.lt_succ_of_le
                  (Formula.depth_le_succ_iff.1 (Nat.le_of_lt_succ enough) p isPart)
          have walked := walk_ring isRing
          rw [Store.isPositiveTo, found]
          simp only [bind, Except.bind, walked]
          rw [Operand.isPositive, ← Formula.all_isPositive_parts]
          refine row.allM fun p isPart k part => ?_
          cases p with
          | operand x =>
              simp only [part.isLink, Part.isLink]
              exact ih part (shallow _ isPart)
          | link c =>
              simp only [part.isLink, part.connective, Part.isLink]
              rfl

theorem ShowsPart.isImplication {h : Nat} {p : Part} (part : s.ShowsPart h p) :
    (do if ← s.isLink h then return (← s.connective h) == .impl else return false) =
      Except.ok p.isImplication := by
  cases p with
  | operand x =>
      simp only [part.isLink, Part.isLink, bind, Except.bind]
      rfl
  | link c =>
      simp only [part.isLink, part.connective, Part.isLink, bind, Except.bind]
      rfl

variable {head : Nat} {f : Formula}

/-- An implication is definite if it concludes a positive symbol from a positive operand. -/
theorem isDefinite_of_showsParts {k op h : Nat} {x y : Operand} (isRing : s.IsRing [k, op, h])
    (left : s.ShowsPart k (.operand x)) (right : s.ShowsPart h (.operand y))
    (deep : x.depth < s.size + 1) :
    s.isDefinite k op = .ok (Formula.pair x .impl y).isDefinite := by
  have positive := left.isPositiveTo deep
  have next : s.next op = .ok (some h) := isRing.1.2.1.1
  have prev : s.prev op = .ok (some k) := isRing.1.1.2
  simp only [Store.isDefinite, walk_ring isRing, next, prev, required, right.isSymbol,
    right.negated, bind, Except.bind, List.length_cons, List.length_nil]
  cases y with
  | symbol negated name =>
      cases negated with
      | false => exact positive
      | true => rfl
  | group => rfl

/-- Whether a ring is definite is asked of an implication node of it. -/
theorem HasRow.isDefinite (ring : s.HasRing head f A) {op : Nat} {rest : List Nat}
    (isRing : s.IsRing (head :: rest)) (isMember : op ∈ head :: rest)
    (part : s.ShowsPart op (.link .impl)) :
    s.isDefinite head op = .ok f.isDefinite := by
  have deep := ring.depth_le_size
  rcases ring with ⟨rest', isRing', row⟩
  cases Except.ok.inj ((walk_ring isRing).symm.trans (walk_ring isRing'))
  have long := row.length_eq
  match f with
  | .chain x c (.single y) =>
      rcases row with _ | @⟨_, _, _, _, _, _, first, row, _⟩
      rcases row with _ | @⟨op', _, _, _, _, _, link, row, _⟩
      rcases row with _ | @⟨h, _, _, _, _, _, second, none, _⟩
      rcases none
      have isLink := part.isLink
      have same : op = op' := by
        simp only [List.mem_cons, List.not_mem_nil, or_false] at isMember
        rcases isMember with rfl | rfl | rfl
        · cases first.shows.isLink.symm.trans isLink
        · rfl
        · cases second.shows.isLink.symm.trans isLink
      subst same
      cases Except.ok.inj (link.shows.connective.symm.trans part.connective)
      have shallow := Formula.depth_le_succ_iff.1 (Nat.le_succ_of_le deep) _ List.mem_cons_self
      exact isDefinite_of_showsParts isRing first.shows second.shows (Nat.lt_succ_of_le shallow)
  | .single x =>
      simp only [Store.isDefinite, walk_ring isRing, bind, Except.bind, long, Formula.parts]
      rfl
  | .chain x c (.chain y d g) =>
      have notThree : (head :: rest).length ≠ 3 := by
        have more := List.length_pos_iff.2 g.parts_ne_nil
        simp only [long, Formula.parts, List.length_cons]
        omega
      simp only [Store.isDefinite, walk_ring isRing, bind, Except.bind, ne_eq, notThree,
        not_false_eq_true, if_true]
      cases c <;> rfl

/-- The implications of a ring are counted, and tell whether the ring is definite. -/
theorem HasRow.exists_implications (ring : s.HasRing head f A) :
    ∃ ops, s.implications head = .ok ops ∧ ops.length = f.links.count .impl ∧
      ops.anyM (s.isDefinite head) = .ok f.isDefinite := by
  have ring' := ring
  rcases ring with ⟨rest, isRing, row⟩
  rcases row.exists_filterM fun p _ h part => part.isImplication with ⟨ops, B, filtered, selected⟩
  have count : ops.length = f.links.count .impl := by
    rw [selected.parts.length_eq, Formula.length_filter_isImplication]
  have each : ∀ op ∈ ops, s.isDefinite head op = .ok f.isDefinite := by
    intro op isOp
    rcases selected.parts.exists_part op isOp with ⟨p, isPart, C, _, part⟩
    have isImplication := (List.mem_filter.1 isPart).2
    match p with
    | .operand x => contradiction
    | .link .impl => exact ring'.isDefinite isRing (selected.listed isOp) part.shows
  refine ⟨ops, ?_, count, ?_⟩
  · rw [implications, walk_ring isRing]
    exact filtered
  · rw [anyM_eq_ok each]
    cases isDefinite : f.isDefinite with
    | false => simp
    | true =>
        have several : ops ≠ [] := by
          rintro rfl
          rw [List.length_nil, Formula.count_impl_of_isDefinite isDefinite] at count
          contradiction
        rcases List.exists_cons_of_ne_nil several with ⟨op, others, rfl⟩
        rfl

/-- The operands of a ring that are not negated are found. -/
theorem HasRow.exists_positives {rest : List Nat} (isRing : s.IsRing (head :: rest))
    (row : s.HasParts (head :: rest) f.parts A) :
    ∃ hs B, s.positives head = .ok hs ∧ hs ⊆ head :: rest ∧
      s.HasParts hs ((f.operands.filter (!·.negated)).map .operand) B := by
  rcases row.exists_operands with ⟨operands, B, found, selected⟩
  have each : ∀ p ∈ f.operands.map Part.operand, ∀ h, s.ShowsPart h p →
      (s.negated h).map (!·) = .ok (!p.isNegated) := by
    intro p isPart h part
    rcases List.mem_map.1 isPart with ⟨x, _, rfl⟩
    rw [part.negated]
    rfl
  rcases selected.parts.exists_filterM each with ⟨hs, C, filtered, selected'⟩
  refine ⟨hs, C, ?_, List.Subset.trans selected'.listed selected.listed, ?_⟩
  · simp only [positives, Store.operands, walk_ring isRing, bind, Except.bind, found, filtered]
  · have parts := selected'.parts
    rwa [List.filter_map] at parts

/-- Nodes of literals are asked for their names. -/
theorem HasParts.mapM_name {hs : List Nat} {xs : List Operand} {B : Set Nat}
    (row : s.HasParts hs (xs.map .operand) B) (literals : ∀ x ∈ xs, x.isSymbol = true) :
    hs.mapM s.name = .ok (xs.flatMap Operand.names) := by
  induction xs generalizing hs B with
  | nil =>
      cases row
      rfl
  | cons x xs ih =>
      rcases row with _ | ⟨part, row, _⟩
      rcases List.forall_mem_cons.1 literals with ⟨isSymbol, others⟩
      match x, part.shows with
      | .symbol negated name, part =>
          rw [List.mapM_cons, part.name, ih row others]
          rfl

/-- A row may be cut in front of any of its operands. -/
theorem HasParts.exists_cut {members : List Nat} {c : Connective} {xs : List Operand} {h : Nat}
    (row : s.HasParts members (Part.row c xs) A) (isMember : h ∈ members)
    (notLink : s.isLink h = .ok false) :
    ∃ before after left x right X Y, members = before ++ h :: after ∧ xs = left ++ x :: right ∧
      A = X ∪ Y ∧ s.HasParts before (Part.leading c left) X ∧
      s.HasParts (h :: after) (Part.row c (x :: right)) Y ∧ Disjoint X Y := by
  induction xs generalizing members A with
  | nil =>
      cases row
      contradiction
  | cons y ys ih =>
      rcases row with _ | @⟨m, _, rest, _, Z, W, first, row, apart⟩
      by_cases same : h = m
      · subst same
        exact ⟨[], rest, [], y, ys, ∅, Z ∪ W, rfl, rfl, (Set.empty_union _).symm, .nil,
          .cons first row apart, Set.empty_disjoint _⟩
      · have isBehind := (List.mem_cons.1 isMember).resolve_left same
        cases ys with
        | nil =>
            cases row
            contradiction
        | cons z zs =>
            rcases row with _ | @⟨lk, _, tail, _, L, E, link, row, apart'⟩
            have other : h ≠ lk := by
              rintro rfl
              cases link.shows.isLink.symm.trans notLink
            rcases ih row ((List.mem_cons.1 isBehind).resolve_left other) with
              ⟨before, after, left, x, right, X, Y, rfl, split, rfl, row, row', apart''⟩
            refine ⟨m :: lk :: before, after, y :: left, x, right, Z ∪ (L ∪ X), Y, rfl,
              by rw [split]; rfl, by grind, ?_, row', by grind⟩
            exact .cons first (.cons link row (by grind)) (by grind)

end Store

namespace Builder

open Store

variable {s : Store} {A B : Set Nat}

/-- The implication of a node from the complements of the literals of a disjunction. -/
theorem yields_implicationFrom {head consequent : Nat} {x y : Operand} {xs : List Operand}
    (ring : s.HasRing head (.join .disj x xs) A) (single : s.HasRow consequent [.operand y] B)
    (apart : Disjoint A B) :
    (implicationFrom head consequent).Yields s (A ∪ B) fun h s' C =>
      s'.HasRing h (Formula.implicationFrom (x :: xs) y) C := by
  refine .read (HasRing.isSingle ring) ?_
  cases xs with
  | nil =>
      rcases HasRow.exists_toggle ring with ⟨s₁, toggled, row, evolves⟩
      refine .edit_bind toggled (evolves.mono Set.subset_union_left) ?_
      rcases evolves.row single apart with ⟨single, _⟩
      exact (yields_pair row single apart .impl).mono (by grind)
  | cons z zs =>
      refine (yields_addGroup ring true).bind Set.subset_union_left fun g s₁ G evolves group => ?_
      rcases evolves.row single apart with ⟨single, apart⟩
      rcases hasRow_singleton_iff.1 group with ⟨isRing, part⟩
      have required := Formula.requireDual_of_isRowOf (c := .disj) rfl
        (Formula.isRowOf_join .disj x (z :: zs))
      rcases part.exists_deMorgan required with ⟨s₂, opened, part, evolves, links⟩
      refine .edit_bind opened (evolves.mono (by grind)) ?_
      rcases evolves.row single apart with ⟨single, _⟩
      have group : s₂.HasRow g [.operand (.group false (Formula.join .disj x (z :: zs)).dualize)] G :=
        hasRow_singleton_iff.2 ⟨isRing.congr_sameLinks fun m _ => links m, part⟩
      rw [Formula.dualize_join] at group
      exact (yields_pair group single apart .impl).mono (by grind)

/-- The one positive literal of a disjunction is taken out, and is implied by what is left. -/
theorem yields_implicationFrom_takeOperand {head h : Nat} {xs : List Operand} {positive : Operand}
    {B : Set Nat} {rest : List Nat} (isRing : s.IsRing (head :: rest))
    (row : s.HasParts (head :: rest) (Part.row .disj xs) A)
    (literals : ∀ x ∈ xs, x.isSymbol = true) (several : 1 < xs.length)
    (only : xs.filter (!·.negated) = [positive]) (isMember : h ∈ head :: rest)
    (part : s.HasPart h (.operand positive) B) :
    Yields (do implicationFrom (← takeOperand head h) h) s A fun h s' C =>
      s'.HasRing h (Formula.implicationFrom (xs.filter (·.negated)) positive) C := by
  rcases row.exists_cut isMember part.shows.isLink with
    ⟨before, after, left, x, right, X, Y, split, rfl, rfl, before', behind, apart⟩
  have isOnly : x = positive := by
    rcases behind with _ | ⟨part', _, _⟩
    exact Part.operand.inj (part'.shows.unique part.shows)
  subst isOnly
  have others : (left ++ x :: right).filter (·.negated) = left ++ right :=
    filter_of_filter_not_eq_singleton only
  have cut : s.Cut head before (h :: after) (Part.leading .disj left)
      (Part.row .disj (x :: right)) X Y :=
    ⟨split ▸ isRing, split ▸ rfl, before', behind, apart⟩
  have several' : left ++ right ≠ [] := by
    intro none
    rcases List.append_eq_nil_iff.1 none with ⟨rfl, rfl⟩
    simp at several
  refine (yields_takeOperand cut several').bind Set.Subset.rfl ?_
  rintro head' s₁ D _ ⟨single, cut', apart'⟩
  have ring := cut'.hasRow
  rw [Part.leadingTo_append_row] at ring
  rcases List.exists_cons_of_ne_nil several' with ⟨z, zs, listed⟩
  rw [listed, ← Part.parts_join] at ring
  rw [others, listed]
  exact (yields_implicationFrom ring single apart'.symm).mono (by grind)

/-- A disjunction with one positive literal is an implication of it, or the literal alone. -/
theorem yields_definite {head h : Nat} {f : Formula} {positive : Operand} {B : Set Nat}
    {rest : List Nat} (isRing : s.IsRing (head :: rest)) (row : s.HasParts (head :: rest) f.parts A)
    (isRow : f.IsRowOf .disj) (literals : ∀ x ∈ f.operands, x.isSymbol = true)
    (only : f.operands.filter (!·.negated) = [positive]) (isMember : h ∈ head :: rest)
    (part : s.HasPart h (.operand positive) B) :
    Yields (do
        if ← read (·.isSingle head) then return head
        else implicationFrom (← takeOperand head h) h) s A fun h s' C =>
      s'.HasRing h (Formula.implicationFrom (f.operands.filter (·.negated)) positive) C := by
  have ring : s.HasRing head f A := ⟨rest, isRing, row⟩
  refine .read (HasRing.isSingle ring) ?_
  cases f with
  | single x =>
      have isPositive : x.negated = false := by
        by_contra negated
        simp [Formula.operands, negated] at only
      simp only [Formula.operands, List.filter_cons, isPositive, Bool.not_false, if_true,
        List.filter_nil, List.cons.injEq, and_true] at only ⊢
      subst only
      exact Yields.pure Set.Subset.rfl ring
  | chain x c g =>
      have several : 1 < (Formula.chain x c g).operands.length :=
        Nat.succ_lt_succ (List.length_pos_iff.2 g.operands_ne_nil)
      rcases List.exists_cons_of_ne_nil (Formula.chain x c g).operands_ne_nil with ⟨y, ys, listed⟩
      rw [← Formula.join_operands isRow listed, Part.parts_join, ← listed] at row
      exact yields_implicationFrom_takeOperand isRing row literals several only isMember part

/-- The Horn form of a ring of literals. -/
theorem comesTo_hornOfRow {head : Nat} {f : Formula} (ring : s.HasRing head f A)
    (literals : ∀ x ∈ f.operands, x.isSymbol = true) (source : Formula) :
    (hornOfRow source.text head).ComesTo s A (Formula.hornOfRow source f) fun h g s' B =>
      s'.HasRing h g B := by
  refine .read (HasRing.shows ring).connectives ?_
  rw [Formula.hornOfRow]
  cases mixed : f.links.any (· != .disj) with
  | true => exact .fails rfl
  | false =>
  simp only [Bool.false_eq_true, if_false]
  have isRow : f.IsRowOf .disj := by simpa [Formula.IsRowOf] using mixed
  have ring' := ring
  rcases ring with ⟨rest, isRing, row⟩
  rcases HasRow.exists_positives isRing row with ⟨hs, B, found, within, parts⟩
  refine .read found ?_
  cases positive : f.operands.filter (!·.negated) with
  | nil =>
      rw [positive] at parts
      rcases parts
      refine ((yields_addConstant false).bind (Set.empty_subset _) fun h s₁ C evolves single => ?_ :
        Yields _ s A _)
      rcases evolves.row ring' (Set.empty_disjoint _) with ⟨ring, apart⟩
      rcases List.exists_cons_of_ne_nil f.operands_ne_nil with ⟨x, xs, listed⟩
      rw [← Formula.join_operands isRow listed] at ring
      rw [listed]
      exact yields_implicationFrom ring single apart.symm
  | cons y ys =>
      rw [positive] at parts
      rcases parts with _ | @⟨h, _, hs, _, X, Y, part, parts, apart⟩
      cases ys with
      | nil =>
          rcases parts
          exact yields_definite isRing row isRow literals positive (within List.mem_cons_self) part
      | cons z zs =>
          rcases parts with _ | @⟨k, _, hs, _, Z, W, part', parts, apart'⟩
          have symbols : ∀ x ∈ y :: z :: zs, x.isSymbol = true := by
            rw [← positive]
            exact fun x isPositive => literals x (List.mem_of_mem_filter isPositive)
          have row' : s.HasParts (h :: k :: hs) ((y :: z :: zs).map .operand) (X ∪ (Z ∪ W)) :=
            .cons part (.cons part' parts apart') apart
          exact .read (row'.mapM_name symbols) (.throw _)

/-- The Horn form of a ring inside of its outer parentheses. -/
theorem comesTo_hornOfContent {head : Nat} {f : Formula} (ring : s.HasRing head f A) :
    (hornOfContent head).ComesTo s A
      (if f.isDefinite then .ok f
        else if 1 < f.links.count .impl then .error (.severalImplications f.text)
        else f.eliminate.flatten >>= Formula.hornOfRow f) fun h g s' B => s'.HasRing h g B := by
  rcases HasRow.exists_implications ring with ⟨ops, found, count, definite⟩
  refine .read (HasRing.shows ring).text (.read found ?_)
  rw [count]
  by_cases several : 1 < f.links.count .impl
  · have notDefinite : f.isDefinite = false := by
      by_contra isDefinite
      rw [Formula.count_impl_of_isDefinite (Bool.eq_true_of_not_eq_false isDefinite)] at several
      exact Nat.lt_irrefl 1 several
    simp only [notDefinite, several, if_true, Bool.false_eq_true, if_false]
    exact .fails rfl
  · simp only [several, if_false]
    refine .read definite ?_
    cases f.isDefinite with
    | true => exact Yields.pure Set.Subset.rfl ring
    | false =>
        refine .after_yields (yields_eliminate ring) Set.Subset.rfl fun head₁ s₁ B _ ring => ?_
        refine (comesTo_flatten ring).known.bind Set.subset_union_right ?_
        rintro head₂ row s₂ C _ ⟨flat, ring⟩
        exact (comesTo_hornOfRow ring (Formula.isSymbol_of_literalRow flat) f).mono
          Set.subset_union_right

/-- The Horn form of a ring. -/
theorem comesTo_horn {head : Nat} {f : Formula} (ring : s.HasRing head f A) :
    (horn head).ComesTo s A f.horn fun h g s' B => s'.HasRing h g B := by
  refine .get (.after_yields (yields_unwrapTo ring (Nat.le_succ_of_le ring.depth_le_size))
    Set.Subset.rfl fun inner s₁ B _ ring => ?_)
  have literal : (f.unwrap.isSingle && f.unwrap.head.isSymbol) = f.unwrap.isLiteral := by
    cases f.unwrap <;> rfl
  refine .read (HasRing.isSingle ring) (.read (HasRing.isSymbol ring) ?_)
  rw [literal, Formula.horn]
  cases f.unwrap.isLiteral with
  | true => exact Yields.pure Set.subset_union_right ring
  | false =>
      have inside : B ⊆ A ∪ B := Set.subset_union_right
      have outcome := (comesTo_hornOfContent ring).mono inside
      simp only [Bool.false_or]
      cases flat : f.unwrap.eliminate.flatten <;> (rw [flat] at outcome; exact outcome)

end Builder

end Ring

end Entail
