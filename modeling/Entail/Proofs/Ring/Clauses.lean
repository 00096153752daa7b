import Entail.Proofs.Ring.Base
import Entail.Ring.Search

/-!
# Clauses that a store shows

The members of the ring of a clause alternate between its literals and
disjunctions.  What is left of a clause once a literal is true is a ring of its
own, unless it is the whole clause: a search changes no node that there was.
-/

namespace Entail

/-- Every other element of a list, from the first one on. -/
def everyOther {α : Type} : List α → List α
  | [] => []
  | [x] => [x]
  | x :: _ :: rest => x :: everyOther rest

theorem everyOther_cons {α : Type} (x : α) (rest : List α) :
    everyOther (x :: rest) = x :: everyOther rest.tail := by
  cases rest <;> rfl

/-- The parts of the ring of a clause. -/
def Clause.parts (clause : Clause) : List Part :=
  Part.row .disj (clause.map Literal.toOperand)

theorem Clause.exists_parts_eq {clause : Clause} (nonempty : clause ≠ []) :
    ∃ f : Formula, f.parts = clause.parts ∧ f.isSingle = clause.unit?.isSome := by
  rcases List.exists_cons_of_ne_nil nonempty with ⟨l, ls, rfl⟩
  refine ⟨.join .disj l.toOperand (ls.map Literal.toOperand), Part.parts_join .., ?_⟩
  cases ls <;> rfl

theorem assume_flatten (l : Literal) (clauses : List Clause) :
    (clauses.map fun clause => assume l [clause]).flatten = assume l clauses := by
  induction clauses with
  | nil => rfl
  | cons clause clauses ih =>
      rw [List.map_cons, List.flatten_cons, ih, assume_cons, assume_nil, assume_cons]
      split <;> rfl

theorem Part.row_concat {c : Connective} {xs : List Operand} (several : xs ≠ []) (x : Operand) :
    row c (xs ++ [x]) = row c xs ++ [.link c, .operand x] := by
  rcases List.eq_nil_or_concat' xs with rfl | ⟨front, y, rfl⟩
  · exact absurd rfl several
  · calc row c (front ++ [y] ++ [x])
      _ = leading c (front ++ [y]) ++ row c [x] := (leading_append_row (List.cons_ne_nil x [])).symm
      _ = row c (front ++ [y]) ++ [.link c, .operand x] := by
        rw [leading_concat, List.append_assoc]
        rfl

namespace Ring

namespace Store

variable {s s' : Store} {A B : Set Nat}

/-! ### Operands of a row -/

/-- The operand nodes of a row are every other member of it. -/
theorem HasParts.filterM_everyOther {members : List Nat} {c : Connective} {xs : List Operand}
    (row : s.HasParts members (Part.row c xs) A) :
    members.filterM (fun h => (s.isLink h).map (!·)) = .ok (everyOther members) := by
  have step := @filterM_cons _ _ fun h => (s.isLink h).map (!·)
  induction xs generalizing members A with
  | nil =>
      cases row
      rfl
  | cons x xs ih =>
      rcases row with _ | @⟨h, _, rest, _, _, _, part, row, _⟩
      rw [everyOther_cons]
      cases xs with
      | nil =>
          cases row
          exact step part.shows.isOperand rfl
      | cons y xs =>
          rcases row with _ | @⟨link, _, rest, _, _, _, holds, row, _⟩
          exact step part.shows.isOperand (step holds.shows.isOperand (ih row))

/-- Every other member of a row holds an operand. -/
theorem HasParts.exists_everyOther {members : List Nat} {c : Connective} {xs : List Operand}
    (row : s.HasParts members (Part.row c xs) A) :
    ∃ B ⊆ A, s.HasParts (everyOther members) (xs.map .operand) B := by
  induction xs generalizing members A with
  | nil =>
      cases row
      exact ⟨∅, Set.Subset.rfl, .nil⟩
  | cons x xs ih =>
      rcases row with _ | @⟨h, _, rest, _, X, Y, part, row, apart⟩
      rw [everyOther_cons]
      cases xs with
      | nil =>
          cases row
          exact ⟨X ∪ ∅, Set.Subset.rfl, .cons part .nil apart⟩
      | cons y xs =>
          rcases row with _ | @⟨link, _, rest, _, L, Z, holds, row, apart'⟩
          rcases ih row with ⟨B, within, operands⟩
          exact ⟨X ∪ B, by grind, .cons part operands (by grind)⟩

/-! ### Rings of clauses -/

/-- The ring holds the clause, which takes up the region; the empty clause has none. -/
inductive HasClause (s : Store) : Option Nat → Clause → Set Nat → Prop
  | empty : HasClause s none [] ∅
  | ring {head : Nat} {clause : Clause} {A : Set Nat} : clause ≠ [] →
      s.HasRow head clause.parts A → HasClause s (some head) clause A

/-- The ring shows the clause. -/
def ShowsClause (s : Store) (ring : Option Nat) (clause : Clause) : Prop :=
  ∃ A, s.HasClause ring clause A

theorem lasting_showsClause (ring : Option Nat) (clause : Clause) :
    Lasting fun s => s.ShowsClause ring clause := by
  rintro s s' B evolves ⟨A, _ | ⟨nonempty, row⟩⟩
  · exact ⟨∅, .empty⟩
  · exact ⟨A, .ring nonempty (evolves.row row (Set.empty_disjoint A)).1⟩

/-- The literals of a ring are those of the clause that it shows. -/
theorem HasRow.literals {head : Nat} {clause : Clause} (row : s.HasRow head clause.parts A) :
    s.literals head = .ok clause := by
  rcases row with ⟨rest, isRing, row⟩
  rcases row.exists_everyOther with ⟨B, _, operands⟩
  rw [List.map_map] at operands
  have each (l : Literal) (_ : l ∈ clause) (h : Nat) (part : s.ShowsPart h (.operand l.toOperand)) :
      (do return ⟨← s.name h, ← s.negated h⟩) = Except.ok (ε := Error) (id l) := by
    simp only [part.name, part.negated, bind, Except.bind]
    rfl
  have read := operands.shows.mapM each
  rw [List.map_id] at read
  simp only [Store.literals, Store.operands, walk_ring isRing, bind, Except.bind,
    row.filterM_everyOther]
  exact read

/-- The clauses that rings show are read off them. -/
theorem clauses_eq_ok {rings : List (Option Nat)} {clauses : List Clause}
    (shown : List.Forall₂ s.ShowsClause rings clauses) : s.clauses rings = .ok clauses := by
  refine mapM_eq_ok_of_forall₂ (shown.imp fun ring clause shown => ?_)
  rcases shown with ⟨A, _ | ⟨_, row⟩⟩
  · rfl
  · exact row.literals

theorem any_isNone_eq {rings : List (Option Nat)} {clauses : List Clause}
    (shown : List.Forall₂ s.ShowsClause rings clauses) :
    rings.any Option.isNone = clauses.any List.isEmpty := by
  induction shown with
  | nil => rfl
  | cons first _ ih =>
      rw [List.any_cons, List.any_cons, ih]
      rcases first with ⟨A, _ | ⟨nonempty, _⟩⟩
      · rfl
      · rw [List.isEmpty_eq_false_iff.2 nonempty]
        rfl

/-- The first clause of one literal is found, if there is any. -/
theorem unit?_eq_ok {rings : List (Option Nat)} {clauses : List Clause}
    (shown : List.Forall₂ s.ShowsClause rings clauses) :
    (clauses.findSome? Clause.unit? = none → s.unit? rings = .ok none) ∧
      ∀ l, clauses.findSome? Clause.unit? = some l → ∃ h B, s.unit? rings = .ok (some h) ∧
        s.HasPart h (.operand l.toOperand) B := by
  induction shown with
  | nil => exact ⟨fun _ => rfl, fun l none => by cases none⟩
  | @cons ring clause rings clauses first _ ih =>
      rcases first with ⟨A, _ | @⟨head, _, _, nonempty, row⟩⟩
      · exact ih
      · rcases Clause.exists_parts_eq nonempty with ⟨f, parts, single⟩
        have isSingle := HasRing.isSingle (f := f) (parts ▸ row)
        rw [single] at isSingle
        have looked : s.unit? (some head :: rings) =
            (s.isSingle head).bind fun found =>
              if found then .ok (some head) else s.unit? rings := by
          rw [Store.unit?, List.filterMap_cons_some (f := id) rfl, List.findM?]
          cases s.isSingle head with
          | error => rfl
          | ok found => cases found <;> rfl
        rw [isSingle] at looked
        cases unit : clause.unit? with
        | none =>
            rw [List.findSome?_cons_of_isNone (by rw [unit]; rfl)]
            rw [unit] at looked
            exact looked ▸ ih
        | some l =>
            rw [List.findSome?_cons_of_isSome (by rw [unit]; rfl), unit]
            rw [unit] at looked
            refine ⟨fun none => (by cases none), fun m same => ?_⟩
            cases same
            rw [Clause.eq_of_unit? unit] at row
            exact ⟨head, A, looked, (hasRow_singleton_iff.1 row).2⟩

/-- The name of the first literal of all is found at the first ring. -/
theorem exists_firstName {rings : List (Option Nat)} {first : Literal} {others : Clause}
    {rest : List Clause} (shown : List.Forall₂ s.ShowsClause rings ((first :: others) :: rest)) :
    ∃ head heads, rings.filterMap id = head :: heads ∧ s.name head = .ok first.name := by
  rcases shown with _ | ⟨⟨A, _ | @⟨head, _, _, _, row⟩⟩, shown⟩
  rcases row with ⟨members, _, _ | ⟨part, _, _⟩⟩
  exact ⟨head, _, List.filterMap_cons_some rfl, part.shows.name⟩

/-- The ring of a clause while literals are taken out of it: those that are left of the first ones,
and those of the members behind the cut, which are still to be looked at. -/
inductive Stripping (s : Store) : Option Nat → List Nat → Clause → Clause → Set Nat → Prop
  | done {ring : Option Nat} {left : Clause} {A : Set Nat} : s.HasClause ring left A →
      Stripping s ring [] left [] A
  | cut {head : Nat} {before after : List Nat} {left right : Clause} {A B : Set Nat} : right ≠ [] →
      s.Cut head before after (Part.leading .disj (left.map Literal.toOperand)) right.parts A B →
      Stripping s (some head) after left right (A ∪ B)

/-- A ring of the literals on both sides of a cut. -/
theorem Stripping.of_cut {head : Nat} {before after : List Nat} {left right : Clause}
    (several : left.map Literal.toOperand ++ right.map Literal.toOperand ≠ [])
    (cut : s.Cut head before after
      (Part.leadingTo .disj (left.map Literal.toOperand) (right.map Literal.toOperand))
      right.parts A B) :
    s.Stripping (some head) after left right (A ∪ B) := by
  cases right with
  | nil =>
      rcases cut.right
      have row := cut.hasRow
      rw [Clause.parts, Part.leadingTo_append_row, List.map_nil, List.append_nil] at row
      exact .done (.ring (by simpa using several) row)
  | cons l rest =>
      rw [Part.leadingTo, if_neg (by simp)] at cut
      exact .cut (List.cons_ne_nil l rest) cut

/-- The literal behind the cut is kept, with the disjunction that follows it. -/
theorem Stripping.keep {ring : Option Nat} {h : Nat} {more : List Nat} {left right : Clause}
    {l : Literal} (stripping : s.Stripping ring (h :: more) left (l :: right) A) :
    s.Stripping ring more.tail (left ++ [l]) right A := by
  rcases stripping with _ | @⟨head, before, _, _, _, A, B, _, cut⟩
  rcases cut.exists_gap with ⟨X, Y, rfl, part, gap, apart⟩
  cases right with
  | nil =>
      rcases gap.right
      refine .done (.ring (by simp) ?_)
      rw [Clause.parts, List.map_append, ← Part.leading_append_row (by simp)]
      exact cut.hasRow
  | cons m ms =>
      have past := gap.fill part apart
      rcases more with _ | ⟨link, rest⟩
      · exact nomatch gap.right
      rw [List.map_cons, Part.joined_eq_cons_row (List.cons_ne_nil _ _)] at past
      rcases past.exists_gap with ⟨L, Z, rfl, disjunction, gap', apart'⟩
      have past := gap'.fill disjunction apart'
      have longer : Part.leading .disj (left.map Literal.toOperand) ++ [.operand l.toOperand] ++
          [.link .disj] = Part.leading .disj ((left ++ [l]).map Literal.toOperand) := by
        simp [Part.leading]
      have whole : A ∪ (X ∪ (L ∪ Z)) = A ∪ X ∪ L ∪ Z := by grind
      rw [longer] at past
      rw [whole]
      exact .cut (List.cons_ne_nil m ms) past

end Store

namespace Builder

open Store

variable {s : Store} {A B : Set Nat}

/-! ### Making rings of clauses -/

/-- What is made of each element of a list without changing any node is made of all of them. -/
theorem yields_mapM_of_lasting {α β γ δ : Type} {x : α → Builder β} {f : γ → δ}
    {pre : Store → α → γ → Prop} {post : Store → β → δ → Prop}
    (preLasts : ∀ a c, Lasting fun s => pre s a c) (postLasts : ∀ b d, Lasting fun s => post s b d)
    (each : ∀ s a c, pre s a c → (x a).Yields s ∅ fun b s' _ => post s' b (f c))
    {as : List α} {cs : List γ} (given : List.Forall₂ (pre s) as cs) :
    (as.mapM x).Yields s ∅ fun bs s' _ => List.Forall₂ (post s') bs (cs.map f) := by
  have made := comesTo_mapM_of_lasting (g := fun c => .ok (f c)) preLasts postLasts each given
  rwa [mapM_eq_ok_of_forall₂ (List.forall₂_map_right_iff.2 (List.forall₂_same.2 fun _ _ => rfl))]
    at made

/-- A new node is put at the end of a ring. -/
theorem yields_push {head : Nat} {parts : List Part} {p : Part} {payload : Payload} {negated : Bool}
    (row : s.HasRow head parts A)
    (part : ∀ (s' : Store) (h : Nat), s'.Holds h payload negated → s'.HasPart h p {h}) :
    (push head payload negated).Yields s A fun _ s' B => s'.HasRow head (parts ++ [p]) B := by
  have evolves := (s.evolves_add payload negated ∅).restrict (C := {s.size}) (by simp)
  have single : (s.add payload negated).HasRow s.size [p] {s.size} :=
    hasRow_singleton_iff.2 ⟨s.isRing_add _ _, part _ _ (s.holds_add _ _)⟩
  rcases evolves.row row (Set.empty_disjoint A) with ⟨row, apart⟩
  rcases row.exists_insertBefore single apart.symm with ⟨s', inserted, longer, evolves'⟩
  refine ⟨(), s', _, (bind_of_ok (add_eq payload negated) _).trans (edit_of_ok inserted), ?_, longer⟩
  exact (evolves.mono (Set.empty_subset A)).comp evolves' (by grind) (by grind)

theorem yields_forM_addLink {head : Nat} {clause : Clause} (row : s.HasRow head clause.parts A)
    (nonempty : clause ≠ []) (rest : Clause) :
    ((rest.map fun l => (Connective.disj, slotOf l)).forM (addLink head)).Yields s A
      fun _ s' B => s'.HasRow head (clause ++ rest).parts B := by
  induction rest generalizing s A clause with
  | nil => exact .pure Set.Subset.rfl (by rwa [List.append_nil])
  | cons l rest ih =>
      have pushed : (addLink head (Connective.disj, slotOf l)).Yields s A fun _ s' B =>
          s'.HasRow head (clause ++ [l]).parts B := by
        refine (yields_push row fun _ _ => .link).bind Set.Subset.rfl fun _ s₁ B _ row => ?_
        refine ((yields_push row fun _ _ => .symbol).mono Set.subset_union_right).imp ?_
        intro _ s₂ C _ row
        rw [List.append_assoc] at row
        rw [Clause.parts, List.map_append, List.map_singleton,
          Part.row_concat (by simpa using nonempty)]
        exact row
      refine pushed.bind Set.Subset.rfl fun _ s₁ B _ row => ?_
      refine ((ih row (by simp)).mono Set.subset_union_right).imp fun _ s₂ C _ row => ?_
      rwa [List.append_assoc] at row

theorem yields_addClause (clause : Clause) (s : Store) :
    (addClause clause).Yields s ∅ fun ring s' _ => s'.ShowsClause ring clause := by
  cases clause with
  | nil => exact .pure Set.Subset.rfl ⟨∅, .empty⟩
  | cons l rest =>
      have made : (addRow ⟨slotOf l, rest.map fun l => (.disj, slotOf l)⟩).Yields s ∅
          fun head s' B => s'.HasRow head (Clause.parts (l :: rest)) B := by
        refine (yields_add_symbol l.name l.negated).bind Set.Subset.rfl fun head s₁ B _ row => ?_
        have first : s₁.HasRow head (Clause.parts [l]) B := row
        refine (yields_forM_addLink first (List.cons_ne_nil l []) rest).bind
          Set.subset_union_right fun _ s₂ C _ row => ?_
        exact .pure Set.subset_union_right row
      refine made.bind Set.Subset.rfl fun head s₁ B _ row => ?_
      exact .pure Set.subset_union_right ⟨B, .ring (List.cons_ne_nil l rest) row⟩

theorem yields_mapM_addClause (clauses : List Clause) (s : Store) :
    (clauses.mapM addClause).Yields s ∅ fun rings s' _ =>
      List.Forall₂ s'.ShowsClause rings clauses := by
  have each (s : Store) (clause clause' : Clause) (same : clause = clause') :
      (addClause clause).Yields s ∅ fun ring s' _ => s'.ShowsClause ring (id clause') :=
    same ▸ yields_addClause clause s
  have made := yields_mapM_of_lasting (s := s)
    (fun clause clause' => lasting_const (clause = clause')) lasting_showsClause each
    (List.forall₂_same.2 fun clause (_ : clause ∈ clauses) => rfl)
  rwa [List.map_id] at made

/-- The clauses of a formula are made, or its table fails with the same error. -/
theorem comesTo_addClauses {head : Nat} {f : Formula} (shown : s.Shows head f) :
    (addClauses head).ComesTo s ∅ (Clause.ofFormula f) fun rings clauses s' _ =>
      List.Forall₂ s'.ShowsClause rings clauses := by
  have looked : (s.formula head).bind Clause.ofFormula = Clause.ofFormula f := by
    rw [shown.formula]
    rfl
  cases outcome : Clause.ofFormula f with
  | error error =>
      exact .fails (bind_of_error (read_of_error (looked.trans outcome)) _)
  | ok clauses =>
      exact .read (looked.trans outcome) (yields_mapM_addClause clauses s)

/-! ### Assuming literals -/

/-- A literal is kept, or it is taken out of the ring if it is of the given symbol. -/
theorem yields_stripOperand {ring : Option Nat} {h : Nat} {more : List Nat} {left right : Clause}
    {l : Literal} (stripping : s.Stripping ring (h :: more) left (l :: right) A) (name : String) :
    (stripOperand name ring h).Yields s A fun ring s' B =>
      s'.Stripping ring more.tail (left ++ [l].filter (·.name != name)) right B := by
  have keep := stripping.keep
  rcases stripping with _ | @⟨head, before, _, _, _, A, B, _, cut⟩
  rcases cut.exists_gap with ⟨X, Y, rfl, part, gap, apart⟩
  refine .read part.shows.name ?_
  by_cases same : l.name = name
  · have isRing : s.IsRing (h :: (more ++ before)) := gap.isRing.rotate
    simp only [same, bne_self_eq_false, Bool.false_eq_true, if_false, List.filter_cons,
      List.filter_nil, List.append_nil]
    refine .read isRing.isSingle ?_
    by_cases last : left = [] ∧ right = []
    · rcases last with ⟨rfl, rfl⟩
      rcases gap.left
      rcases gap.right
      exact .pure (Set.empty_subset _) (.done .empty)
    · have several : left.map Literal.toOperand ++ right.map Literal.toOperand ≠ [] := by
        simpa using last
      have notSingle : (more ++ before).isEmpty ≠ true := by
        intro alone
        rcases List.append_eq_nil_iff.1 (List.isEmpty_iff.1 alone) with ⟨rfl, rfl⟩
        cases left with
        | nil =>
            cases right with
            | nil => exact last ⟨rfl, rfl⟩
            | cons => exact nomatch gap.right
        | cons => exact nomatch gap.left
      rw [if_neg notSingle]
      refine (yields_takeOperand cut several).bind Set.Subset.rfl ?_
      rintro head' s₁ _ _ ⟨_, cut', _⟩
      exact .pure (by grind) (.of_cut several cut')
  · have kept : (l.name != name) = true := by simpa using same
    rw [if_pos kept, List.filter_cons, if_pos kept, List.filter_nil]
    exact .pure Set.Subset.rfl keep

/-- The literals of a symbol are taken out of the ring of a clause. -/
theorem yields_foldlM_stripOperand {ring : Option Nat} {after : List Nat} {left right : Clause}
    (stripping : s.Stripping ring after left right A) (name : String) :
    ((everyOther after).foldlM (stripOperand name) ring).Yields s A fun ring s' B =>
      s'.HasClause ring (left ++ right.filter (·.name != name)) B := by
  induction right generalizing s ring after left A with
  | nil =>
      rcases stripping with whole | ⟨several, _⟩
      · exact .pure Set.Subset.rfl (by rwa [List.filter_nil, List.append_nil])
      · contradiction
  | cons l right ih =>
      have several : after ≠ [] := by
        rintro rfl
        rcases stripping with _ | ⟨_, cut⟩
        exact nomatch cut.right
      rcases List.exists_cons_of_ne_nil several with ⟨h, more, rfl⟩
      rw [everyOther_cons, List.foldlM_cons]
      refine (yields_stripOperand stripping name).bind Set.Subset.rfl fun ring s₁ B _ stripping => ?_
      refine ((ih stripping).mono Set.subset_union_right).imp fun ring s₂ C _ whole => ?_
      rwa [List.append_assoc, ← List.filter_append] at whole

/-- What is left of a clause without the literals of a symbol is a ring of its own. -/
theorem yields_strip {head : Nat} {clause : Clause} (nonempty : clause ≠ [])
    (row : s.HasRow head clause.parts A) (name : String) :
    (strip name head).Yields s ∅ fun ring s' _ =>
      s'.ShowsClause ring (clause.filter (·.name != name)) := by
  rcases Clause.exists_parts_eq nonempty with ⟨f, parts, _⟩
  rw [← parts] at row
  refine (yields_copy row.shows).bind Set.Subset.rfl fun copied s₁ B _ row => ?_
  rw [HasRing, parts] at row
  rcases row with ⟨rest, isRing, row⟩
  have operands : s₁.operands copied = .ok (everyOther (copied :: rest)) := by
    simp only [Store.operands, walk_ring isRing, bind, Except.bind, row.filterM_everyOther]
  have cut : s₁.Cut copied [] (copied :: rest) (Part.leading .disj []) clause.parts ∅ B :=
    ⟨isRing, rfl, .nil, row, Set.empty_disjoint B⟩
  have stripping : s₁.Stripping (some copied) (copied :: rest) [] clause (∅ ∪ B) :=
    .cut nonempty cut
  refine .read operands (((yields_foldlM_stripOperand stripping name).mono (by simp)).imp ?_)
  exact fun ring s₂ C _ whole => ⟨C, whole⟩

/-- What is left of a clause once a literal is true. -/
theorem yields_assumeIn {ring : Option Nat} {clause : Clause} (shown : s.ShowsClause ring clause)
    (l : Literal) :
    (assumeIn l ring).Yields s ∅ fun rings s' _ =>
      List.Forall₂ s'.ShowsClause rings (assume l [clause]) := by
  rcases shown with ⟨A, whole⟩
  rw [assume_cons, assume_nil]
  cases whole with
  | empty => exact .pure Set.Subset.rfl (.cons ⟨∅, .empty⟩ .nil)
  | @ring head _ _ nonempty row =>
      refine .read row.literals ?_
      by_cases untouched : clause.all (·.name != l.name) = true
      · have others := List.all_eq_true.1 untouched
        have notHeld : clause.contains l = false := by
          by_contra held
          simpa using others l (by simpa using held)
        rw [if_pos untouched, if_neg (Bool.eq_false_iff.1 notHeld), List.filter_eq_self.2 others]
        exact .pure Set.Subset.rfl (.cons ⟨A, .ring nonempty row⟩ .nil)
      · rw [if_neg untouched]
        by_cases held : clause.contains l = true
        · rw [if_pos held, if_pos held]
          exact .pure Set.Subset.rfl .nil
        · rw [if_neg held, if_neg held]
          refine (yields_strip nonempty row l.name).bind Set.Subset.rfl fun ring s₁ B _ shown => ?_
          exact .pure (Set.empty_subset _) (.cons shown .nil)

/-- What is left of the clauses once a literal is true. -/
theorem yields_assumeAll {rings : List (Option Nat)} {clauses : List Clause}
    (shown : List.Forall₂ s.ShowsClause rings clauses) (l : Literal) :
    (assumeAll l rings).Yields s ∅ fun rings s' _ =>
      List.Forall₂ s'.ShowsClause rings (assume l clauses) := by
  have each := yields_mapM_of_lasting (f := fun clause => assume l [clause]) lasting_showsClause
    (fun rings clauses => Lasting.forall₂ lasting_showsClause rings clauses)
    (fun s ring clause shown => yields_assumeIn shown l) shown
  refine each.bind Set.Subset.rfl fun parts s₁ B _ shown => ?_
  rw [← assume_flatten]
  exact .pure (Set.empty_subset _) (List.rel_flatten shown)

/-! ### Searching -/

/-- A new clause of one literal goes behind the others. -/
theorem yields_add_unit {rings : List (Option Nat)} {clauses : List Clause}
    (shown : List.Forall₂ s.ShowsClause rings clauses) (l : Literal) :
    (add (.symbol l.name) l.negated).Yields s ∅ fun h s' _ =>
      List.Forall₂ s'.ShowsClause (rings ++ [some h]) (clauses ++ [[l]]) := by
  refine (yields_add_symbol l.name l.negated).imp fun h s' B evolves row => ?_
  have shown := Lasting.forall₂ lasting_showsClause rings clauses evolves shown
  exact List.rel_append shown (.cons ⟨B, .ring (List.cons_ne_nil l []) row⟩ .nil)

/-- Where no clause is empty or of one literal, the symbol of the first literal is tried with both
values, the positive literal first. -/
theorem yields_searchTo_of_branch {bound : Nat} {rings : List (Option Nat)} {first : Literal}
    {others : Clause} {rest : List Clause}
    (shown : List.Forall₂ s.ShowsClause rings ((first :: others) :: rest))
    (noEmpty : ¬ ((first :: others) :: rest).any List.isEmpty = true)
    (noUnit : ((first :: others) :: rest).findSome? Clause.unit? = none) (path : List Literal)
    (each : ∀ s rings negated,
      List.Forall₂ s.ShowsClause rings (((first :: others) :: rest) ++ [[⟨first.name, negated⟩]]) →
      (searchTo bound rings path).Yields s ∅ fun found _ _ =>
        found = search (((first :: others) :: rest) ++ [[⟨first.name, negated⟩]]) path) :
    (searchTo (bound + 1) rings path).Yields s ∅ fun found _ _ =>
      found = (search (((first :: others) :: rest) ++ [[⟨first.name, false⟩]]) path).or
        (search (((first :: others) :: rest) ++ [[⟨first.name, true⟩]]) path) := by
  rcases exists_firstName shown with ⟨head, heads, listed, named⟩
  rw [searchTo, any_isNone_eq shown, if_neg noEmpty]
  refine .read ((unit?_eq_ok shown).1 noUnit) ?_
  simp only [listed]
  refine .read named ?_
  refine (yields_add_unit shown ⟨first.name, false⟩).bind Set.Subset.rfl ?_
  intro positive s₁ B evolves shown'
  refine (each s₁ _ false shown').bind (Set.empty_subset _) ?_
  rintro _ s₂ C evolves' rfl
  cases search (((first :: others) :: rest) ++ [[⟨first.name, false⟩]]) path with
  | some found => exact .pure (Set.empty_subset _) rfl
  | none =>
      have shown := Lasting.forall₂ lasting_showsClause _ _ evolves shown
      have shown := Lasting.forall₂ lasting_showsClause _ _ evolves' shown
      refine (yields_add_unit shown ⟨first.name, true⟩).bind (Set.empty_subset _) ?_
      intro negative s₃ D _ shown
      exact (each s₃ _ true shown).mono (Set.empty_subset _)

/-- A search in a store finds what a search among the clauses finds. -/
theorem yields_searchTo {bound : Nat} {rings : List (Option Nat)} {clauses : List Clause}
    (shown : List.Forall₂ s.ShowsClause rings clauses) (enough : searchBound clauses < bound)
    (path : List Literal) :
    (searchTo bound rings path).Yields s ∅ fun found _ _ => found = search clauses path := by
  induction bound generalizing s rings clauses path with
  | zero => exact absurd enough (Nat.not_lt_zero _)
  | succ bound ih =>
      have enough := Nat.le_of_lt_succ enough
      fun_cases search clauses path with
      | case1 clauses hasEmpty =>
          rw [searchTo, any_isNone_eq shown, if_pos hasEmpty]
          exact .pure Set.Subset.rfl rfl
      | case2 clauses noEmpty l unit fewer =>
          rw [searchTo, any_isNone_eq shown, if_neg noEmpty]
          rcases (unit?_eq_ok shown).2 l unit with ⟨h, B, found, part⟩
          refine .read found (.read part.shows.name (.read part.shows.negated ?_))
          refine (yields_assumeAll shown l).bind Set.Subset.rfl fun left s₁ C _ shown => ?_
          exact (ih shown (Nat.lt_of_lt_of_le fewer enough) _).mono (Set.empty_subset _)
      | case3 =>
          cases shown
          exact .read rfl (.pure Set.Subset.rfl rfl)
      | case4 rest unit noEmpty => simp at noEmpty
      | case5 first others rest unit branch fewer fewer' found succeeded noEmpty =>
          refine (yields_searchTo_of_branch shown noEmpty unit path fun s rings negated shown =>
            ih shown (Nat.lt_of_lt_of_le (branch negated) enough) path).imp ?_
          rintro _ s₁ B _ rfl
          rw [succeeded, Option.some_or]
      | case6 first others rest unit branch fewer fewer' failed noEmpty =>
          refine (yields_searchTo_of_branch shown noEmpty unit path fun s rings negated shown =>
            ih shown (Nat.lt_of_lt_of_le (branch negated) enough) path).imp ?_
          rintro _ s₁ B _ rfl
          rw [failed, Option.none_or]

/-- A search in a store finds what a search among the clauses finds. -/
theorem yields_searchClauses {rings : List (Option Nat)} {clauses : List Clause}
    (shown : List.Forall₂ s.ShowsClause rings clauses) :
    (searchClauses rings).Yields s ∅ fun found _ _ => found = search clauses [] :=
  .read (clauses_eq_ok shown) (yields_searchTo shown (Nat.lt_succ_self _) [])

end Builder

open Store Builder

/-- The clauses of a knowledge base are made, or a table fails with the same error. -/
theorem Base.Shows.comesTo_addClauses {kb : Base} {base : KnowledgeBase} {s : Store}
    (shown : kb.Shows s base) :
    kb.addClauses.ComesTo s ∅ (Clause.ofFormulas base.clauses) fun rings clauses s' _ =>
      List.Forall₂ s'.ShowsClause rings clauses := by
  have made := comesTo_mapM_of_lasting lasting_shows
    (fun rings clauses => Lasting.forall₂ lasting_showsClause rings clauses)
    (fun s head f shown => Builder.comesTo_addClauses shown) shown
  exact made.map_answer fun _ _ _ _ shown => List.rel_flatten shown

end Ring

end Entail
