import Entail.Proofs.Formula.Precedence
import Entail.Proofs.Outcome
import Entail.Proofs.Ring.Rows

/-!
# Grouping rings by precedence

Collapsing the connectives of a ring in place comes to the same as merging the
links of the row that it holds.  Rings that are grouped already stay as they
are.
-/

namespace Entail.Ring

variable {base s : Store} {old : List Nat}

/-! ### Looking for connectives -/

namespace Member

theorem Laid.isLink {m : Member} (laid : m.Laid s) : s.isLink m.handle = .ok m.link?.isSome := by
  cases laid with
  | operand laid => exact laid.isLink
  | link holds =>
      rw [Store.isLink, handle, holds.payload]
      rfl

/-- The connective nodes of a row are found in order. -/
theorem filterM_isLink {members : List Member} (laid : ∀ m ∈ members, m.Laid s) :
    (members.map handle).filterM s.isLink =
      .ok ((members.filter fun m => m.link?.isSome).map handle) := by
  induction members with
  | nil => rfl
  | cons m members ih =>
      rw [List.forall_mem_cons] at laid
      rw [List.map_cons, filterM_cons _ laid.1.isLink (ih laid.2), List.filter_cons]
      split <;> rfl

/-- The leftmost node of a connective is found. -/
theorem findM?_connective {members : List Member} (laid : ∀ m ∈ members, m.Laid s)
    (c : Connective) :
    ((members.filter fun m => m.link?.isSome).map handle).findM?
        (fun op => return (← s.connective op) = c) =
      .ok ((members.find? fun m => m.link? = some c).map handle) := by
  induction members with
  | nil => rfl
  | cons m members ih =>
      rw [List.forall_mem_cons] at laid
      have rest := ih laid.2
      cases laid.1 with
      | operand => simpa [link?] using rest
      | @link h d holds =>
          have isSame : (do return (← s.connective h) = c) = Except.ok (decide (d = c)) := by
            rw [holds.connective]
            rfl
          rw [List.filter_cons_of_pos rfl, List.map_cons, handle, List.findM?, isSame]
          by_cases same : d = c
          · rw [List.find?_cons_of_pos (by simp [link?, same]), decide_eq_true same]
            rfl
          · rw [List.find?_cons_of_neg (by simp [link?, same]), decide_eq_false same]
            exact rest

end Member

namespace RowLayout

theorem Laid.walk {row : RowLayout} (laid : row.Laid s) :
    s.walk row.head = .ok (row.members.map Member.handle) :=
  Store.walk_ring laid.ring

/-- The connective nodes that a level starts with. -/
theorem Laid.links {row : RowLayout} (laid : row.Laid s) :
    (do (← s.walk row.head).filterM s.isLink) =
      Except.ok ((row.members.filter fun m => m.link?.isSome).map Member.handle) := by
  simp only [laid.walk, bind, Except.bind, Member.filterM_isLink laid.member]

theorem length_rest_row (row : RowLayout) : row.row.rest.length = row.rest.length :=
  List.length_map _

/-- A store has more nodes than a row in it has connectives. -/
theorem Laid.length_rest_lt {row : RowLayout} (laid : row.Laid s) :
    row.rest.length < s.size + 1 := by
  have few := Store.length_le_size laid.ring.nodup laid.ring.lt_size
  have links := List.length_filter_le (fun m => m.link?.isSome) row.members
  rw [List.length_map] at few
  rw [row.length_links] at links
  omega

end RowLayout

/-! ### Levels -/

namespace Builder

/-- A row with one connective at most is left alone. -/
theorem groupLevel_of_short {row : RowLayout} (laid : row.Laid s) (short : row.rest.length < 2)
    (c : Connective) (bound : Nat) :
    groupLevel c (bound + 1) row.head s = .ok (row.head, true) s := by
  rw [groupLevel, bind_of_ok (read_of_ok laid.links),
    if_pos (by rwa [List.length_map, row.length_links])]
  rfl

/-- Collapsing the leftmost node of a connective again and again merges its links from the left to
the right. -/
theorem exists_groupLevel {row : RowLayout} (built : row.Built base s old) (c : Connective)
    {bound : Nat} (enough : row.rest.length < bound) :
    ∃ (s' : Store) (row' : RowLayout) (done : Bool),
      groupLevel c bound row.head s = .ok (row'.head, done) s' ∧
      row'.Built base s' old ∧ s.size ≤ s'.size ∧
      ∀ weaker, row.row.groupLinks Row.enclose (c :: weaker) =
        if done then row'.row else row'.row.groupLinks Row.enclose weaker := by
  induction bound generalizing row s with
  | zero => contradiction
  | succ bound ih =>
      by_cases short : row.rest.length < 2
      · have grouped (weaker : List Connective) :
            row.row.groupLinks Row.enclose (c :: weaker) = row.row :=
          Row.groupLinks_of_short (by rwa [row.length_rest_row]) (c :: weaker)
        exact ⟨s, row, true, groupLevel_of_short built.laid short c bound, built, Nat.le_refl _,
          grouped⟩
      · have long : ¬ row.row.rest.length < 2 := by rwa [row.length_rest_row]
        have found := Member.findM?_connective built.laid.member c
        rw [groupLevel, bind_of_ok (read_of_ok built.laid.links),
          if_neg (by rwa [List.length_map, row.length_links]), bind_of_ok (read_of_ok found)]
        cases merged : Row.mergeFirst? Row.enclose c row.row.first row.row.rest with
        | none =>
            have missing := RowLayout.link?_ne_of_mergeFirst?_eq_none merged
            have noneAtAll : row.members.find? (fun m => m.link? = some c) = none :=
              List.find?_eq_none.2 fun m listed => by simpa using missing m listed
            rw [noneAtAll]
            exact ⟨s, row, false, rfl, built, Nat.le_refl _, Row.groupLinks_of_none long merged⟩
        | some shorter =>
            rcases RowLayout.exists_merge merged with ⟨left, y, op, z, right, split, before, build⟩
            have first : row.members.find? (fun m => m.link? = some c) = some (.link op c) := by
              have noneBefore : left.find? (fun m => m.link? = some c) = none :=
                List.find?_eq_none.2 fun m listed => by simpa using before m listed
              rw [RowLayout.members, split, List.find?_append, noneBefore]
              simp [Member.link?]
            rcases build s.size with ⟨row₁, members, rfl⟩
            rcases built.exists_collapse split members with ⟨s₁, collapsed, built₁, grown⟩
            have fewer := Row.length_mergeFirst? merged
            rw [row.length_rest_row, row₁.length_rest_row] at fewer
            rcases ih built₁ (by omega) with ⟨s', row', done, ran, built', grown', grouped⟩
            rw [first, Option.map_some]
            have goesOn (weaker : List Connective) :=
              (Row.groupLinks_of_some long merged weaker).trans (grouped weaker)
            exact ⟨s', row', done, (bind_of_ok collapsed _).trans ran, built',
              Nat.le_trans grown grown', goesOn⟩

/-- Collapsing the connectives of all levels merges the links of the row. -/
theorem exists_groupLevels {row : RowLayout} (built : row.Built base s old)
    (levels : List Connective) :
    ∃ (s' : Store) (row' : RowLayout), groupLevels levels row.head s = .ok row'.head s' ∧
      row'.Built base s' old ∧ s.size ≤ s'.size ∧
      row'.row = row.row.groupLinks Row.enclose levels := by
  induction levels generalizing row s with
  | nil => exact ⟨s, row, rfl, built, Nat.le_refl _, by rw [Row.groupLinks]⟩
  | cons c weaker ih =>
      rcases exists_groupLevel built c built.laid.length_rest_lt with
        ⟨s₁, row₁, done, ran, built₁, grown, grouped⟩
      have starts : groupLevels (c :: weaker) row.head s =
          (if done then pure row₁.head else groupLevels weaker row₁.head) s₁ := by
        rw [groupLevels, bind_of_ok get_eq, bind_of_ok ran]
      cases done with
      | true => exact ⟨s₁, row₁, starts, built₁, grown, (grouped weaker).symm⟩
      | false =>
          rcases ih built₁ with ⟨s', row', ran', built', grown', grouped'⟩
          exact ⟨s', row', starts.trans ran', built', Nat.le_trans grown grown',
            grouped'.trans (grouped weaker).symm⟩

/-- A row with one connective at most is left alone on all levels. -/
theorem groupLevels_of_short {row : RowLayout} (laid : row.Laid s) (short : row.rest.length < 2) :
    groupLevels Connective.byStrength row.head s = .ok row.head s := by
  rw [Connective.byStrength, groupLevels, bind_of_ok get_eq,
    bind_of_ok (groupLevel_of_short laid short .conj s.size)]
  rfl

end Builder

/-! ### Grouped rings -/

/-- The row that a ring is. -/
def RingLayout.row : RingLayout → RowLayout
  | single x => ⟨x, []⟩
  | pair left handle link right => ⟨left, [⟨handle, link, right⟩]⟩

namespace RingLayout

variable {ring : RingLayout}

theorem head_row (ring : RingLayout) : ring.row.head = ring.head := by
  cases ring <;> rfl

theorem formula_row (ring : RingLayout) : ring.row.row.formula = ring.formula := by
  cases ring <;> rfl

theorem length_rest_row (ring : RingLayout) : ring.row.rest.length < 2 := by
  cases ring with
  | single => exact Nat.zero_lt_two
  | pair => exact Nat.one_lt_two

theorem perm_handles_row (ring : RingLayout) : ring.handles.Perm ring.row.handles := by
  rw [List.perm_iff_count]
  intro h
  cases ring with
  | single x => simp [row, RowLayout.handles, RowLayout.members, RowLayout.tail, handles,
      Member.handle, Member.owned]
  | pair left op c right =>
      simp only [row, RowLayout.handles, RowLayout.members, RowLayout.tail, handles, Member.handle,
        Member.owned, List.map_cons, List.map_nil, List.flatMap_cons, List.flatMap_nil,
        List.count_append, List.count_cons, List.count_nil, List.cons_append, List.nil_append]
      omega

/-- A row with one connective at most is a ring. -/
theorem exists_row_eq {row : RowLayout} (short : row.rest.length < 2) :
    ∃ ring : RingLayout, ring.row = row := by
  rcases row with ⟨x, _ | ⟨⟨op, c, y⟩, _ | ⟨link, rest⟩⟩⟩
  · exact ⟨.single x, rfl⟩
  · exact ⟨.pair x op c y, rfl⟩
  · simp only [List.length_cons] at short
    omega

theorem laid_row_iff : ring.row.Laid s ↔ ring.Laid s := by
  cases ring with
  | single x =>
      constructor
      · rintro ⟨isRing, member⟩
        cases member (.operand x) List.mem_cons_self with
        | operand laid => exact .single isRing laid
      · rintro (⟨isRing, laid⟩ | _)
        exact ⟨isRing, List.forall_mem_singleton.2 (.operand laid)⟩
  | pair left op c right =>
      constructor
      · rintro ⟨isRing, member⟩
        simp only [row, RowLayout.members, RowLayout.tail, List.flatMap_cons, List.flatMap_nil,
          List.cons_append, List.nil_append, List.forall_mem_cons] at member
        rcases member with ⟨⟨laid⟩, linkLaid, ⟨laid'⟩, _⟩
        cases linkLaid with
        | link holds => exact .pair isRing laid holds laid'
      · intro laid
        cases laid with
        | pair isRing laid holds laid' =>
            constructor
            · exact isRing
            · simp only [row, RowLayout.members, RowLayout.tail, List.flatMap_cons,
                List.flatMap_nil, List.cons_append, List.nil_append, List.forall_mem_cons]
              exact ⟨.operand laid, .link holds, .operand laid', List.forall_mem_nil _⟩

end RingLayout

/-! ### Rings in rings -/

namespace Store

/-- Storing what a node holds already changes nothing. -/
theorem Holds.setPayload {h : Nat} {payload : Payload} {negated : Bool}
    (holds : s.Holds h payload negated) : s.setPayload h payload = .ok s := by
  rcases holds.exists_node with ⟨n, found, rfl, _⟩
  exact modify_of_same found rfl

end Store

namespace Builder

theorem regroup_of_link {h : Nat} {c : Connective} {negated : Bool}
    (holds : s.Holds h (.link c) negated) (inner : Nat → Builder Nat) :
    regroup inner h s = .ok () s := by
  rw [regroup, bind_of_ok (read_of_ok holds.payload)]
  rfl

theorem forM_regroup {inner : Nat → Builder Nat} {members : List Member}
    (same : ∀ m ∈ members, regroup inner m.handle s = .ok () s) :
    (members.map Member.handle).forM (regroup inner) s = .ok () s := by
  induction members with
  | nil => rfl
  | cons m members ih =>
      rw [List.forall_mem_cons] at same
      exact (bind_of_ok same.1 _).trans (ih same.2)

end Builder

mutual

/-- The ring of a group that is laid out is left alone. -/
theorem OperandLayout.Laid.regroup {x : OperandLayout} (laid : x.Laid s) {levels : Nat}
    (enough : x.depth ≤ levels) :
    Builder.regroup (Builder.applyPrecedence levels) x.handle s = .ok () s := by
  cases laid with
  | symbol holds =>
      rw [Builder.regroup, OperandLayout.handle,
        Builder.bind_of_ok (Builder.read_of_ok holds.payload)]
      rfl
  | group holds laid =>
      have inner := laid.applyPrecedence enough
      rw [Builder.regroup, OperandLayout.handle,
        Builder.bind_of_ok (Builder.read_of_ok holds.payload)]
      exact (Builder.bind_of_ok inner _).trans (Builder.edit_of_ok holds.setPayload)

/-- A ring that is laid out is left alone. -/
theorem RingLayout.Laid.applyPrecedence {ring : RingLayout} (laid : ring.Laid s) {levels : Nat}
    (enough : ring.depth ≤ levels) :
    Builder.applyPrecedence levels ring.head s = .ok ring.head s := by
  cases levels with
  | zero => cases ring <;> exact absurd enough (Nat.not_succ_le_zero _)
  | succ levels =>
      have laidRow := RingLayout.laid_row_iff.2 laid
      have same : ∀ m ∈ ring.row.members,
          Builder.regroup (Builder.applyPrecedence levels) m.handle s = .ok () s := by
        cases laid with
        | single _ laid =>
            exact List.forall_mem_singleton.2 (laid.regroup (Nat.le_of_succ_le_succ enough))
        | @pair left right op c _ laid holds laid' =>
            have enough : max left.depth right.depth ≤ levels := Nat.le_of_succ_le_succ enough
            have first := laid.regroup (Nat.le_trans (Nat.le_max_left _ _) enough)
            have second := laid'.regroup (Nat.le_trans (Nat.le_max_right _ _) enough)
            exact List.forall_mem_cons.2 ⟨first, List.forall_mem_cons.2
              ⟨Builder.regroup_of_link holds _, List.forall_mem_singleton.2 second⟩⟩
      rw [← ring.head_row, Builder.applyPrecedence,
        Builder.bind_of_ok (Builder.read_of_ok laidRow.walk)]
      exact (Builder.bind_of_ok (Builder.forM_regroup same) _).trans
        (Builder.groupLevels_of_short laidRow ring.length_rest_row)

end

/-- Grouping a row that has been added makes a ring of its formula. -/
theorem RowLayout.Built.exists_applyPrecedence {row : RowLayout} (built : row.Built base s old)
    (shallow : ∀ x, .operand x ∈ row.members → x.depth ≤ s.size) :
    ∃ (s' : Store) (ring : RingLayout) (new : List Nat),
      Builder.applyPrecedence (s.size + 1) row.head s = .ok ring.head s' ∧ ring.Laid s' ∧
        base.Adds s' new ∧ ring.handles.Perm (new ++ old) ∧ s.size ≤ s'.size ∧
        ring.formula = row.row.byPrecedence := by
  have same : ∀ m ∈ row.members,
      Builder.regroup (Builder.applyPrecedence s.size) m.handle s = .ok () s := by
    intro m listed
    cases built.laid.member m listed with
    | @operand x laid => exact laid.regroup (shallow x listed)
    | link holds => exact Builder.regroup_of_link holds _
  rcases Builder.exists_groupLevels built Connective.byStrength with
    ⟨s', row', ran, built', grown, grouped⟩
  have short : row'.rest.length < 2 := by
    rw [← row'.length_rest_row, grouped]
    exact row.row.length_groupLinks_byStrength
  rcases RingLayout.exists_row_eq short with ⟨ring, rfl⟩
  have applied : Builder.applyPrecedence (s.size + 1) row.head s = .ok ring.head s' := by
    rw [Builder.applyPrecedence, Builder.bind_of_ok (Builder.read_of_ok built.laid.walk),
      ← ring.head_row]
    exact (Builder.bind_of_ok (Builder.forM_regroup same) _).trans ran
  have formula : ring.formula = row.row.byPrecedence := by
    rw [← ring.formula_row, grouped]
    rfl
  rcases built'.exists_new with ⟨new, adds, perm⟩
  exact ⟨s', ring, new, applied, RingLayout.laid_row_iff.1 built'.laid, adds,
    ring.perm_handles_row.trans perm, grown, formula⟩

end Entail.Ring
