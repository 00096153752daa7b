import Entail.Proofs.Formula.Grammar

/-!
# Grouping by precedence

While the links of a row are merged, each of its elements stands for a segment
of the original row.  The links inside of segments bind tighter than those
between them, and as the links of one connective are merged from left to right,
a segment behind such a link holds none itself.  So every merge splits a
segment where the grammar splits it.
-/

namespace Entail

/-- A segment of a row, and the formula that it is grouped to. -/
structure Segment where
  source : Row Operand
  formula : Formula

namespace Segment

/-- A segment of one operand. -/
def ofOperand (x : Operand) : Segment :=
  ⟨⟨x, []⟩, .single x⟩

/-- The operand that a segment is put in place of. -/
def operand (segment : Segment) : Operand :=
  segment.formula.toOperand

/-- Two segments and the connective between them as one segment. -/
def merge (left : Segment) (c : Connective) (right : Segment) : Segment :=
  ⟨left.source.append c right.source, .pair left.operand c right.operand⟩

@[simp]
theorem operand_ofOperand (x : Operand) : (ofOperand x).operand = x :=
  rfl

theorem operand_merge (left : Segment) (c : Connective) (right : Segment) :
    (left.merge c right).operand = Row.enclose left.operand c right.operand :=
  rfl

/-- A segment that is grouped already, with no link weaker than the given rank. -/
structure Settled (rank : Nat) (segment : Segment) : Prop where
  grouped : Grouped segment.source segment.formula
  bound : ∀ d ∈ segment.source.links, d.rank ≤ rank

theorem Settled.mono {rank : Nat} {segment : Segment} (settled : segment.Settled rank) :
    segment.Settled (rank + 1) :=
  ⟨settled.grouped, fun d isLink => Nat.le_succ_of_le (settled.bound d isLink)⟩

end Segment

namespace Row

theorem links_append {α : Type} (left : Row α) (c : Connective) (right : Row α) :
    (left.append c right).links = left.links ++ c :: right.links := by
  simp [append, links]

theorem append_assoc {α : Type} (left middle right : Row α) (c d : Connective) :
    (left.append c middle).append d right = left.append c (middle.append d right) := by
  simp [append]

/-! ### Merging and maps -/

section Map

variable {α β : Type} {merge : α → Connective → α → α} {c : Connective} {row : Row α}

theorem groupLinks_of_short (short : row.rest.length < 2) (levels : List Connective) :
    row.groupLinks merge levels = row := by
  cases levels with
  | nil => rw [groupLinks]
  | cons c weaker => rw [groupLinks, if_pos short]

theorem groupLinks_of_some {shorter : Row α} (long : ¬ row.rest.length < 2)
    (merged : mergeFirst? merge c row.first row.rest = some shorter) (weaker : List Connective) :
    row.groupLinks merge (c :: weaker) = shorter.groupLinks merge (c :: weaker) := by
  rw [groupLinks, if_neg long]
  split
  · next found =>
      cases found.symm.trans merged
      rfl
  · next missing => exact absurd (missing.symm.trans merged) (Option.some_ne_none _).symm

theorem groupLinks_of_none (long : ¬ row.rest.length < 2)
    (missing : mergeFirst? merge c row.first row.rest = none) (weaker : List Connective) :
    row.groupLinks merge (c :: weaker) = row.groupLinks merge weaker := by
  rw [groupLinks, if_neg long]
  split
  · next found => exact absurd (found.symm.trans missing) (Option.some_ne_none _)
  · rfl

variable {f : α → β} {merge' : β → Connective → β → β}

theorem length_rest_map (f : α → β) (row : Row α) : (row.map f).rest.length = row.rest.length := by
  simp [map]

theorem mergeFirst?_map (commutes : ∀ x c y, f (merge x c y) = merge' (f x) c (f y))
    (c : Connective) (x : α) (rest : List (Connective × α)) :
    mergeFirst? merge' c (f x) (rest.map fun pair => (pair.1, f pair.2)) =
      (mergeFirst? merge c x rest).map (map f) := by
  induction rest generalizing x with
  | nil => rfl
  | cons pair rest ih =>
      rcases pair with ⟨d, y⟩
      by_cases same : d = c
      · simp [mergeFirst?, same, map, commutes]
      · simp only [List.map_cons, mergeFirst?, same, if_false, ih, Option.map_map]
        rfl

theorem groupLinks_map (commutes : ∀ x c y, f (merge x c y) = merge' (f x) c (f y))
    (levels : List Connective) (row : Row α) :
    (row.map f).groupLinks merge' levels = (row.groupLinks merge levels).map f := by
  fun_induction groupLinks merge levels row with
  | case1 row => rw [groupLinks]
  | case2 c weaker row short =>
      rw [groupLinks_of_short (by rwa [length_rest_map])]
  | case3 c weaker row long shorter merged _ ih =>
      have mapped := mergeFirst?_map commutes c row.first row.rest
      rw [merged] at mapped
      rw [groupLinks_of_some (by rwa [length_rest_map]) mapped]
      exact ih
  | case4 c weaker row long missing ih =>
      have mapped := mergeFirst?_map commutes c row.first row.rest
      rw [missing] at mapped
      rw [groupLinks_of_none (by rwa [length_rest_map]) mapped]
      exact ih

end Map

/-! ### Merging segments -/

/-- The row of operands that a row of segments stands for. -/
def source (x : Segment) : List (Connective × Segment) → Row Operand
  | [] => x.source
  | (c, y) :: rest => x.source.append c (source y rest)

theorem source_merge (x : Segment) (c : Connective) (y : Segment)
    (rest : List (Connective × Segment)) :
    source (x.merge c y) rest = x.source.append c (source y rest) := by
  cases rest with
  | nil => rfl
  | cons pair rest => exact append_assoc _ _ _ _ _

theorem source_of_mergeFirst? {c : Connective} {x : Segment}
    {rest : List (Connective × Segment)} {row : Row Segment}
    (merged : mergeFirst? Segment.merge c x rest = some row) :
    source row.first row.rest = source x rest := by
  induction rest generalizing x row with
  | nil => contradiction
  | cons pair rest ih =>
      rcases pair with ⟨d, y⟩
      rw [mergeFirst?] at merged
      split at merged
      · cases merged
        exact source_merge x d y rest
      · rcases Option.map_eq_some_iff.1 merged with ⟨tail, mergedTail, rfl⟩
        exact congrArg (x.source.append d) (ih mergedTail)

/-- What holds when the links stronger than `rank` are merged: no link is stronger than it, the
segments are grouped, and those behind a link of this rank hold only stronger links. -/
structure Staged (rank : Nat) (x : Segment) (rest : List (Connective × Segment)) : Prop where
  first : x.Settled rank
  rest : ∀ pair ∈ rest, pair.2.Settled rank ∧ rank ≤ pair.1.rank ∧
    (pair.1.rank = rank → ∀ d ∈ pair.2.source.links, d.rank < rank)

theorem Staged.tail {rank : Nat} {x y : Segment} {c : Connective}
    {rest : List (Connective × Segment)} (staged : Staged rank x ((c, y) :: rest)) :
    Staged rank y rest :=
  ⟨(staged.rest (c, y) List.mem_cons_self).1,
    fun pair listed => staged.rest pair (List.mem_cons_of_mem _ listed)⟩

theorem Staged.grouped_merge {c : Connective} {x y : Segment}
    (settled : x.Settled c.rank) (settled' : y.Settled c.rank)
    (stronger : ∀ d ∈ y.source.links, d.rank < c.rank) : (x.merge c y).Settled c.rank where
  grouped := .split c settled.bound stronger settled.grouped settled'.grouped
  bound := by
    intro d isLink
    simp only [Segment.merge, links_append, List.mem_append, List.mem_cons] at isLink
    rcases isLink with isLeft | rfl | isRight
    · exact settled.bound d isLeft
    · exact Nat.le_refl _
    · exact settled'.bound d isRight

/-- A merge of the leftmost link of a rank keeps the stage. -/
theorem Staged.mergeFirst? {c : Connective} {x : Segment} {rest : List (Connective × Segment)}
    {row : Row Segment} (staged : Staged c.rank x rest)
    (merged : Row.mergeFirst? Segment.merge c x rest = some row) :
    Staged c.rank row.first row.rest := by
  induction rest generalizing x row with
  | nil => contradiction
  | cons pair rest ih =>
      rcases pair with ⟨d, y⟩
      have settled := staged.rest (d, y) List.mem_cons_self
      rw [Row.mergeFirst?] at merged
      split at merged
      · next same =>
          subst same
          cases merged
          exact ⟨grouped_merge staged.first settled.1 (settled.2.2 rfl), staged.tail.rest⟩
      · next different =>
          rcases Option.map_eq_some_iff.1 merged with ⟨tail, mergedTail, rfl⟩
          have stagedTail := ih staged.tail mergedTail
          have behind : d.rank = c.rank → ∀ e ∈ tail.first.source.links, e.rank < c.rank :=
            fun sameRank => absurd (Connective.rank_injective sameRank) different
          constructor
          · exact staged.first
          · exact List.forall_mem_cons.2
              ⟨⟨stagedTail.first, settled.2.1, behind⟩, stagedTail.rest⟩

/-- When no link of a rank is left, the next weaker links are due. -/
theorem Staged.next {c : Connective} {x : Segment} {rest : List (Connective × Segment)}
    (staged : Staged c.rank x rest) (missing : Row.mergeFirst? Segment.merge c x rest = none) :
    Staged (c.rank + 1) x rest := by
  induction rest generalizing x with
  | nil => exact ⟨staged.first.mono, List.forall_mem_nil _⟩
  | cons pair rest ih =>
      rcases pair with ⟨d, y⟩
      have settled := staged.rest (d, y) List.mem_cons_self
      rw [Row.mergeFirst?] at missing
      split at missing
      · contradiction
      · next different =>
          have stagedTail := ih staged.tail (Option.map_eq_none_iff.1 missing)
          have weaker : c.rank < d.rank := by
            apply Nat.lt_of_le_of_ne settled.2.1
            intro same
            exact different (Connective.rank_injective same.symm)
          have behind : d.rank = c.rank + 1 → ∀ e ∈ y.source.links, e.rank < c.rank + 1 :=
            fun _ e isLink => Nat.lt_succ_of_le (settled.1.bound e isLink)
          constructor
          · exact staged.first.mono
          · exact List.forall_mem_cons.2 ⟨⟨stagedTail.first, weaker, behind⟩, stagedTail.rest⟩

theorem drop_byStrength {rank : Nat} {c : Connective} {weaker : List Connective}
    (levels : Connective.byStrength.drop rank = c :: weaker) :
    c.rank = rank ∧ Connective.byStrength.drop (rank + 1) = weaker := by
  rcases rank with _ | _ | _ | _ | rank <;> simp [Connective.byStrength] at levels ⊢ <;>
    rcases levels with ⟨rfl, rfl⟩ <;> simp [Connective.rank]

/-- A row with one link that is left at some stage is grouped. -/
theorem Staged.grouped {rank : Nat} {c : Connective} {x y : Segment}
    (staged : Staged rank x [(c, y)]) :
    Grouped (source x [(c, y)]) (.pair x.operand c y.operand) := by
  rcases staged.rest (c, y) List.mem_cons_self with ⟨settled, weaker, behind⟩
  apply Grouped.split c
  · exact fun d isLink => Nat.le_trans (staged.first.bound d isLink) weaker
  · intro d isLink
    rcases Nat.lt_or_eq_of_le weaker with weaker | same
    · exact Nat.lt_of_le_of_lt (settled.bound d isLink) weaker
    · exact same ▸ behind same.symm d isLink
  · exact staged.first.grouped
  · exact settled.grouped

/-- Grouping the links that are left at some stage groups the whole row. -/
theorem Staged.grouped_groupLinks {rank : Nat} {levels : List Connective} {row : Row Segment}
    (due : Connective.byStrength.drop rank = levels) (staged : Staged rank row.first row.rest)
    (several : row.rest ≠ []) :
    Grouped (source row.first row.rest)
      ((row.groupLinks Segment.merge levels).map Segment.operand).formula := by
  fun_induction groupLinks Segment.merge levels row generalizing rank with
  | case1 row =>
      rcases row with ⟨x, _ | ⟨⟨c, y⟩, rest⟩⟩
      · contradiction
      · have weaker := (staged.rest (c, y) List.mem_cons_self).2.1
        have allDone := List.drop_eq_nil_iff.1 due
        have strength : c.rank < 4 := by cases c <;> decide
        exact absurd (Nat.lt_of_le_of_lt (Nat.le_trans allDone weaker) strength)
          (Nat.lt_irrefl 4)
  | case2 c weaker row short =>
      rcases row with ⟨x, _ | ⟨⟨c, y⟩, _ | ⟨_, _⟩⟩⟩
      · contradiction
      · exact staged.grouped
      · simp only [List.length_cons] at short
        omega
  | case3 c weaker row long shorter merged length ih =>
      rcases drop_byStrength due with ⟨rfl, _⟩
      rw [← source_of_mergeFirst? merged]
      apply ih due (staged.mergeFirst? merged)
      intro noLink
      rw [noLink] at length
      exact long (by rw [← length]; decide)
  | case4 c weaker row long missing ih =>
      rcases drop_byStrength due with ⟨rfl, next⟩
      exact ih next (staged.next missing) several

theorem source_ofOperand (x : Operand) (rest : List (Connective × Operand)) :
    source (.ofOperand x) (rest.map fun pair => (pair.1, .ofOperand pair.2)) = ⟨x, rest⟩ := by
  induction rest generalizing x with
  | nil => rfl
  | cons pair rest ih =>
      rw [List.map_cons, source, ih]
      rfl

/-- Grouping by strength is grouping by the grammar. -/
theorem grouped_byPrecedence (row : Row Operand) : Grouped row row.byPrecedence := by
  rcases row with ⟨x, rest⟩
  cases rest with
  | nil =>
      have unchanged : (⟨x, []⟩ : Row Operand).byPrecedence = .single x := by
        rw [byPrecedence, Connective.byStrength, groupLinks]
        rfl
      rw [unchanged]
      exact .single x
  | cons pair rest =>
      generalize segmentsEq : (⟨x, pair :: rest⟩ : Row Operand).map Segment.ofOperand = segments
      have operands : segments.map Segment.operand = ⟨x, pair :: rest⟩ := by
        subst segmentsEq
        simp [map, Function.comp_def]
      have sourceEq : source segments.first segments.rest = ⟨x, pair :: rest⟩ := by
        subst segmentsEq
        exact source_ofOperand x (pair :: rest)
      have settled (y : Operand) : (Segment.ofOperand y).Settled 0 :=
        ⟨.single y, List.forall_mem_nil _⟩
      have staged : Staged 0 segments.first segments.rest := by
        subst segmentsEq
        constructor
        · exact settled x
        · intro pair listed
          rcases List.mem_map.1 listed with ⟨pair, _, rfl⟩
          exact ⟨settled pair.2, Nat.zero_le _, fun _ => List.forall_mem_nil _⟩
      have several : segments.rest ≠ [] := by
        subst segmentsEq
        exact List.cons_ne_nil _ _
      have due : Connective.byStrength.drop 0 = Connective.byStrength := rfl
      have grouped := staged.grouped_groupLinks due several
      rw [sourceEq, ← groupLinks_map Segment.operand_merge, operands] at grouped
      exact grouped

/-- Grouping by strength leaves one link at most. -/
theorem length_groupLinks_byStrength (row : Row Operand) :
    (row.groupLinks enclose Connective.byStrength).rest.length < 2 := by
  have grouped := row.grouped_byPrecedence
  rw [byPrecedence] at grouped
  generalize row.groupLinks enclose Connective.byStrength = result at grouped
  rcases result with ⟨x, _ | ⟨⟨c, y⟩, _ | ⟨⟨d, z⟩, rest⟩⟩⟩
  · exact Nat.zero_lt_two
  · exact Nat.one_lt_two
  · cases grouped

end Row

end Entail
