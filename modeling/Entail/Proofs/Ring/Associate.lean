import Entail.Proofs.Ring.Gathering

/-!
# Simplifying rings

The operands of a ring are taken out of their rings and put into buckets by
their keys; the buckets are those of the operands of one key, in order of first
appearance.  A node of each bucket, or a new constant, comes into the new ring.
-/

namespace Entail

theorem Formula.associate_eq (f : Formula) :
    f.associate = match f.junction? with
      | none => f
      | some c => simplify c (f.gather c) := by
  cases f with
  | single x => rfl
  | chain x c rest =>
      rw [associate, junction?]
      split
      · rfl
      · rfl

namespace Ring

namespace Store

/-- The nodes, each a ring by itself, hold the operands that they are listed with. -/
abbrev HasOperands (s : Store) (zs : List (Nat × Operand)) (A : Set Nat) : Prop :=
  s.HasSingles (zs.map Prod.fst) (zs.map fun z => .operand z.2) A

variable {s : Store} {A B D : Set Nat}

theorem HasParts.exists_zip {hs : List Nat} {xs : List Operand}
    (row : s.HasParts hs (xs.map .operand) A) :
    ∃ zs : List (Nat × Operand), zs.map Prod.fst = hs ∧ zs.map Prod.snd = xs := by
  have same : hs.length = xs.length := by simpa using row.length_eq
  exact ⟨hs.zip xs, List.map_fst_zip (Nat.le_of_eq same), List.map_snd_zip (Nat.le_of_eq same.symm)⟩

/-- Operands that are sorted out by a test take up disjoint parts of the region. -/
theorem HasOperands.exists_filter {zs : List (Nat × Operand)} (row : s.HasOperands zs A)
    (test : Nat × Operand → Bool) :
    ∃ B C, s.HasOperands (zs.filter test) B ∧ s.HasOperands (zs.filter (!test ·)) C ∧
      Disjoint B C ∧ B ∪ C ⊆ A := by
  induction zs generalizing A with
  | nil => exact ⟨∅, ∅, .nil s, .nil s, Set.disjoint_empty _, by grind⟩
  | cons z zs ih =>
      rcases hasSingles_cons_iff.1 row with ⟨X, Y, rfl, first, row, apart⟩
      rcases ih row with ⟨B, C, passing, failing, apart', within⟩
      cases tested : test z with
      | true =>
          refine ⟨X ∪ B, C, ?_, ?_, by grind, by grind⟩
          · rw [List.filter_cons_of_pos tested]
            exact hasSingles_cons_iff.2 ⟨X, B, rfl, first, passing, by grind⟩
          · rwa [List.filter_cons_of_neg (by simp [tested])]
      | false =>
          refine ⟨B, X ∪ C, ?_, ?_, by grind, by grind⟩
          · rwa [List.filter_cons_of_neg (by simp [tested])]
          · rw [List.filter_cons_of_pos (by simp [tested])]
            exact hasSingles_cons_iff.2 ⟨X, C, rfl, first, failing, by grind⟩

theorem HasOperands.truths {zs : List (Nat × Operand)} (row : s.HasOperands zs A) :
    (zs.map Prod.fst).mapM (fun h => do return (h, ← s.truth h)) =
      Except.ok (zs.map fun z => (z.1, z.2.truth?)) := by
  induction zs generalizing A with
  | nil => rfl
  | cons z zs ih =>
      rcases hasSingles_cons_iff.1 row with ⟨X, Y, rfl, first, row, _⟩
      rw [List.map_cons, List.mapM_cons, (hasRow_singleton_iff.1 first).2.shows.truth, ih row]
      rfl

end Store

/-! ### Buckets -/

section Buckets

variable {ι : Type}

/-- A bucket takes in the nodes of its key; the others go on to the buckets behind it. -/
theorem foldl_putIntoBucket_cons (key : String) (hs : List Nat) (buckets : List (String × List Nat))
    (keyed : List (String × Nat)) :
    keyed.foldl putIntoBucket ((key, hs) :: buckets) =
      (key, hs ++ (keyed.filter (·.1 == key)).map Prod.snd) ::
        (keyed.filter (!·.1 == key)).foldl putIntoBucket buckets := by
  induction keyed generalizing hs buckets with
  | nil => simp
  | cons z keyed ih =>
      rcases z with ⟨key', h⟩
      rw [List.foldl_cons, putIntoBucket]
      by_cases same : key' = key
      · rw [if_pos same.symm, ih]
        simp [same]
      · rw [if_neg (Ne.symm same), ih]
        simp [same]

end Buckets

namespace Builder

open Store

variable {s : Store} {A B D : Set Nat}

/-- Nodes are taken out of their rings, and their keys are those of their operands. -/
theorem yields_mapM_takeKey {zs : List (Nat × Operand)}
    (row : s.HasParts (zs.map Prod.fst) (zs.map fun z => .operand z.2) B) (closed : s.IsClosed D)
    (member : ∀ k ∈ zs.map Prod.fst, k ∈ D) (only : ∀ k ∈ B, k ∈ D → k ∈ zs.map Prod.fst) :
    ((zs.map Prod.fst).mapM takeKey).Yields s (D ∪ B) fun keyed s' C =>
      keyed = zs.map (fun z => (z.2.key, z.1)) ∧ s'.HasOperands zs C := by
  induction zs generalizing s B D with
  | nil => exact .pure (Set.empty_subset _) ⟨rfl, .nil s⟩
  | cons z zs ih =>
      rcases z with ⟨h, x⟩
      rcases row.exists_isolate closed member only with
        ⟨s₁, X, Y, rfl, isolated, first, row, closed, member, only, apart, evolves⟩
      have taken : takeKey h s = .ok (x.key, h) s₁ := by
        rw [takeKey, isolate, bind_of_ok (edit_of_ok isolated),
          bind_of_ok (read_of_ok (hasRow_singleton_iff.1 first).2.shows.key)]
        rfl
      rw [List.map_cons, List.mapM_cons]
      refine .after (bind_of_ok taken _) (evolves.mono Set.subset_union_left) ?_
      refine (ih row closed member only).bind (by grind) ?_
      rintro keyed s₂ C evolves ⟨rfl, singles⟩
      rcases evolves.row first apart with ⟨first, apart⟩
      refine .pure (B := X ∪ C) (by grind) ⟨rfl, ?_⟩
      exact hasSingles_cons_iff.2 ⟨X, C, rfl, first, singles, apart.symm⟩

/-- The nodes of one key come to one node. -/
theorem yields_mergeBucket {h : Nat} {x : Operand} {zs : List (Nat × Operand)}
    (first : s.HasRow h [.operand x] A) (rest : s.HasOperands zs B) (c : Connective) :
    (mergeBucket c (h :: zs.map Prod.fst)).Yields s A fun m s' C =>
      s'.HasRow m [.operand (.merge c x (zs.map Prod.snd))] C := by
  have signs : (zs.map Prod.fst).mapM s.negated = .ok (zs.map fun z => z.2.negated) := by
    exact rest.parts.shows.mapM fun z _ h part => part.negated
  refine .read (hasRow_singleton_iff.1 first).2.shows.negated (.read signs ?_)
  have same : (zs.map fun z => z.2.negated).all (· == x.negated) =
      (zs.map Prod.snd).all (·.negated == x.negated) := by
    simp [List.all_map, Function.comp_def]
  rw [Operand.merge, ← same]
  split
  · exact .pure Set.Subset.rfl first
  · exact (yields_addConstant c.dominant).mono (Set.empty_subset A)

/-- The nodes of each key come to one node. -/
theorem yields_mapM_mergeBucket {s : Store} {A : Set Nat} {zs : List (Nat × Operand)}
    (row : s.HasOperands zs A) (c : Connective) :
    (((zs.map fun z => (z.2.key, z.1)).foldl putIntoBucket []).mapM fun bucket =>
        mergeBucket c bucket.2).Yields s A fun ms s' B =>
      s'.HasSingles ms ((Operand.mergeByKey c (zs.map Prod.snd)).map .operand) B := by
  cases zs with
  | nil =>
      have merged : Operand.mergeByKey c [] = [] := by rw [Operand.mergeByKey]
      rw [List.map_nil (f := Prod.snd), merged]
      exact .pure (Set.empty_subset A) (.nil s)
  | cons z zs =>
      rcases z with ⟨h, x⟩
      rcases hasSingles_cons_iff.1 row with ⟨X, Y, rfl, first, row, apart⟩
      let test (z : Nat × Operand) : Bool := z.2.key == x.key
      rcases HasOperands.exists_filter row test with ⟨B, C, same, others, apart', within⟩
      have shorter : (zs.filter (!test ·)).length < zs.length + 1 :=
        Nat.lt_succ_of_le (List.length_filter_le _ _)
      have buckets : ((((h, x) :: zs).map fun z => (z.2.key, z.1)).foldl putIntoBucket []) =
          (x.key, h :: (zs.filter test).map Prod.fst) ::
            (((zs.filter (!test ·)).map fun z => (z.2.key, z.1)).foldl putIntoBucket []) := by
        rw [List.map_cons, List.foldl_cons, putIntoBucket, foldl_putIntoBucket_cons,
          List.filter_map, List.filter_map, List.map_map]
        rfl
      have merged : Operand.mergeByKey c (((h, x) :: zs).map Prod.snd) =
          Operand.merge c x ((zs.filter test).map Prod.snd) ::
            Operand.mergeByKey c ((zs.filter (!test ·)).map Prod.snd) := by
        rw [List.map_cons, Operand.mergeByKey, List.filter_map, List.filter_map]
        rfl
      rw [buckets, merged, List.mapM_cons]
      refine (yields_mergeBucket first same c).bind Set.subset_union_left ?_
      intro m s₁ D evolves node
      rcases evolves.singles others (by grind) with ⟨others, apart''⟩
      refine (yields_mapM_mergeBucket others c).bind (by grind) fun ms s₂ E evolves nodes => ?_
      rcases evolves.row node apart''.symm with ⟨node, apart⟩
      refine .pure (B := D ∪ E) (by grind) ?_
      exact hasSingles_cons_iff.2 ⟨D, E, rfl, node, nodes, apart.symm⟩
termination_by zs.length

/-- The nodes that are left are joined, unless one of them decides the row. -/
theorem yields_joinDecided {zs : List (Nat × Operand)} (row : s.HasOperands zs A)
    (c : Connective) :
    (joinDecided c (zs.map fun z => (z.1, z.2.truth?))).Yields s A fun h s' B =>
      s'.HasRing h (if (zs.map Prod.snd).any (·.truth? == some c.dominant) then
          .single (.constant c.dominant)
        else
          match (zs.map Prod.snd).filter (·.truth?.isNone) with
          | [] => .single (.constant !c.dominant)
          | first :: rest => .join c first rest) B := by
  have decided : (zs.map fun z => (z.1, z.2.truth?)).any (·.2 == some c.dominant) =
      (zs.map Prod.snd).any (·.truth? == some c.dominant) := by
    simp [List.any_map, Function.comp_def]
  have undecided : (zs.map fun z => (z.1, z.2.truth?)).filter (·.2.isNone) =
      (zs.filter (·.2.truth?.isNone)).map fun z => (z.1, z.2.truth?) := by
    rw [List.filter_map]
    rfl
  have undecided' : (zs.map Prod.snd).filter (·.truth?.isNone) =
      (zs.filter (·.2.truth?.isNone)).map Prod.snd := by
    rw [List.filter_map]
    rfl
  rw [joinDecided, decided, undecided, undecided']
  split
  · exact (yields_addConstant c.dominant).mono (Set.empty_subset A)
  · rcases HasOperands.exists_filter row (·.2.truth?.isNone) with ⟨B, C, row, _, _, within⟩
    cases left : zs.filter (·.2.truth?.isNone) with
    | nil => exact (yields_addConstant (!c.dominant)).mono (Set.empty_subset A)
    | cons z zs =>
        rw [left] at row
        have singles : s.HasSingles (z.1 :: zs.map Prod.fst)
            ((z.2 :: zs.map Prod.snd).map .operand) B := by
          rw [List.map_cons, List.map_map]
          exact row
        simp only [List.map_cons, List.map_map]
        exact (yields_join singles c).mono (by grind)

/-- Simplifying the ring of a formula simplifies the formula. -/
theorem yields_associate {head : Nat} {f : Formula} (ring : s.HasRing head f A) :
    (associate head).Yields s A fun h s' B => s'.HasRing h f.associate B := by
  refine .read (HasRing.shows ring).junction? ?_
  cases junction : f.junction? with
  | none =>
      rw [f.associate_eq, junction]
      exact .pure Set.Subset.rfl ring
  | some c =>
      rcases HasRow.exists_gatherTo ring (Nat.le_succ_of_le (HasRing.depth_le_size ring)) c with
        ⟨hs, B, D, gathered, row, closed, within, opened, member, only⟩
      refine .read gathered ?_
      rcases row.exists_zip with ⟨zs, rfl, operands⟩
      rw [← operands, List.map_map] at row
      refine (yields_mapM_takeKey row closed member only).bind (by grind) ?_
      rintro keyed s₁ C _ ⟨rfl, singles⟩
      refine (yields_mapM_mergeBucket singles c).bind Set.subset_union_right ?_
      intro ms s₂ E _ merged
      rcases merged.parts.exists_zip with ⟨ws, rfl, merged'⟩
      rw [← merged', List.map_map] at merged
      refine .read (HasOperands.truths merged) ?_
      refine ((yields_joinDecided merged c).mono Set.subset_union_right).imp ?_
      intro h s' B _ ring
      rw [f.associate_eq, junction]
      rwa [merged', operands] at ring

end Builder

end Ring

end Entail
