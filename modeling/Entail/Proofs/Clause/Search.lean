import Entail.Proofs.Clause.Satisfaction

/-!
# The search decides satisfiability

A search finds literals over distinct symbols all of whose models satisfy the
clauses, or there is no model at all.  What it adds to the path is a solution
of the clauses that are left at that point; the two ways in which the clauses
change, assuming a literal and adding one, carry a solution back.
-/

namespace Entail

/-- Literals over distinct symbols of the clauses that satisfy these whenever they are true. -/
structure Solves (clauses : List Clause) (new : List Literal) : Prop where
  distinct : (new.map Literal.name).Nodup
  occurs : ∀ l ∈ new, l.name ∈ clauseNames clauses
  satisfies : ∀ v : Valuation, v.Agrees new → v.Satisfies clauses

namespace Solves

theorem nil : Solves [] [] where
  distinct := List.nodup_nil
  occurs := by simp
  satisfies := fun v _ => by simp [Valuation.Satisfies]

/-- A solution of what is left once a literal is assumed is extended by that literal. -/
theorem cons {l : Literal} {clauses : List Clause} {new : List Literal}
    (isName : l.name ∈ clauseNames clauses) (solves : Solves (assume l clauses) new) :
    Solves clauses (l :: new) where
  distinct := by
    refine List.nodup_cons.2 ⟨fun isOther => ?_, solves.distinct⟩
    rcases List.mem_map.1 isOther with ⟨m, isNew, sameName⟩
    exact (mem_clauseNames_of_assume (solves.occurs m isNew)).2 sameName
  occurs := by
    intro m isNew
    rcases List.mem_cons.1 isNew with rfl | isNew
    · exact isName
    · exact (mem_clauseNames_of_assume (solves.occurs m isNew)).1
  satisfies := by
    intro v agrees
    rcases List.forall_mem_cons.1 agrees with ⟨holds, agrees⟩
    exact (satisfies_assume_iff holds clauses).1 (solves.satisfies v agrees)

/-- A solution of the clauses and a literal over one of their symbols solves the clauses. -/
theorem of_append_unit {l : Literal} {clauses : List Clause} {new : List Literal}
    (isName : l.name ∈ clauseNames clauses) (solves : Solves (clauses ++ [[l]]) new) :
    Solves clauses new where
  distinct := solves.distinct
  occurs := by
    intro m isNew
    have : m.name ∈ clauseNames clauses ∨ m.name = l.name := by
      simpa [clauseNames] using solves.occurs m isNew
    rcases this with isOld | sameName
    · exact isOld
    · exact sameName ▸ isName
  satisfies := fun v agrees => (satisfies_append_unit_iff.1 (solves.satisfies v agrees)).1

end Solves

theorem unit_mem_of_findSome? {l : Literal} {clauses : List Clause}
    (unit : clauses.findSome? Clause.unit? = some l) : [l] ∈ clauses := by
  rcases List.exists_of_findSome?_eq_some unit with ⟨clause, isClause, isUnit⟩
  rwa [Clause.eq_of_unit? isUnit] at isClause

/-- What a search adds to its path solves the clauses. -/
theorem solves_of_search {clauses : List Clause} {path found : List Literal}
    (result : search clauses path = some found) :
    ∃ new, found = path ++ new ∧ Solves clauses new := by
  fun_induction search clauses path with
  | case1 => contradiction
  | case2 clauses path _ l unit _ ih =>
      rcases ih result with ⟨new, rfl, solves⟩
      have isName : l.name ∈ clauseNames clauses :=
        mem_clauseNames.2 ⟨[l], unit_mem_of_findSome? unit, l, List.mem_singleton.2 rfl, rfl⟩
      exact ⟨l :: new, by simp, solves.cons isName⟩
  | case3 path =>
      cases result
      exact ⟨[], by simp, Solves.nil⟩
  | case4 => contradiction
  | case5 path first others rest _ _ _ _ _ branch _ ih =>
      cases result
      rcases ih branch with ⟨new, rfl, solves⟩
      exact ⟨new, rfl, solves.of_append_unit (by simp [clauseNames])⟩
  | case6 path first others rest _ _ _ _ _ _ _ ih =>
      rcases ih result with ⟨new, rfl, solves⟩
      exact ⟨new, rfl, solves.of_append_unit (by simp [clauseNames])⟩

/-- Where a search finds nothing, no assignment satisfies the clauses. -/
theorem not_satisfies_of_search {clauses : List Clause} {path : List Literal}
    (result : search clauses path = none) (v : Valuation) : ¬ v.Satisfies clauses := by
  fun_induction search clauses path with
  | case1 clauses path hasEmpty =>
      intro satisfies
      rcases List.any_eq_true.1 hasEmpty with ⟨clause, isClause, isEmpty⟩
      have holds := satisfies clause isClause
      rw [List.isEmpty_iff.1 isEmpty] at holds
      simp [Clause.eval] at holds
  | case2 clauses path _ l unit _ ih =>
      intro satisfies
      have holds : l.eval v = true := by
        simpa [Clause.eval] using satisfies [l] (unit_mem_of_findSome? unit)
      exact ih result ((satisfies_assume_iff holds clauses).2 satisfies)
  | case3 => contradiction
  | case4 path rest _ noEmpty => simp at noEmpty
  | case5 => contradiction
  | case6 path first others rest _ _ _ _ failed _ ihFalse ihTrue =>
      intro satisfies
      -- one of the two added literals is true, and so its branch fails on a satisfying assignment
      cases holds : Literal.eval v ⟨first.name, false⟩ with
      | true => exact ihFalse failed (satisfies_append_unit_iff.2 ⟨satisfies, holds⟩)
      | false =>
          have holds := Literal.eval_true_of_eval_false holds
          exact ihTrue result (satisfies_append_unit_iff.2 ⟨satisfies, holds⟩)

/-- A search fails exactly on unsatisfiable clauses; otherwise it adds to its path literals over
distinct symbols, and every assignment that makes these true satisfies all clauses. -/
theorem search_decides_satisfiability (clauses : List Clause) (path : List Literal) :
    (search clauses path = none ↔ ¬ ∃ v : Valuation, v.Satisfies clauses) ∧
      ∀ found, search clauses path = some found →
        ∃ new, found = path ++ new ∧ (new.map Literal.name).Nodup ∧
          ∀ v : Valuation, v.Agrees new → v.Satisfies clauses := by
  constructor
  · constructor
    · rintro failed ⟨v, satisfies⟩
      exact not_satisfies_of_search failed v satisfies
    · intro unsatisfiable
      by_contra found
      rcases Option.ne_none_iff_exists'.1 found with ⟨path, found⟩
      rcases solves_of_search found with ⟨new, -, solves⟩
      rcases exists_agrees_of_nodup solves.distinct with ⟨v, agrees⟩
      exact unsatisfiable ⟨v, solves.satisfies v agrees⟩
  · intro found result
    rcases solves_of_search result with ⟨new, extended, solves⟩
    exact ⟨new, extended, solves.distinct, solves.satisfies⟩

end Entail
