import Entail.Proofs.Clause.Satisfaction
import Entail.Proofs.Ring.Clauses

/-!
# What is left once a literal is true

Assuming a literal leaves the clauses that do not hold it, in their order, each
of them without the complement of the literal.  In a store, a clause that loses
literals is copied before they are taken out one by one, wherever in the ring
they stand, so that all rings which there were stay as they are.
-/

namespace Entail

namespace Literal

theorem eq_complement_iff {l m : Literal} (differs : m ≠ l) :
    m = l.complement ↔ m.name = l.name := by
  rcases l with ⟨name, negated⟩
  rcases m with ⟨other, otherNegated⟩
  cases negated <;> cases otherNegated <;> simp_all [complement]

end Literal

/-- A clause that does not hold a literal loses with its complement all literals of its symbol. -/
theorem Clause.filter_name_ne {l : Literal} {clause : Clause} (absent : l ∉ clause) :
    clause.filter (·.name != l.name) = clause.filter (· ≠ l.complement) := by
  refine List.filter_congr fun m isLiteral => ?_
  have differs : m ≠ l := fun same => absent (same ▸ isLiteral)
  rw [Bool.eq_iff_iff, bne_iff_ne, decide_eq_true_iff, Ne, Ne, Literal.eq_complement_iff differs]

/-- What is left of clauses are those without the literal, each without its complement. -/
theorem assume_eq_map_filter (l : Literal) (clauses : List Clause) :
    assume l clauses =
      (clauses.filter (l ∉ ·)).map fun clause => clause.filter (· ≠ l.complement) := by
  induction clauses with
  | nil => rfl
  | cons clause clauses ih =>
      rw [assume_cons, ih]
      by_cases held : l ∈ clause
      · rw [if_pos (List.contains_iff_mem.2 held), List.filter_cons_of_neg (by simpa using held)]
      · rw [if_neg (by simpa using held), List.filter_cons_of_pos (by simpa using held),
          List.map_cons, Clause.filter_name_ne held]

namespace Ring.Builder

open Store

variable {s : Store}

/-- Of rings of clauses, those are left that do not hold the literal, in their order, each without
any occurrence of its complement and with its other literals in their order; a clause that loses
all its literals becomes the empty one.  The symbol of the literal is named no more, the clauses
mean the same where the literal is true, and no node that there was has changed. -/
theorem assumeAll_removes_symbol {rings : List (Option Nat)} {clauses : List Clause}
    (shown : List.Forall₂ s.ShowsClause rings clauses) (l : Literal) :
    ∃ left s', ∃ remaining : List Clause, assumeAll l rings s = .ok left s' ∧
      List.Forall₂ s'.ShowsClause left remaining ∧
      remaining = (clauses.filter (l ∉ ·)).map (fun clause => clause.filter (· ≠ l.complement)) ∧
      (∀ clause ∈ remaining, ∀ m ∈ clause, m.name ≠ l.name) ∧
      (∀ v : Valuation, l.eval v = true → (v.Satisfies remaining ↔ v.Satisfies clauses)) ∧
      ∀ k < s.size, s'.node k = s.node k := by
  rcases yields_assumeAll shown l with ⟨left, s', B, ran, evolves, shown'⟩
  refine ⟨left, s', assume l clauses, ran, shown', assume_eq_map_filter l clauses, ?_,
    fun v holds => satisfies_assume_iff holds clauses, evolves.keeps⟩
  intro clause isLeft m isLiteral
  exact (mem_clauseNames_of_assume (mem_clauseNames.2 ⟨clause, isLeft, m, isLiteral, rfl⟩)).2

/-- Of clauses with repeated and complementary literals, with literals to be taken out at the head,
in the middle and at the end, and of the empty clause. -/
theorem assumeAll_removes_symbol_of_repeated :
    let clauses : List Clause := [[⟨"a", true⟩, ⟨"b", false⟩, ⟨"a", true⟩, ⟨"c", true⟩, ⟨"a", true⟩],
      [⟨"b", false⟩, ⟨"a", false⟩], [⟨"a", true⟩, ⟨"a", false⟩], [], [⟨"a", true⟩, ⟨"a", true⟩],
      [⟨"b", true⟩, ⟨"b", false⟩]]
    ∃ rings s left s', clauses.mapM addClause Store.empty = .ok rings s ∧
      List.Forall₂ s.ShowsClause rings clauses ∧
      assumeAll ⟨"a", false⟩ rings s = .ok left s' ∧
      List.Forall₂ s'.ShowsClause left
        [[⟨"b", false⟩, ⟨"c", true⟩], [], [], [⟨"b", true⟩, ⟨"b", false⟩]] ∧
      ∀ k < s.size, s'.node k = s.node k := by
  intro clauses
  rcases yields_mapM_addClause clauses Store.empty with ⟨rings, s, _, ran, _, shown⟩
  rcases assumeAll_removes_symbol shown ⟨"a", false⟩ with
    ⟨left, s', _, ran', shown', rfl, _, _, keeps⟩
  exact ⟨rings, s, left, s', ran, shown, ran', shown', keeps⟩

end Ring.Builder

end Entail
