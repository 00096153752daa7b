import Mathlib.Data.List.Nodup
import Entail.Clause.Search

/-!
# Satisfying clauses

An assignment satisfies a list of clauses if it makes each of them true.  Under
an assignment that makes a literal true, assuming the literal keeps the meaning
of the clauses; and literals over distinct symbols can always be made true
together.
-/

namespace Entail

namespace Valuation

/-- All the given clauses are true. -/
def Satisfies (v : Valuation) (clauses : List Clause) : Prop :=
  ∀ clause ∈ clauses, clause.eval v = true

/-- All the given literals are true. -/
def Agrees (v : Valuation) (path : List Literal) : Prop :=
  ∀ l ∈ path, l.eval v = true

end Valuation

namespace Literal

/-- A true literal and another one over its symbol are not true together. -/
theorem eval_eq_false_of_ne {v : Valuation} {l m : Literal} (holds : l.eval v = true)
    (sameName : m.name = l.name) (differs : m ≠ l) : m.eval v = false := by
  rcases l with ⟨name, negated⟩
  rcases m with ⟨other, otherNegated⟩
  cases sameName
  have signs : otherNegated ≠ negated := fun same => differs (same ▸ rfl)
  cases negated <;> cases otherNegated <;> simp_all [eval]

/-- Every assignment makes a symbol or its negation true. -/
theorem eval_true_of_eval_false {v : Valuation} {name : String}
    (fails : eval v ⟨name, false⟩ = false) : eval v ⟨name, true⟩ = true := by
  simpa [eval] using fails

end Literal

theorem Clause.eval_eq_true_iff {v : Valuation} {clause : Clause} :
    clause.eval v = true ↔ ∃ l ∈ clause, l.eval v = true := by
  simp [Clause.eval]

/-- A clause without a true literal loses nothing with the literals over its symbol. -/
theorem Clause.eval_filter_of_eval {v : Valuation} {l : Literal} {clause : Clause}
    (holds : l.eval v = true) (absent : l ∉ clause) :
    Clause.eval v (clause.filter (·.name != l.name)) = clause.eval v := by
  rw [Bool.eq_iff_iff, Clause.eval_eq_true_iff, Clause.eval_eq_true_iff]
  constructor
  · rintro ⟨m, isKept, isTrue⟩
    exact ⟨m, (List.mem_filter.1 isKept).1, isTrue⟩
  · rintro ⟨m, isLiteral, isTrue⟩
    refine ⟨m, List.mem_filter.2 ⟨isLiteral, ?_⟩, isTrue⟩
    by_contra sameName
    have differs : m ≠ l := fun same => absent (same ▸ isLiteral)
    rw [Literal.eval_eq_false_of_ne holds (by simpa using sameName) differs] at isTrue
    contradiction

/-- Assuming a literal keeps the meaning of the clauses where the literal is true. -/
theorem satisfies_assume_iff {v : Valuation} {l : Literal} (holds : l.eval v = true)
    (clauses : List Clause) : v.Satisfies (assume l clauses) ↔ v.Satisfies clauses := by
  induction clauses with
  | nil => rfl
  | cons clause clauses ih =>
    simp only [Valuation.Satisfies] at ih
    rw [assume_cons, Valuation.Satisfies, Valuation.Satisfies]
    by_cases occurs : l ∈ clause
    · have isTrue : clause.eval v = true := Clause.eval_eq_true_iff.2 ⟨l, occurs, holds⟩
      simp [occurs, isTrue, ih]
    · simp [occurs, Clause.eval_filter_of_eval holds occurs, ih]

theorem satisfies_append_iff {v : Valuation} {left right : List Clause} :
    v.Satisfies (left ++ right) ↔ v.Satisfies left ∧ v.Satisfies right :=
  List.forall_mem_append

theorem satisfies_append_unit_iff {v : Valuation} {l : Literal} {clauses : List Clause} :
    v.Satisfies (clauses ++ [[l]]) ↔ v.Satisfies clauses ∧ l.eval v = true := by
  rw [satisfies_append_iff]
  simp [Valuation.Satisfies, Clause.eval]

/-- Literals over distinct symbols do not contradict each other. -/
theorem exists_agrees_of_nodup {path : List Literal} (distinct : (path.map Literal.name).Nodup) :
    ∃ v : Valuation, v.Agrees path := by
  refine ⟨fun name => path.any fun m => m.name == name && !m.negated, fun l isLiteral => ?_⟩
  have unique : ∀ m ∈ path, m.name = l.name → m = l := fun m isOther sameName =>
    List.inj_on_of_nodup_map distinct isOther isLiteral sameName
  simp only [Literal.eval, bne_iff_ne, ne_eq]
  cases negated : l.negated with
  | false =>
    have found : (path.any fun m => m.name == l.name && !m.negated) = true :=
      List.any_eq_true.2 ⟨l, isLiteral, by simp [negated]⟩
    simp [found]
  | true =>
    simp only [Bool.not_eq_true, List.any_eq_false, Bool.and_eq_true, beq_iff_eq, not_and]
    intro m isOther sameName
    rw [unique m isOther sameName, negated]
    simp

end Entail
