import Mathlib.Data.List.Forall2

/-!
# Outcomes of operations that can fail

A composed operation succeeds if its steps do, each on the result of the one
before; over a list, every result is that of an element.  What a given
operation comes to is found out by running it.
-/

namespace Entail

variable {ε α β : Type}

/-- Whether a computation succeeds with a result of a decidable property is found out by carrying it
out. -/
instance decidableExistsOk {P : α → Prop} [DecidablePred P] (outcome : Except ε α) :
    Decidable (∃ x, outcome = .ok x ∧ P x) :=
  match outcome with
  | .ok x =>
    decidable_of_iff (P x) ⟨fun holds => ⟨x, rfl, holds⟩, fun ⟨_, same, holds⟩ => by
      cases same
      exact holds⟩
  | .error _ => isFalse nofun

instance decidableIsOk (outcome : Except ε α) : Decidable (∃ x, outcome = .ok x) :=
  match outcome with
  | .ok x => isTrue ⟨x, rfl⟩
  | .error _ => isFalse nofun

theorem map_eq_ok_iff {outcome : Except ε α} {f : α → β} {y : β} :
    outcome.map f = .ok y ↔ ∃ x, outcome = .ok x ∧ f x = y := by
  cases outcome <;> simp [Except.map]

theorem bind_eq_ok_iff {outcome : Except ε α} {f : α → Except ε β} {y : β} :
    (outcome >>= f) = .ok y ↔ ∃ x, outcome = .ok x ∧ f x = .ok y := by
  cases outcome <;> simp [bind, Except.bind]

theorem map_eq_error_iff {outcome : Except ε α} {f : α → β} {error : ε} :
    outcome.map f = .error error ↔ outcome = .error error := by
  cases outcome <;> simp [Except.map]

theorem bind_eq_error_iff {outcome : Except ε α} {f : α → Except ε β} {error : ε} :
    (outcome >>= f) = .error error ↔
      outcome = .error error ∨ ∃ x, outcome = .ok x ∧ f x = .error error := by
  cases outcome <;> simp [bind, Except.bind]

theorem eq_error_of_discard {outcome : Except ε α} {error : ε}
    (failed : discard outcome = .error error) : outcome = .error error := by
  cases outcome <;> cases failed
  rfl

theorem exists_eq_ok_of_discard {outcome : Except ε α} (succeeded : discard outcome = .ok ()) :
    ∃ x, outcome = .ok x := by
  cases outcome <;> cases succeeded
  exact ⟨_, rfl⟩

theorem exists_of_mem_of_mapM {f : α → Except ε β} {xs : List α} {ys : List β}
    (mapped : xs.mapM f = .ok ys) {y : β} (isResult : y ∈ ys) : ∃ x ∈ xs, f x = .ok y := by
  induction xs generalizing ys with
  | nil =>
      cases mapped
      contradiction
  | cons x xs ih =>
      rw [List.mapM_cons] at mapped
      rcases bind_eq_ok_iff.1 mapped with ⟨first, firstMapped, mapped⟩
      rcases bind_eq_ok_iff.1 mapped with ⟨rest, restMapped, mapped⟩
      cases mapped
      rcases List.mem_cons.1 isResult with rfl | isRest
      · exact ⟨x, List.mem_cons_self, firstMapped⟩
      · rcases ih restMapped isRest with ⟨source, isSource, sourceMapped⟩
        exact ⟨source, List.mem_cons_of_mem _ isSource, sourceMapped⟩

theorem exists_mapM_eq_ok {f : α → Except ε β} {xs : List α} (each : ∀ x ∈ xs, ∃ y, f x = .ok y) :
    ∃ ys, xs.mapM f = .ok ys := by
  induction xs with
  | nil => exact ⟨[], rfl⟩
  | cons x xs ih =>
      rw [List.forall_mem_cons] at each
      obtain ⟨⟨first, isFirst⟩, rest⟩ := each
      obtain ⟨others, areOthers⟩ := ih rest
      rw [List.mapM_cons, isFirst, areOthers]
      exact ⟨first :: others, rfl⟩

theorem mapM_eq_ok_of_forall₂ {f : α → Except ε β} {xs : List α} {ys : List β}
    (mapped : List.Forall₂ (fun x y => f x = .ok y) xs ys) : xs.mapM f = .ok ys := by
  induction mapped with
  | nil => rfl
  | cons first _ ih =>
      rw [List.mapM_cons, first, ih]
      rfl

theorem forall₂_of_mapM {f : α → Except ε β} {xs : List α} {ys : List β}
    (mapped : xs.mapM f = .ok ys) : List.Forall₂ (fun x y => f x = .ok y) xs ys := by
  induction xs generalizing ys with
  | nil =>
      cases mapped
      exact .nil
  | cons x xs ih =>
      rw [List.mapM_cons] at mapped
      rcases bind_eq_ok_iff.1 mapped with ⟨first, firstMapped, mapped⟩
      rcases bind_eq_ok_iff.1 mapped with ⟨rest, restMapped, mapped⟩
      cases mapped
      exact .cons firstMapped (ih restMapped)

/-- What is made of all elements by one operation is made by another one that makes the same of
each. -/
theorem mapM_eq_ok_of_imp {f g : α → Except ε β} {xs : List α} {ys : List β}
    (mapped : xs.mapM f = .ok ys) (each : ∀ x y, f x = .ok y → g x = .ok y) :
    xs.mapM g = .ok ys :=
  mapM_eq_ok_of_forall₂ ((forall₂_of_mapM mapped).imp each)

theorem filterAuxM_eq_map {test : α → Except ε Bool} (xs found : List α) :
    xs.filterAuxM test found = (xs.filterAuxM test []).map (· ++ found) := by
  induction xs generalizing found with
  | nil => rfl
  | cons x xs ih =>
      rw [List.filterAuxM, List.filterAuxM]
      cases test x with
      | error error => rfl
      | ok isKept =>
          change xs.filterAuxM test (bif isKept then x :: found else found) =
            (xs.filterAuxM test (bif isKept then [x] else [])).map (· ++ found)
          rw [ih, ih (bif isKept then [x] else [])]
          cases isKept <;> cases xs.filterAuxM test [] <;> simp [Except.map]

/-- An element is kept if it passes the test. -/
theorem filterM_cons (test : α → Except ε Bool) {x : α} {xs kept : List α} {isKept : Bool}
    (tested : test x = .ok isKept) (rest : xs.filterM test = .ok kept) :
    (x :: xs).filterM test = .ok (if isKept then x :: kept else kept) := by
  rw [List.filterM] at rest ⊢
  rcases bind_eq_ok_iff.1 rest with ⟨found, filtered, same⟩
  cases same
  rw [List.filterAuxM, tested]
  change (do return (← xs.filterAuxM test (bif isKept then [x] else [])).reverse) = _
  rw [filterAuxM_eq_map, filtered]
  cases isKept <;> simp [Except.map, bind, Except.bind, pure, Except.pure]

theorem exists_allM_eq_ok {test : α → Except ε Bool} {xs : List α}
    (each : ∀ x ∈ xs, ∃ b, test x = .ok b) : ∃ b, xs.allM test = .ok b := by
  induction xs with
  | nil => exact ⟨true, rfl⟩
  | cons x xs ih =>
      rw [List.forall_mem_cons] at each
      obtain ⟨⟨b, isFirst⟩, rest⟩ := each
      rw [List.allM, isFirst]
      cases b with
      | true => exact ih rest
      | false => exact ⟨false, rfl⟩

theorem findM?_eq_none {test : α → Except ε Bool} {xs : List α}
    (failing : ∀ x ∈ xs, test x = .ok false) : xs.findM? test = .ok none := by
  induction xs with
  | nil => rfl
  | cons x xs ih =>
      rw [List.forall_mem_cons] at failing
      rw [List.findM?, failing.1]
      exact ih failing.2

theorem findM?_eq_some {test : α → Except ε Bool} {xs ys : List α} {y : α}
    (failing : ∀ x ∈ xs, test x = .ok false) (passing : test y = .ok true) :
    (xs ++ y :: ys).findM? test = .ok (some y) := by
  induction xs with
  | nil =>
      rw [List.nil_append, List.findM?, passing]
      rfl
  | cons x xs ih =>
      rw [List.forall_mem_cons] at failing
      rw [List.cons_append, List.findM?, failing.1]
      exact ih failing.2

/-- States that are related at the start of two runs over a list, and are kept so by every element,
are related at the end; the second run succeeds if the first one does. -/
theorem exists_foldlM_of_related {σ : Type} (related : β → σ → Prop) {f : β → α → Except ε β}
    {g : σ → α → Except ε σ}
    (step : ∀ x {start finish : β} {start' : σ}, related start start' → f start x = .ok finish →
      ∃ finish', g start' x = .ok finish' ∧ related finish finish')
    (xs : List α) {start finish : β} {start' : σ} (starts : related start start')
    (run : xs.foldlM f start = .ok finish) :
    ∃ finish', xs.foldlM g start' = .ok finish' ∧ related finish finish' := by
  induction xs generalizing start start' with
  | nil =>
      cases run
      exact ⟨start', rfl, starts⟩
  | cons x xs ih =>
      rw [List.foldlM_cons] at run
      obtain ⟨next, first, rest⟩ := bind_eq_ok_iff.1 run
      obtain ⟨next', first', continues⟩ := step x starts first
      obtain ⟨finish', rest', ends⟩ := ih continues rest
      rw [List.foldlM_cons, first']
      exact ⟨finish', rest', ends⟩

theorem forM_eq_ok_iff {act : α → Except ε Unit} {xs : List α} :
    forM xs act = .ok () ↔ ∀ x ∈ xs, act x = .ok () := by
  induction xs with
  | nil => exact iff_of_true rfl fun _ listed => absurd listed List.not_mem_nil
  | cons x xs ih =>
      rw [List.forM_cons, bind_eq_ok_iff, List.forall_mem_cons, ← ih]
      constructor
      · rintro ⟨_, first, rest⟩
        exact ⟨first, rest⟩
      · rintro ⟨first, rest⟩
        exact ⟨(), first, rest⟩

theorem exists_of_forM_eq_error {act : α → Except ε Unit} {xs : List α} {error : ε}
    (failed : forM xs act = .error error) : ∃ x ∈ xs, act x = .error error := by
  induction xs with
  | nil => cases failed
  | cons x xs ih =>
      rw [List.forM_cons] at failed
      obtain first | ⟨_, _, rest⟩ := bind_eq_error_iff.1 failed
      · exact ⟨x, List.mem_cons_self, first⟩
      · obtain ⟨y, listed, failed⟩ := ih rest
        exact ⟨y, List.mem_cons_of_mem _ listed, failed⟩

end Entail
