import Entail.Error
import Entail.Proofs.Formula.Evaluation
import Entail.Proofs.Outcome

/-!
# Folds over formulas

A row is folded from left to right, its groups on their own first, with values
of any kind: truth values, or columns of a truth table.  Symbols are looked up
on the way, constants are not, and the first symbol without a value ends the
fold.  Folds with values of two kinds that are related have related results.
-/

namespace Entail

/-- The values of one kind, and how they are combined. -/
structure ValueKind (α : Type) where
  constant : Bool → α
  negate : α → α
  apply : Connective → α → α → α

namespace ValueKind

variable {α β : Type}

/-- The truth values. -/
def truth : ValueKind Bool :=
  ⟨id, not, Connective.apply⟩

/-- The values of a numbered family, combined number by number. -/
def pointwise : ValueKind (Nat → Bool) where
  constant b := fun _ => b
  negate g := fun k => !g k
  apply c g h := fun k => c.apply (g k) (h k)

/-- A value, negated or not. -/
def signed (kind : ValueKind α) (negated : Bool) (value : α) : α :=
  if negated then kind.negate value else value

/-- The value of a name; constants are not looked up. -/
def read (kind : ValueKind α) (lookup : String → Except Error α) (name : String) :
    Except Error α :=
  match constantValue? name with
  | some value => .ok (kind.constant value)
  | none => lookup name

/-- Constants are related, and what is made of related values is. -/
structure Relates (related : α → β → Prop) (kind : ValueKind α) (kind' : ValueKind β) : Prop where
  constant : ∀ b, related (kind.constant b) (kind'.constant b)
  negate : ∀ {a b}, related a b → related (kind.negate a) (kind'.negate b)
  apply : ∀ c {a b a' b'}, related a b → related a' b' →
    related (kind.apply c a a') (kind'.apply c b b')

theorem Relates.signed {related : α → β → Prop} {kind : ValueKind α} {kind' : ValueKind β}
    (relates : Relates related kind kind') (negated : Bool) {a : α} {b : β}
    (isRelated : related a b) : related (kind.signed negated a) (kind'.signed negated b) := by
  cases negated with
  | false => exact isRelated
  | true => exact relates.negate isRelated

end ValueKind

/-- Two operations succeed with results that are related. -/
def Agree {α β : Type} (related : α → β → Prop) (outcome : Except Error α)
    (outcome' : Except Error β) : Prop :=
  ∃ a b, outcome = .ok a ∧ outcome' = .ok b ∧ related a b

theorem Agree.map {α β α' β' : Type} {related : α → β → Prop} {related' : α' → β' → Prop}
    {outcome : Except Error α} {outcome' : Except Error β} (agree : Agree related outcome outcome')
    {g : α → α'} {g' : β → β'} (keeps : ∀ {a b}, related a b → related' (g a) (g' b)) :
    Agree related' (outcome.map g) (outcome'.map g') := by
  obtain ⟨a, b, rfl, rfl, isRelated⟩ := agree
  exact ⟨g a, g' b, rfl, rfl, keeps isRelated⟩

variable {α β : Type}

mutual

/-- The value that an operand is folded to. -/
def Operand.fold (kind : ValueKind α) (lookup : String → Except Error α) :
    Operand → Except Error α
  | .symbol negated name => (kind.read lookup name).map (kind.signed negated)
  | .group negated content => (content.foldWith kind lookup id).map (kind.signed negated)

/-- The value that a row is folded to whose first operand passes through `combine`. -/
def Formula.foldWith (kind : ValueKind α) (lookup : String → Except Error α) (combine : α → α) :
    Formula → Except Error α
  | .single x => (x.fold kind lookup).map combine
  | .chain x c rest =>
    x.fold kind lookup >>= fun value =>
      rest.foldWith kind lookup (kind.apply c (combine value))

end

/-- The value that a formula is folded to. -/
def Formula.fold (kind : ValueKind α) (lookup : String → Except Error α) (f : Formula) :
    Except Error α :=
  f.foldWith kind lookup id

/-! ### Related values -/

section Related

variable {related : α → β → Prop} {kind : ValueKind α} {kind' : ValueKind β}
  {lookup : String → Except Error α} {lookup' : String → Except Error β}

mutual

theorem Operand.agree_fold (relates : kind.Relates related kind') {x : Operand}
    (looked : ∀ name ∈ x.names, constantValue? name = none →
      Agree related (lookup name) (lookup' name)) :
    Agree related (x.fold kind lookup) (x.fold kind' lookup') := by
  match x with
  | .symbol negated name =>
      have read : Agree related (kind.read lookup name) (kind'.read lookup' name) := by
        unfold ValueKind.read
        cases isConstant : constantValue? name with
        | some value => exact ⟨_, _, rfl, rfl, relates.constant value⟩
        | none => exact looked name (List.mem_singleton_self name) isConstant
      exact read.map (relates.signed negated)
  | .group negated content =>
      exact (Formula.agree_foldWith relates looked id).map (relates.signed negated)

theorem Formula.agree_foldWith (relates : kind.Relates related kind') {f : Formula}
    (looked : ∀ name ∈ f.names, constantValue? name = none →
      Agree related (lookup name) (lookup' name))
    {combine : α → α} {combine' : β → β}
    (keeps : ∀ {a b}, related a b → related (combine a) (combine' b)) :
    Agree related (f.foldWith kind lookup combine) (f.foldWith kind' lookup' combine') := by
  match f with
  | .single x => exact (Operand.agree_fold relates looked).map keeps
  | .chain x c rest =>
      obtain ⟨a, b, first, first', isRelated⟩ := Operand.agree_fold (x := x) relates
        fun name isName => looked name (List.mem_append_left _ isName)
      rw [Formula.foldWith, Formula.foldWith, first, first']
      exact Formula.agree_foldWith relates
        (fun name isName => looked name (List.mem_append_right _ isName))
        (relates.apply c (keeps isRelated))

end

/-- Folds with related values have related results. -/
theorem Formula.agree_fold (relates : kind.Relates related kind') {f : Formula}
    (looked : ∀ name ∈ f.propositions, Agree related (lookup name) (lookup' name)) :
    Agree related (f.fold kind lookup) (f.fold kind' lookup') :=
  Formula.agree_foldWith relates
    (fun name isName isVariable => looked name (mem_propositions.2 ⟨isName, isVariable⟩)) id

end Related

/-! ### Truth values -/

theorem ValueKind.signed_truth (negated value : Bool) :
    ValueKind.truth.signed negated value = (value != negated) := by
  cases negated <;> cases value <;> rfl

mutual

theorem Operand.fold_truth (v : Valuation) (x : Operand) :
    x.fold .truth (fun name => .ok (v name)) = .ok (x.eval v) := by
  match x with
  | .symbol negated name =>
      rw [Operand.fold, ValueKind.read, Operand.eval, Valuation.value]
      cases constantValue? name <;> exact congrArg Except.ok (ValueKind.signed_truth negated _)
  | .group negated content =>
      rw [Operand.fold, Formula.foldWith_truth v content id, Operand.eval]
      exact congrArg Except.ok (ValueKind.signed_truth negated _)

theorem Formula.foldWith_truth (v : Valuation) (f : Formula) (combine : Bool → Bool) :
    f.foldWith .truth (fun name => .ok (v name)) combine = .ok (f.evalWith v combine) := by
  match f with
  | .single x =>
      rw [Formula.foldWith, Operand.fold_truth v x]
      rfl
  | .chain x c rest =>
      rw [Formula.foldWith, Operand.fold_truth v x]
      exact Formula.foldWith_truth v rest _

end

/-- If all symbols have a truth value, the fold with truth values evaluates. -/
theorem Formula.fold_truth (v : Valuation) (f : Formula) :
    f.fold .truth (fun name => .ok (v name)) = .ok (f.eval v) :=
  Formula.foldWith_truth v f id

/-- The fold with truth values needs those of the propositions alone. -/
theorem Formula.fold_truth_of_forall {lookup : String → Except Error Bool} {v : Valuation}
    {f : Formula} (looked : ∀ name ∈ f.propositions, lookup name = .ok (v name)) :
    f.fold .truth lookup = .ok (f.eval v) := by
  have equal : ValueKind.truth.Relates Eq .truth := by
    constructor
    · exact fun _ => rfl
    · rintro a _ rfl
      rfl
    · rintro c a _ b _ rfl rfl
      rfl
  have agree : Agree Eq (f.fold .truth lookup) (f.fold .truth fun name => .ok (v name)) :=
    f.agree_fold equal fun name isProposition => ⟨_, _, looked name isProposition, rfl, rfl⟩
  obtain ⟨_, value, folded, evaluated, rfl⟩ := agree
  rw [folded, ← evaluated, fold_truth]

/-- The fold with families of truth values evaluates number by number. -/
theorem Formula.fold_pointwise (v : Nat → Valuation) (f : Formula) :
    f.fold .pointwise (fun name => .ok fun k => v k name) = .ok fun k => f.eval (v k) := by
  have relates (k : Nat) :
      ValueKind.pointwise.Relates (fun (g : Nat → Bool) b => g k = b) .truth := by
    constructor
    · exact fun b => rfl
    · rintro g _ rfl
      rfl
    · rintro c g _ g' _ rfl rfl
      rfl
  have agree (k : Nat) : Agree (fun (g : Nat → Bool) b => g k = b)
      (f.fold .pointwise fun name => .ok fun k => v k name)
      (f.fold .truth fun name => .ok (v k name)) :=
    f.agree_fold (relates k) fun name _ => ⟨_, _, rfl, rfl, rfl⟩
  obtain ⟨g, _, folded, _, _⟩ := agree 0
  rw [folded]
  congr 1
  funext k
  obtain ⟨_, b, folded', evaluated, rfl⟩ := agree k
  rw [fold_truth] at evaluated
  cases folded.symm.trans folded'
  exact (Except.ok.inj evaluated).symm

/-! ### Symbols without a value -/

/-- An action that does nothing on the elements that are left out does the same without them. -/
theorem forM_filter_of_ok {ε : Type} {p : α → Bool} {act act' : α → Except ε Unit} {xs : List α}
    (kept : ∀ x ∈ xs, p x = true → act' x = act x)
    (idle : ∀ x ∈ xs, p x = false → act x = .ok ()) : forM (xs.filter p) act' = forM xs act := by
  induction xs with
  | nil => rfl
  | cons x xs ih =>
      rw [List.forall_mem_cons] at kept idle
      rw [List.forM_cons, ← ih kept.2 idle.2]
      cases isKept : p x with
      | true => rw [List.filter_cons_of_pos isKept, List.forM_cons, kept.1 isKept]
      | false =>
          rw [List.filter_cons_of_neg (by simp [isKept]), idle.1 isKept]
          rfl

/-- Trying an element again makes no difference. -/
theorem forM_eraseDups {ε : Type} (act : String → Except ε Unit) (xs : List String) :
    forM xs.eraseDups act = forM xs act := by
  match xs with
  | [] => rfl
  | x :: xs =>
      have shorter := List.length_filter_le (!· == x) xs
      rw [List.eraseDups_cons, List.forM_cons, List.forM_cons, forM_eraseDups act]
      cases first : act x with
      | error error => rfl
      | ok _ =>
          congr 1
          funext _
          apply forM_filter_of_ok fun _ _ _ => rfl
          intro y _ isSame
          have same : y = x := by simpa using isSame
          rw [same, first]
termination_by xs.length
decreasing_by simp only [List.length_cons]; omega

section Outcome

variable (kind : ValueKind α) (lookup : String → Except Error α)

mutual

theorem Operand.discard_fold (x : Operand) :
    discard (x.fold kind lookup) =
      forM x.names fun name => discard (kind.read lookup name) := by
  match x with
  | .symbol negated name =>
      rw [Operand.fold, Operand.names, List.forM_cons, List.forM_nil]
      cases kind.read lookup name <;> rfl
  | .group negated content =>
      rw [Operand.names, ← Formula.discard_foldWith content id, Operand.fold]
      cases content.foldWith kind lookup id <;> rfl

theorem Formula.discard_foldWith (f : Formula) (combine : α → α) :
    discard (f.foldWith kind lookup combine) =
      forM f.names fun name => discard (kind.read lookup name) := by
  match f with
  | .single x =>
      rw [Formula.names, ← Operand.discard_fold x, Formula.foldWith]
      cases x.fold kind lookup <;> rfl
  | .chain x c rest =>
      rw [Formula.names, List.forM_append, ← Operand.discard_fold x, Formula.foldWith]
      cases x.fold kind lookup with
      | error error => rfl
      | ok value => exact Formula.discard_foldWith rest _

end

/-- A fold succeeds, or fails, as looking up the symbols one after the other does. -/
theorem Formula.discard_fold (f : Formula) :
    discard (f.fold kind lookup) = forM f.propositions fun name => discard (lookup name) := by
  have named := Formula.discard_foldWith kind lookup f id
  rw [← forM_eraseDups] at named
  apply named.trans
  symm
  apply forM_filter_of_ok
  · intro name _ isVariable
    rw [ValueKind.read, Option.isNone_iff_eq_none.1 isVariable]
  · intro name _ isConstant
    obtain ⟨value, isValue⟩ := Option.isSome_iff_exists.1 (by simpa using isConstant)
    rw [ValueKind.read, isValue]
    rfl

end Outcome

end Entail
