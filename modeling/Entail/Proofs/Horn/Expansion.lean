import Entail.Proofs.Horn.Completeness

/-!
# What a backward search leaves behind

A traced search notes the symbols whose rules it takes up, and is the same
search otherwise.  Each rule is taken up once at most.  Whatever a search
reaches is supported on its path: it was a fact, or one of its alternatives was
reached before.  If no symbol depends on itself, no choice is ever regretted, so
that the search reaches all that is derivable.
-/

namespace Entail

/-! ### Attempts on related states -/

section Simulation

variable {α σ τ : Type} {related : σ → τ → Prop} {attempt : α → σ → Bool × σ}
  {attempt' : α → τ → Bool × τ}

/-- On related states two attempts have the same outcome, and leave related states. -/
def Simulates (related : σ → τ → Prop) (attempt : α → σ → Bool × σ)
    (attempt' : α → τ → Bool × τ) : Prop :=
  ∀ x s t, related s t →
    (attempt x s).1 = (attempt' x t).1 ∧ related (attempt x s).2 (attempt' x t).2

theorem Simulates.allFrom (simulates : Simulates related attempt attempt') :
    Simulates related (Entail.allFrom attempt) (Entail.allFrom attempt') := by
  intro xs
  induction xs with
  | nil => exact fun _ _ isRelated => ⟨rfl, isRelated⟩
  | cons x rest ih =>
      intro s t isRelated
      have first := simulates x s t isRelated
      rw [Entail.allFrom, Entail.allFrom]
      generalize attempt x s = result at first ⊢
      generalize attempt' x t = result' at first ⊢
      rcases result with ⟨outcome, s'⟩
      rcases result' with ⟨_, t'⟩
      rcases first with ⟨rfl, isRelated⟩
      cases outcome with
      | true => exact ih s' t' isRelated
      | false => exact ⟨rfl, isRelated⟩

theorem Simulates.anyFrom (simulates : Simulates related attempt attempt') :
    Simulates related (Entail.anyFrom attempt) (Entail.anyFrom attempt') := by
  intro xs
  induction xs with
  | nil => exact fun _ _ isRelated => ⟨rfl, isRelated⟩
  | cons x rest ih =>
      intro s t isRelated
      have first := simulates x s t isRelated
      rw [Entail.anyFrom, Entail.anyFrom]
      generalize attempt x s = result at first ⊢
      generalize attempt' x t = result' at first ⊢
      rcases result with ⟨outcome, s'⟩
      rcases result' with ⟨_, t'⟩
      rcases first with ⟨rfl, isRelated⟩
      cases outcome with
      | true => exact ⟨rfl, isRelated⟩
      | false => exact ih s' t' isRelated

end Simulation

/-! ### More depth than rules -/

/-- A search with as many rules in use at a time as there are left has enough of them. -/
theorem simulates_backwardTo (depth : Nat) :
    Simulates (fun s t => s = t ∧ s.index.rules.length ≤ depth) (backwardTo (depth + 1))
      (backwardTo depth) := by
  induction depth with
  | zero =>
      rintro name s _ ⟨rfl, bound⟩
      have noRules : s.index.rules = [] := List.eq_nil_of_length_eq_zero (Nat.le_zero.1 bound)
      have spent : (s.visit name).index.alternatives? name = none := by
        simp [index_visit, HornIndex.alternatives?, noRules]
      simp only [backwardTo, spent]
      split
      · next isFact => exact ⟨isFact.symm, rfl, by simp [index_visit, noRules]⟩
      · next isNew => exact ⟨(Bool.eq_false_iff.2 isNew).symm, rfl, by simp [index_visit, noRules]⟩
  | succ depth ih =>
      rintro name s _ ⟨rfl, bound⟩
      have visited : (s.visit name).index.rules.length ≤ depth + 1 := by rwa [index_visit]
      rw [backwardTo, backwardTo]
      dsimp only
      split
      · exact ⟨rfl, rfl, visited⟩
      · split
        · exact ⟨rfl, rfl, visited⟩
        · next alternatives found =>
            have fewer := HornIndex.length_rules_eraseRule_lt found
            have inner := ih.allFrom.anyFrom alternatives
              { s.visit name with index := (s.visit name).index.eraseRule name } _
              ⟨rfl, Nat.le_of_lt_succ (Nat.lt_of_lt_of_le fewer visited)⟩
            generalize anyFrom (allFrom (backwardTo (depth + 1))) alternatives
              { s.visit name with index := (s.visit name).index.eraseRule name } = result at inner ⊢
            generalize anyFrom (allFrom (backwardTo depth)) alternatives
              { s.visit name with index := (s.visit name).index.eraseRule name } = result' at inner ⊢
            rcases result with ⟨outcome, rest⟩
            rcases result' with ⟨_, _⟩
            rcases inner with ⟨rfl, rfl, bound⟩
            cases outcome <;> exact ⟨rfl, rfl, Nat.le_succ_of_le bound⟩

/-- A search does not depend on the depth that it is allowed, once that is the number of rules. -/
theorem backwardTo_eq_of_le {depth : Nat} (name : String) (s : BackwardState)
    (enough : s.index.rules.length ≤ depth) :
    backwardTo depth name s = backwardTo s.index.rules.length name s := by
  induction depth, enough using Nat.le_induction with
  | base => rfl
  | succ depth enough ih =>
      rcases simulates_backwardTo depth name s s ⟨rfl, enough⟩ with ⟨outcome, left, _⟩
      exact (Prod.ext outcome left).trans ih

/-! ### Traced searches -/

/-- The state of a backward search, and the symbols whose rules it has taken up, the latest first. -/
structure TracedState where
  search : BackwardState
  expanded : List String

namespace TracedState

/-- Puts a symbol that is tried for the first time on the path. -/
def visit (s : TracedState) (name : String) : TracedState :=
  { s with search := s.search.visit name }

/-- Takes up the rule of a symbol. -/
def expand (s : TracedState) (name : String) : TracedState :=
  ⟨{ s.search with index := s.search.index.eraseRule name }, name :: s.expanded⟩

/-- Makes a symbol that was reached a fact. -/
def reach (s : TracedState) (name : String) : TracedState :=
  { s with search := { s.search with index := s.search.index.addFact name } }

end TracedState

/-- Tries to reach a symbol as `backwardTo` does, and notes the symbols whose rules are taken up. -/
def tracedTo : Nat → String → TracedState → Bool × TracedState
  | 0, name, s => ((s.visit name).search.index.isFact name, s.visit name)
  | depth + 1, name, s =>
    if (s.visit name).search.index.isFact name then (true, s.visit name)
    else
      match (s.visit name).search.index.alternatives? name with
      | none => (false, s.visit name)
      | some alternatives =>
        match anyFrom (allFrom (tracedTo depth)) alternatives ((s.visit name).expand name) with
        | (true, s) => (true, s.reach name)
        | (false, s) => (false, s)

/-- Chains backward, and notes the symbols whose rules are taken up. -/
def HornIndex.traceBackward (index : HornIndex) (goal : String) : Chain × List String :=
  let result := tracedTo index.rules.length goal ⟨⟨index, []⟩, []⟩
  (⟨result.1, result.2.search.path⟩, result.2.expanded)

/-- But for what it notes, a traced search is the search itself. -/
theorem simulates_tracedTo (depth : Nat) :
    Simulates (fun s t => s.search = t) (tracedTo depth) (backwardTo depth) := by
  induction depth with
  | zero =>
      rintro name s _ rfl
      exact ⟨rfl, rfl⟩
  | succ depth ih =>
      rintro name s _ rfl
      have visited : (s.visit name).search = s.search.visit name := rfl
      rw [tracedTo, backwardTo]
      simp only [visited]
      by_cases isFact : (s.search.visit name).index.isFact name = true
      · rw [if_pos isFact, if_pos isFact]
        exact ⟨rfl, visited⟩
      · rw [if_neg isFact, if_neg isFact]
        cases (s.search.visit name).index.alternatives? name with
        | none => exact ⟨rfl, visited⟩
        | some alternatives =>
            have inner := ih.allFrom.anyFrom alternatives ((s.visit name).expand name) _ rfl
            simp only [TracedState.expand, visited] at inner ⊢
            generalize anyFrom (allFrom (tracedTo depth)) alternatives _ = result at inner ⊢
            generalize anyFrom (allFrom (backwardTo depth)) alternatives _ = result' at inner ⊢
            rcases result with ⟨outcome, rest⟩
            rcases result' with ⟨_, _⟩
            rcases inner with ⟨rfl, rfl⟩
            cases outcome <;> exact ⟨rfl, rfl⟩

theorem HornIndex.fst_traceBackward (index : HornIndex) (goal : String) :
    (index.traceBackward goal).1 = index.chainBackward goal := by
  rcases simulates_tracedTo index.rules.length goal ⟨⟨index, []⟩, []⟩ _ rfl with ⟨outcome, left⟩
  rw [traceBackward, chainBackward, ← outcome, ← left]

/-! ### Support -/

/-- The symbol was tried and is a fact. -/
def TracedState.Reaches (s : TracedState) (name : String) : Prop :=
  name ∈ s.search.path ∧ name ∈ s.search.index.facts

/-- What a search has tried and what it knows is kept. -/
structure TracedState.Extends (s s' : TracedState) : Prop where
  facts : s.search.index.facts ⊆ s'.search.index.facts
  path : s.search.path <:+ s'.search.path

/-- What holds of the states of a search in an index: every fact was one from the beginning or has an
alternative that was reached, nothing was tried or taken up twice, and what was taken up is gone. -/
structure HornIndex.Supports (original : HornIndex) (s : TracedState) : Prop where
  evolves : original.Evolves s.search.index
  facts : ∀ name ∈ s.search.index.facts, name ∈ original.facts ∨
    ∃ requirements, original.HasAlternative name requirements ∧
      ∀ requirement ∈ requirements, s.Reaches requirement
  tried : s.search.path.Nodup
  expanded : s.expanded.Nodup
  spent : ∀ name ∈ s.expanded, s.search.index.alternatives? name = none

namespace TracedState

variable {s s' s'' : TracedState} {name : String}

theorem Extends.refl (s : TracedState) : s.Extends s :=
  ⟨List.Subset.refl _, List.suffix_refl _⟩

theorem Extends.trans (first : s.Extends s') (second : s'.Extends s'') : s.Extends s'' :=
  ⟨List.Subset.trans first.facts second.facts, first.path.trans second.path⟩

theorem Reaches.extend (reaches : s.Reaches name) (extended : s.Extends s') : s'.Reaches name :=
  ⟨extended.path.subset reaches.1, extended.facts reaches.2⟩

theorem index_visit (s : TracedState) (name : String) :
    (s.visit name).search.index = s.search.index :=
  Entail.index_visit s.search name

theorem path_visit (s : TracedState) (name : String) : (s.visit name).search.path =
    if name ∈ s.search.path then s.search.path else name :: s.search.path := by
  simp only [visit, BackwardState.visit, List.contains_iff_mem]
  split <;> rfl

theorem mem_path_visit (s : TracedState) (name : String) : name ∈ (s.visit name).search.path := by
  rw [path_visit]
  split
  · assumption
  · exact List.mem_cons_self

theorem extends_visit (s : TracedState) (name : String) : s.Extends (s.visit name) where
  facts := by rw [index_visit]; exact List.Subset.refl _
  path := by
    rw [path_visit]
    split
    · exact List.suffix_refl _
    · exact List.suffix_cons name _

theorem extends_expand (s : TracedState) (name : String) : s.Extends (s.expand name) :=
  ⟨List.Subset.refl _, List.suffix_refl _⟩

theorem extends_reach (s : TracedState) (name : String) : s.Extends (s.reach name) where
  facts _ isFact := HornIndex.mem_facts_addFact.2 (.inl isFact)
  path := List.suffix_refl _

end TracedState

namespace HornIndex

variable {original : HornIndex} {s : TracedState} {name : String}

theorem Supports.visit (supports : original.Supports s) (name : String) :
    original.Supports (s.visit name) where
  evolves := by rw [TracedState.index_visit]; exact supports.evolves
  facts := by
    rw [TracedState.index_visit]
    intro other isFact
    rcases supports.facts other isFact with isFact | ⟨requirements, isAlternative, reached⟩
    · exact .inl isFact
    · exact .inr ⟨requirements, isAlternative, fun requirement required =>
        (reached requirement required).extend (s.extends_visit name)⟩
  tried := by
    rw [TracedState.path_visit]
    split
    · exact supports.tried
    · next isNew => exact List.nodup_cons.2 ⟨isNew, supports.tried⟩
  expanded := supports.expanded
  spent := by rw [TracedState.index_visit]; exact supports.spent

theorem Supports.expand (supports : original.Supports s) {alternatives : List (List String)}
    (found : s.search.index.alternatives? name = some alternatives) :
    original.Supports (s.expand name) where
  evolves := supports.evolves.trans (.eraseRule _ _)
  facts := supports.facts
  tried := supports.tried
  expanded := by
    refine List.nodup_cons.2 ⟨fun again => ?_, supports.expanded⟩
    rw [supports.spent name again] at found
    contradiction
  spent := by
    refine List.forall_mem_cons.2 ⟨?_, fun other isExpanded => ?_⟩
    · exact (alternatives?_eraseRule ..).trans (if_pos rfl)
    · exact (Evolves.eraseRule _ _).none_of_none (supports.spent other isExpanded)

theorem Supports.reach (supports : original.Supports s) {requirements : List String}
    (isAlternative : original.HasAlternative name requirements)
    (reached : ∀ requirement ∈ requirements, s.Reaches requirement) :
    original.Supports (s.reach name) where
  evolves := supports.evolves.trans (.addFact _ _)
  facts := by
    have extended {names : List String} (reached : ∀ requirement ∈ names, s.Reaches requirement)
        (requirement : String) (required : requirement ∈ names) :
        (s.reach name).Reaches requirement :=
      (reached requirement required).extend (s.extends_reach name)
    intro other isFact
    rcases mem_facts_addFact.1 isFact with isFact | rfl
    · rcases supports.facts other isFact with isFact | ⟨names, isAlternative, reached⟩
      · exact .inl isFact
      · exact .inr ⟨names, isAlternative, extended reached⟩
    · exact .inr ⟨requirements, isAlternative, extended reached⟩
  tried := supports.tried
  expanded := supports.expanded
  spent := supports.spent

/-- An attempt keeps the support of what is known, and where it succeeds, it has reached what was
tried. -/
def Attains {α : Type} (original : HornIndex) (attempt : α → TracedState → Bool × TracedState)
    (reached : α → TracedState → Prop) : Prop :=
  ∀ x s, original.Supports s → original.Supports (attempt x s).2 ∧ s.Extends (attempt x s).2 ∧
    ((attempt x s).1 = true → reached x (attempt x s).2)

theorem Attains.allFrom {attempt : String → TracedState → Bool × TracedState}
    (attains : original.Attains attempt fun name s => s.Reaches name) :
    original.Attains (Entail.allFrom attempt) fun names s => ∀ name ∈ names, s.Reaches name := by
  intro names
  induction names with
  | nil => exact fun s supports => ⟨supports, .refl s, fun _ => List.forall_mem_nil _⟩
  | cons name rest ih =>
      intro s supports
      have first := attains name s supports
      rw [Entail.allFrom]
      generalize attempt name s = result at first
      rcases result with ⟨outcome, s'⟩
      rcases first with ⟨supports, extended, reached⟩
      cases outcome with
      | false => exact ⟨supports, extended, fun isTrue => absurd isTrue Bool.false_ne_true⟩
      | true =>
          rcases ih s' supports with ⟨supports, extended', others⟩
          exact ⟨supports, extended.trans extended', fun isTrue =>
            List.forall_mem_cons.2 ⟨(reached rfl).extend extended', others isTrue⟩⟩

theorem Attains.anyFrom {α : Type} {attempt : α → TracedState → Bool × TracedState}
    {reached : α → TracedState → Prop} (attains : original.Attains attempt reached) :
    original.Attains (Entail.anyFrom attempt) fun xs s => ∃ x ∈ xs, reached x s := by
  intro xs
  induction xs with
  | nil => exact fun s supports =>
      ⟨supports, .refl s, fun isTrue => absurd isTrue Bool.false_ne_true⟩
  | cons x rest ih =>
      intro s supports
      have first := attains x s supports
      rw [Entail.anyFrom]
      generalize attempt x s = result at first
      rcases result with ⟨outcome, s'⟩
      rcases first with ⟨supports, extended, holds⟩
      cases outcome with
      | true => exact ⟨supports, extended, fun _ => ⟨x, List.mem_cons_self, holds rfl⟩⟩
      | false =>
          rcases ih s' supports with ⟨supports, extended', others⟩
          refine ⟨supports, extended.trans extended', fun isTrue => ?_⟩
          rcases others isTrue with ⟨y, isListed, holds⟩
          exact ⟨y, List.mem_cons_of_mem _ isListed, holds⟩

/-- A search keeps the support of what is known, goes on from the tried symbol, and where it
succeeds, it has reached it. -/
theorem Supports.tracedTo (supports : original.Supports s) (depth : Nat) (name : String) :
    original.Supports (tracedTo depth name s).2 ∧
      (s.visit name).Extends (tracedTo depth name s).2 ∧
      ((tracedTo depth name s).1 = true → (tracedTo depth name s).2.Reaches name) := by
  induction depth generalizing s name with
  | zero =>
      refine ⟨supports.visit name, .refl _, fun isFact => ⟨s.mem_path_visit name, ?_⟩⟩
      exact isFact_iff.1 isFact
  | succ depth ih =>
      have visited := supports.visit name
      rw [Entail.tracedTo]
      split
      · next isFact =>
          exact ⟨visited, .refl _, fun _ => ⟨s.mem_path_visit name, isFact_iff.1 isFact⟩⟩
      · split
        · exact ⟨visited, .refl _, fun isTrue => absurd isTrue Bool.false_ne_true⟩
        · next alternatives found =>
            have attains : original.Attains (Entail.tracedTo depth) fun name s => s.Reaches name := by
              intro name s supports
              rcases ih supports name with ⟨supports, extended, reached⟩
              exact ⟨supports, (s.extends_visit name).trans extended, reached⟩
            have inner := attains.allFrom.anyFrom alternatives _ (visited.expand found)
            generalize anyFrom (allFrom (Entail.tracedTo depth)) alternatives
              ((s.visit name).expand name) = result at inner ⊢
            rcases result with ⟨outcome, rest⟩
            rcases inner with ⟨restSupports, extended, reached⟩
            have extended := ((s.visit name).extends_expand name).trans extended
            cases outcome with
            | false =>
                exact ⟨restSupports, extended, fun isTrue => absurd isTrue Bool.false_ne_true⟩
            | true =>
                rcases reached rfl with ⟨requirements, isAlternative, met⟩
                have known := visited.evolves.hasAlternative found isAlternative
                exact ⟨restSupports.reach known met, extended.trans (rest.extends_reach name),
                  fun _ => ⟨extended.path.subset (s.mem_path_visit name),
                    mem_facts_addFact.2 (.inr rfl)⟩⟩

/-! ### Symbols that do not depend on themselves -/

/-- The symbol has an alternative in which the requirement occurs. -/
def Needs (index : HornIndex) (name requirement : String) : Prop :=
  ∃ requirements, index.HasAlternative name requirements ∧ requirement ∈ requirements

theorem DependsOn.needs {index : HornIndex} {name other : String}
    (depends : index.DependsOn name other) : Relation.ReflTransGen index.Needs name other := by
  have needs : index.Requires ≤ index.Needs := fun _ _ requires => requires.2
  exact Relation.ReflTransGen.mono needs _ _ depends

/-- Entangled symbols depend on themselves. -/
theorem Entangled.exists_cycle {index : HornIndex} {goal choice name : String}
    (entangled : index.Entangled goal choice name) :
    Relation.ReflTransGen index.Needs goal name ∧ Relation.TransGen index.Needs name name := by
  refine ⟨entangled.relevant.needs, ?_⟩
  rcases Relation.reflTransGen_iff_eq_or_transGen.1 entangled.choice.dependent.needs with
    same | forth
  · exact absurd same entangled.choice.different
  · exact forth.trans_left entangled.choice.depends.needs

/-- Backward chaining does not run out of depth, and takes up the rule of a symbol once at most.
What it succeeds for is in the least set that holds the facts and the conclusion of every rule one of
whose alternatives it holds; its path then has no symbol twice, ends with the asked one, and holds
symbols that support each other, the asked one among them.  It succeeds for all symbols of the least
set that depend on no symbol that depends on itself. -/
theorem chainBackward_is_sound_and_complete {index : HornIndex} (keyed : index.IsKeyed)
    {least : Set String} (isLeast : IsLeast {known | index.IsSaturated known} least)
    (goal : String) :
    (∀ depth, index.rules.length ≤ depth →
      backwardTo depth goal ⟨index, []⟩ = backwardTo index.rules.length goal ⟨index, []⟩) ∧
    (∃ expanded, index.traceBackward goal = (index.chainBackward goal, expanded) ∧
      expanded.Nodup) ∧
    ((index.chainBackward goal).success = true → goal ∈ least ∧
      (index.chainBackward goal).path.Nodup ∧
      (index.chainBackward goal).path.getLast? = some goal ∧
      ∃ support : Set String, goal ∈ support ∧ ∀ name ∈ support,
        name ∈ (index.chainBackward goal).path ∧ (name ∈ index.facts ∨
          ∃ requirements, index.HasAlternative name requirements ∧
            ∀ requirement ∈ requirements, requirement ∈ support)) ∧
    ((¬∃ name, Relation.ReflTransGen index.Needs goal name ∧
        Relation.TransGen index.Needs name name) →
      goal ∈ least → (index.chainBackward goal).success = true) := by
  have start : index.Supports ⟨⟨index, []⟩, []⟩ :=
    ⟨.refl index, fun _ => .inl, List.nodup_nil, List.nodup_nil, List.forall_mem_nil _⟩
  rcases start.tracedTo index.rules.length goal with ⟨supports, extended, reached⟩
  have traced := index.fst_traceBackward goal
  have isDerivable : least = {name | index.Derivable name} :=
    isLeast.unique index.isLeast_derivable
  subst isDerivable
  refine ⟨fun depth enough => backwardTo_eq_of_le goal ⟨index, []⟩ enough,
    ⟨_, Prod.ext traced rfl, supports.expanded⟩, ?_, ?_⟩
  · intro success
    rw [← traced] at success ⊢
    refine ⟨?_, supports.tried, ?_, {name | TracedState.Reaches _ name}, reached success, ?_⟩
    · rw [traced] at success
      exact index.derivable_of_chainBackward goal success
    · rcases extended.path with ⟨path, same⟩
      have visited : (TracedState.visit ⟨⟨index, []⟩, []⟩ goal).search.path = [goal] := rfl
      rw [visited] at same
      change List.getLast? (tracedTo index.rules.length goal ⟨⟨index, []⟩, []⟩).2.search.path = _
      rw [← same, List.getLast?_concat]
    · exact fun name isReached => ⟨isReached.1, supports.facts name isReached.2⟩
  · intro acyclic derivable
    apply keyed.chainBackward_of_derivable _ derivable
    rintro ⟨choice, name, entangled⟩
    exact acyclic ⟨name, entangled.exists_cycle⟩

/-- Two rules, the first of which needs what the second one concludes. -/
theorem chainBackward_is_sound_and_complete_of_rules :
    let index : HornIndex := ⟨["a"], [⟨"c", [["b", "a"]]⟩, ⟨"b", [["a"]]⟩]⟩
    index.IsKeyed ∧ IsLeast {known | index.IsSaturated known} {name | index.Derivable name} ∧
      (¬∃ name, Relation.ReflTransGen index.Needs "c" name ∧
        Relation.TransGen index.Needs name name) ∧ index.Derivable "c" ∧
      (index.chainBackward "c").success = true ∧
      (index.chainBackward "c").path.Nodup ∧
      (index.chainBackward "c").path.getLast? = some "c" := by
  intro index
  have keyed : index.IsKeyed := by decide
  have descends {source target : String} (path : Relation.TransGen index.Needs source target) :
      (["a", "b", "c"].idxOf target) < ["a", "b", "c"].idxOf source := by
    have edge {source target : String} (needs : index.Needs source target) :
        (source, target) ∈ [("c", "b"), ("c", "a"), ("b", "a")] := by
      rcases needs with ⟨_, ⟨_, isRule, rfl, isAlternative⟩, required⟩
      simp only [index, List.mem_cons, List.not_mem_nil, or_false] at isRule
      rcases isRule with rfl | rfl <;> simp_all
    have step {source target : String} (needs : index.Needs source target) :
        (["a", "b", "c"].idxOf target) < ["a", "b", "c"].idxOf source := by
      have known := edge needs
      simp only [List.mem_cons, Prod.mk.injEq, List.not_mem_nil, or_false] at known
      rcases known with ⟨rfl, rfl⟩ | ⟨rfl, rfl⟩ | ⟨rfl, rfl⟩ <;> decide
    induction path with
    | single needs => exact step needs
    | tail _ needs ih => exact Nat.lt_trans (step needs) ih
  have acyclic : ¬∃ name, Relation.ReflTransGen index.Needs "c" name ∧
      Relation.TransGen index.Needs name name := by
    rintro ⟨name, _, cycle⟩
    exact Nat.lt_irrefl _ (descends cycle)
  have derivable : index.Derivable "c" :=
    index.derivable_of_chainBackward "c" (by decide +kernel)
  rcases chainBackward_is_sound_and_complete keyed index.isLeast_derivable "c" with
    ⟨_, _, sound, complete⟩
  have success := complete acyclic derivable
  rcases sound success with ⟨_, tried, asked, _⟩
  exact ⟨keyed, index.isLeast_derivable, acyclic, derivable, success, tried, asked⟩

end HornIndex

end Entail
