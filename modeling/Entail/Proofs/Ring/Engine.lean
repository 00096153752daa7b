import Entail.Proofs.Ring.Clauses
import Entail.Proofs.Ring.Index
import Entail.Ring.Engine

/-!
# Engines that work on a store

Whatever an engine found before, its answer on a knowledge base in a store is
that of an engine of its kind that has found nothing yet, on the formulas that
the rings show; and if there is a verdict, so is what it found.  Either way no
node that there was changes.
-/

namespace Entail

/-- What was found before does not matter: the answer is the same, and unless it is an error, so is
what is found. -/
theorem TruthTable.answer_congr (options : Options) (kb : KnowledgeBase) (query : Formula)
    (found found' : TruthTable) :
    (found.answer options kb query).2 = (found'.answer options kb query).2 ∧
      ∀ verdict, (found.answer options kb query).2 = .ok verdict →
        (found.answer options kb query).1 = (found'.answer options kb query).1 := by
  rw [answer, answer]
  split
  · exact ⟨rfl, fun _ failed => by cases failed⟩
  · split
    · exact ⟨rfl, fun _ _ => rfl⟩
    · split
      · exact ⟨rfl, fun _ failed => by cases failed⟩
      · exact ⟨rfl, fun _ _ => rfl⟩

theorem TruthTable.ask_of_answer (options : Options) (kb : KnowledgeBase) (query : Formula)
    (found : TruthTable) : (found.answer options kb query).1.ask = some query := by
  rw [answer]
  split
  · rfl
  · split
    · rfl
    · split <;> rfl

namespace Ring

open Store Builder

/-- What a run on a store comes to is as expected: no node that there was has changed, the answer
is the expected one, and if it is no error, what was found is seen in the store as expected. -/
structure Agrees {ω φ α : Type} (look : ω → Store → Except Error φ) (s : Store)
    (run : Store × ω × Except Error α) (expected : φ × Except Error α) : Prop where
  evolves : s.Evolves run.1 ∅ ∅
  answer : run.2.2 = expected.2
  found : ∀ a, expected.2 = .ok a → look run.2.1 run.1 = .ok expected.1

variable {kb : Base} {base : KnowledgeBase} {s s' : Store}

namespace Agrees

variable {ω ω' φ φ' α β γ : Type} {look : ω → Store → Except Error φ}

theorem after {B : Set Nat} {run : Store × ω × Except Error α} {expected : φ × Except Error α}
    (evolves : s.Evolves s' ∅ B) (agrees : Agrees look s' run expected) :
    Agrees look s run expected :=
  ⟨evolves.trans (agrees.evolves.mono (Set.empty_subset _)), agrees.answer, agrees.found⟩

/-- A run that fails before it has found anything. -/
theorem fails {B : Set Nat} {found : ω} {error : Error} {expected : φ × Except Error α}
    (evolves : s.Evolves s' ∅ B) (failed : expected.2 = .error error) :
    Agrees look s (s', found, .error error) expected :=
  ⟨evolves.restrict (Set.empty_subset B), failed.symm, fun _ succeeded => by
    cases failed.symm.trans succeeded⟩

/-- A builder is run, and what goes on with its answer is as expected. -/
theorem attempt {x : Builder α} {r : Except Error γ} {post : α → γ → Store → Set Nat → Prop}
    {found : ω} {next : α → Store → Store × ω × Except Error β} {expected : φ × Except Error β}
    (comes : x.ComesTo s ∅ r post) (failed : ∀ error, r = .error error → expected.2 = .error error)
    (succeeded : ∀ a c s' B, r = .ok c → s.Evolves s' ∅ B → post a c s' B →
      Agrees look s' (next a s') expected) :
    Agrees look s (x.attempt s found next) expected := by
  cases r with
  | error error =>
      rcases comes with ⟨s', ran, evolves⟩
      rw [Builder.attempt, ran]
      exact fails evolves (failed error rfl)
  | ok c =>
      rcases comes with ⟨a, s', B, ran, evolves, holds⟩
      rw [Builder.attempt, ran]
      exact after evolves (succeeded a c s' B rfl evolves holds)

/-- What was found is put in another form. -/
theorem mapFound {look' : ω' → Store → Except Error φ'} {run : Store × ω × Except Error α}
    {expected : φ × Except Error α} (agrees : Agrees look s run expected) (f : ω → ω') (g : φ → φ')
    (looked : ∀ found s, look' (f found) s = (look found s).map g) :
    Agrees look' s (run.1, f run.2.1, run.2.2) (g expected.1, expected.2) := by
  refine ⟨agrees.evolves, agrees.answer, fun a answered => ?_⟩
  rw [looked, agrees.found a answered]
  rfl

/-- The answer is put in another form. -/
theorem mapAnswer {run : Store × ω × Except Error α} {expected : φ × Except Error α}
    (agrees : Agrees look s run expected) (h : α → β) :
    Agrees look s (run.1, run.2.1, run.2.2.map h) (expected.1, expected.2.map h) := by
  refine ⟨agrees.evolves, congrArg (Except.map h) agrees.answer, fun b answered => ?_⟩
  rcases map_eq_ok_iff.1 answered with ⟨a, answered, _⟩
  exact agrees.found a answered

end Agrees

/-! ### Truth tables -/

theorem TruthTable.view_eq_ok {table : Entail.TruthTable} {head : Nat} {query : Formula}
    (shown : s.Shows head query) (ask : table.ask = some query) :
    view ⟨table.symbols, table.count, table.kbCount, some head⟩ s = .ok table := by
  rcases table with ⟨symbols, count, kbCount, asked⟩
  cases ask
  simp only [view, Option.mapM_some, shown.formula]
  rfl

theorem TruthTable.agrees_prove (shown : kb.Shows s base) (options : Options) (text : String)
    (found : TruthTable) :
    Agrees view s (found.prove options kb text s)
      (Entail.TruthTable.initial.prove options base text) := by
  have reading : Builder.ComesTo (do
      let head ← parseText text
      return (head, ← read kb.knowledge, ← read (·.formula head))) s ∅
      (Formula.ofText text >>= pure) fun told f s' _ =>
        s'.Shows told.1 f ∧ told.2.1 = base ∧ told.2.2 = f := by
    refine (comesTo_parseText text s).bind Set.Subset.rfl fun head f s' B evolves query => ?_
    have shown := kb.lasting base evolves shown
    exact .read shown.knowledge (.read query.formula
      (Yields.pure (B := ∅) (Set.empty_subset _) ⟨query, rfl, rfl⟩))
  rw [bind_pure] at reading
  refine Agrees.attempt reading (fun error failed => ?_) ?_
  · rw [Entail.TruthTable.prove, failed]
  · rintro ⟨head, knowledge, f⟩ _ s' B outcome _ ⟨query, rfl, rfl⟩
    rw [Entail.TruthTable.prove, outcome]
    have same := Entail.TruthTable.answer_congr options knowledge f
      ⟨found.symbols, found.count, found.kbCount, none⟩ .initial
    refine ⟨.refl s' Set.Subset.rfl, same.1, fun verdict answered => ?_⟩
    rw [← same.2 verdict (same.1.trans answered)]
    exact view_eq_ok query (Entail.TruthTable.ask_of_answer ..)

/-! ### Chaining -/

theorem agrees_proveByChaining (shown : kb.Shows s base) (name : String)
    (strategy : Option Strategy) (text : String) (found : Chaining) :
    Agrees (fun found _ => .ok found) s (proveByChaining name strategy kb text found s)
      (Chaining.initial.prove name strategy base text) := by
  have indexing : Builder.ComesTo (do
      let head ← parseText text
      let symbol ← read fun s => (s.formula head).bind Chaining.goal
      return (symbol, ← kb.index)) s ∅
      (Formula.ofText text >>= Chaining.goal >>= fun symbol =>
        (HornIndex.ofKnowledgeBase base).map (Prod.mk symbol)) fun made made' _ _ =>
          made = made' := by
    rw [bind_assoc]
    refine (comesTo_parseText text s).bind Set.Subset.rfl fun head f s' B evolves query => ?_
    have shown := kb.lasting base evolves shown
    have looked : (s'.formula head).bind Chaining.goal = Chaining.goal f := by
      rw [query.formula]
      rfl
    cases goal : Chaining.goal f with
    | error error => exact .fails (bind_of_error (read_of_error (looked.trans goal)) _)
    | ok symbol =>
        refine .read (looked.trans goal) ((shown.comesTo_index.mono (Set.empty_subset _)).map_answer
          fun _ _ _ _ same => ?_)
        rw [same]
  refine Agrees.attempt indexing (fun error failed => ?_) ?_
  · rw [Chaining.prove]
    rcases bind_eq_error_iff.1 failed with noGoal | ⟨symbol, goal, failed⟩
    · have noGoal : (Formula.ofText text).bind Chaining.goal = .error error := noGoal
      rw [noGoal]
    · have goal : (Formula.ofText text).bind Chaining.goal = .ok symbol := goal
      rw [goal, map_eq_error_iff.1 failed]
  · rintro ⟨symbol, index⟩ _ s' B outcome _ rfl
    rcases bind_eq_ok_iff.1 outcome with ⟨_, goal, outcome⟩
    rcases map_eq_ok_iff.1 outcome with ⟨_, indexed, made⟩
    cases made
    have goal : (Formula.ofText text).bind Chaining.goal = .ok symbol := goal
    rw [Chaining.prove, goal, indexed]
    exact ⟨.refl s' Set.Subset.rfl, rfl, fun _ _ => rfl⟩

/-! ### Satisfiability -/

theorem Satisfiability.agrees_decideSat (shown : kb.Shows s base) (found : Satisfiability) :
    Agrees view s (found.decideSat kb s) (Entail.Satisfiability.initial.decideSat base) := by
  refine Agrees.attempt shown.comesTo_addClauses (fun error failed => ?_) ?_
  · rw [Entail.Satisfiability.decideSat, failed]
  · intro rings clauses s₁ B outcome _ shown
    rw [Entail.Satisfiability.decideSat, outcome]
    have searching : (searchClauses rings).ComesTo s₁ ∅ (.ok (search clauses []))
        fun path path' _ _ => path = path' := yields_searchClauses shown
    refine Agrees.attempt searching (fun error failed => by cases failed) ?_
    intro path path' s₂ C same evolves equal
    cases same
    cases equal
    refine ⟨.refl s₂ Set.Subset.rfl, rfl, fun isSatisfiable _ => ?_⟩
    have shown := Lasting.forall₂ lasting_showsClause rings clauses evolves shown
    simp only [view, Option.mapM_some, clauses_eq_ok shown]
    rfl

theorem Satisfiability.agrees_prove (shown : kb.Shows s base) (ask : String)
    (found : Satisfiability) :
    Agrees view s (found.prove kb ask s) (Entail.Satisfiability.initial.prove base ask) := by
  rw [Satisfiability.prove, Entail.Satisfiability.prove]
  cases SearchMode.ofAsk ask with
  | error error => exact .fails (.refl s (Set.empty_subset ∅)) rfl
  | ok mode => exact (agrees_decideSat shown found).mapAnswer mode.answer

/-! ### Refutation -/

theorem yields_negate {head : Nat} {f : Formula} (shown : s.Shows head f) :
    (negate head).Yields s ∅ fun h s' B => s'.HasRing h f.negate B := by
  refine (yields_copy shown).bind Set.Subset.rfl fun copied s₁ B _ ring => ?_
  refine .read (HasRing.isSingle ring) ?_
  cases f with
  | single x =>
      rcases HasRow.exists_toggle ring with ⟨s₂, toggled, ring, evolves⟩
      exact .edit_bind toggled (evolves.mono Set.subset_union_right)
        (.pure Set.subset_union_right ring)
  | chain x c rest =>
      exact (yields_addGroup ring true).mono Set.subset_union_right

theorem Refutation.comesTo_counterBase (shown : kb.Shows s base) (text : String) :
    (counterBase kb text).ComesTo s ∅
      (Formula.ofText text >>= fun query => pure (Entail.Refutation.counterBase base query))
      fun counter base s' _ => counter.Shows s' base := by
  refine (comesTo_parseText text s).bind Set.Subset.rfl fun head f s₁ B evolves query => ?_
  have shown := kb.lasting base evolves shown
  refine ComesTo.after_yields (yields_negate query) (Set.empty_subset _) ?_
  intro negation s₂ C evolves negated
  have shown := kb.lasting base evolves shown
  refine ComesTo.after_yields shown.yields_copy (Set.empty_subset _) ?_
  intro copied s₃ D evolves rings
  have negated := lasting_shows negation f.negate evolves negated.shows
  exact Yields.pure (B := ∅) (Set.empty_subset _) (.cons negated rings.shows)

theorem Refutation.agrees_prove (shown : kb.Shows s base) (text : String) (found : Refutation) :
    Agrees view s (found.prove kb text s) (Entail.Refutation.initial.prove base text) := by
  refine Agrees.attempt (comesTo_counterBase shown text) (fun error failed => ?_) ?_
  · rcases bind_eq_error_iff.1 failed with failed | ⟨query, _, failed⟩
    · rw [Entail.Refutation.prove, failed]
    · cases failed
  · intro counter counterBase s' B outcome _ shown
    rcases bind_eq_ok_iff.1 outcome with ⟨query, read, made⟩
    cases made
    rw [Entail.Refutation.prove, read]
    have agrees := (Satisfiability.agrees_decideSat shown .initial).mapAnswer
      SearchMode.unsatisfiable.answer
    refine agrees.mapFound (fun solver => Refutation.mk solver)
      (fun solver => Entail.Refutation.mk solver) fun found s => ?_
    rw [view, Option.mapM_some]
    cases found.view s <;> rfl

/-! ### Engines -/

/-- Whatever it found before, an engine answers as one of its kind that has found nothing yet. -/
theorem Work.agrees_prove (shown : kb.Shows s base) (options : Options) (ask : String)
    (work : Work) :
    Agrees (fun work s => work.view s) s (work.prove options kb ask s)
      (work.kind.prove options base ask) := by
  -- the runs are generalized, since they are not to be evaluated
  cases work with
  | undecided => exact .fails (.refl s (Set.empty_subset ∅)) rfl
  | truthTable found =>
      have agrees := TruthTable.agrees_prove shown options ask found
      simp only [Work.prove, kind, Entail.Work.prove]
      generalize found.prove options kb ask s = run at agrees ⊢
      generalize Entail.TruthTable.initial.prove options base ask = expected at agrees ⊢
      exact agrees.mapFound truthTable Entail.Work.truthTable fun _ _ => rfl
  | chaining strategy found =>
      have agrees := agrees_proveByChaining shown (chaining strategy found).kind.name strategy ask
        found
      simp only [Work.prove, kind, Entail.Work.prove] at agrees ⊢
      generalize proveByChaining _ strategy kb ask found s = run at agrees ⊢
      generalize Chaining.initial.prove _ strategy base ask = expected at agrees ⊢
      exact agrees.mapFound (chaining strategy) (Entail.Work.chaining strategy) fun _ _ => rfl
  | refutation found =>
      have agrees := Refutation.agrees_prove shown ask found
      simp only [Work.prove, kind, Entail.Work.prove]
      generalize found.prove kb ask s = run at agrees ⊢
      generalize Entail.Refutation.initial.prove base ask = expected at agrees ⊢
      exact agrees.mapFound refutation Entail.Work.refutation fun _ _ => rfl
  | satisfiability found =>
      have agrees := Satisfiability.agrees_prove shown ask found
      simp only [Work.prove, kind, Entail.Work.prove]
      generalize found.prove kb ask s = run at agrees ⊢
      generalize Entail.Satisfiability.initial.prove base ask = expected at agrees ⊢
      exact agrees.mapFound satisfiability Entail.Work.satisfiability fun _ _ => rfl

theorem Work.kind_ofKind (work : Work) : (ofKind work.kind).kind = work.kind := by
  cases work <;> rfl

namespace Engine

/-- Two engines, each asked in a store of its own, have come to the same: the same error, or the
same verdict, and then the details that they keep are seen in their stores as the same. -/
structure SameOutcome (run run' : Store × Engine × Except Error String) : Prop where
  answer : run.2.2 = run'.2.2
  result : ∀ verdict, run.2.2 = .ok verdict →
    run.2.1.result = some verdict ∧ run'.2.1.result = some verdict
  work : ∀ verdict, run.2.2 = .ok verdict →
    ∃ work, run.2.1.work.view run.1 = .ok work ∧ run'.2.1.work.view run'.1 = .ok work

theorem result_of_prove {engine : Engine} {ask verdict : String} {now : Float}
    (answered : (engine.prove kb ask now s).2.2 = .ok verdict) :
    (engine.prove kb ask now s).2.1.result = some verdict := by
  have answered : (engine.work.prove engine.options kb ask s).2.2 = .ok verdict := answered
  rw [prove]
  generalize engine.work.prove engine.options kb ask s = run at answered ⊢
  rcases run with ⟨s', work, answer⟩
  cases answered
  rfl

theorem keeps_prove (shown : kb.Shows s base) (engine : Engine) (ask : String) (now : Float) :
    s.Evolves (engine.prove kb ask now s).1 ∅ ∅ :=
  (engine.work.agrees_prove shown engine.options ask).evolves

/-- Engines of one kind that are set up alike come to the same on knowledge bases that show the
same formulas, whatever else is in their stores and whatever they found before. -/
theorem sameOutcome_prove {kb' : Base} {t : Store} (shown : kb.Shows s base)
    (shown' : kb'.Shows t base) {engine engine' : Engine}
    (options : engine.options = engine'.options) (kind : engine.work.kind = engine'.work.kind)
    (ask : String) (now later : Float) :
    SameOutcome (engine.prove kb ask now s) (engine'.prove kb' ask later t) := by
  have agrees := engine.work.agrees_prove shown engine.options ask
  have agrees' := engine'.work.agrees_prove shown' engine'.options ask
  rw [← options, ← kind] at agrees'
  have answer : (engine.prove kb ask now s).2.2 = (engine'.prove kb' ask later t).2.2 := by
    rw [prove, prove, ← options]
    exact agrees.answer.trans agrees'.answer.symm
  refine ⟨answer, fun verdict answered => ?_, fun verdict answered => ?_⟩
  · exact ⟨result_of_prove answered, result_of_prove (answer.symm.trans answered)⟩
  · have expected := agrees.answer.symm.trans answered
    refine ⟨_, agrees.found verdict expected, ?_⟩
    rw [prove, ← options]
    exact agrees'.found verdict expected

end Engine

end Ring

end Entail
