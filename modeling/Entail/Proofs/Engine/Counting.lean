import Entail.Proofs.Console.Grid
import Entail.Proofs.Engine.TruthTable
import Entail.Proofs.Truth.Assignments
import Entail.Proofs.Truth.Models

/-!
# Truth tables count assignments

What a truth table engine counts is the number of assignments to the symbols of
a knowledge base under which its clauses, and the query, are true.  As long as
there are not too many symbols it never fails, neither to answer nor to report.
-/

namespace Entail

/-! ### Assignments -/

/-- As many assignments make formulas true as rows of the table do. -/
theorem Assignment.card_filter_allTrue {symbols : List String} (distinct : symbols.Nodup)
    {formulas : List Formula} (listed : Table.Lists symbols formulas) :
    (Finset.univ.filter fun a : Assignment symbols =>
      Formula.allTrue formulas a.valuation = true).card = Table.countTrue symbols formulas := by
  apply card_filter_eq_countP distinct
  intro v w agree
  apply Bool.eq_iff_iff.2
  simp only [Formula.allTrue, List.all_eq_true]
  apply forall₂_congr
  intro f isFormula
  have same := Formula.eval_congr fun name isProposition =>
    agree name (listed f isFormula name isProposition)
  rw [same]

namespace KnowledgeBase

/-- The assignments to the symbols of a knowledge base under which all clauses are true. -/
def models (kb : KnowledgeBase) : Finset (Assignment (propositions kb.symbols)) :=
  Finset.univ.filter fun a => ∀ f ∈ kb.clauses, f.eval a.valuation = true

/-- Those of them under which a query is true, too. -/
def modelsWith (kb : KnowledgeBase) (query : Formula) :
    Finset (Assignment (propositions kb.symbols)) :=
  kb.models.filter fun a => query.eval a.valuation = true

variable {kb : KnowledgeBase}

theorem card_models (kb : KnowledgeBase) :
    kb.models.card = Table.countTrue (propositions kb.symbols) kb.clauses := by
  rw [← Assignment.card_filter_allTrue kb.nodup_propositions kb.lists_propositions, models]
  simp only [Formula.allTrue, List.all_eq_true]

theorem card_modelsWith {query : Formula}
    (known : ∀ name ∈ query.propositions, name ∈ propositions kb.symbols) :
    (kb.modelsWith query).card =
      Table.countTrue (propositions kb.symbols) (kb.clauses ++ [query]) := by
  have listed : Table.Lists (propositions kb.symbols) (kb.clauses ++ [query]) :=
    List.forall_mem_append.2 ⟨kb.lists_propositions, by simpa using known⟩
  rw [← Assignment.card_filter_allTrue kb.nodup_propositions listed, modelsWith, models,
    Finset.filter_filter]
  simp only [Formula.allTrue, List.all_append, List.all_cons, List.all_nil, Bool.and_true,
    Bool.and_eq_true, List.all_eq_true]

end KnowledgeBase

/-! ### Reports -/

namespace TruthTable

variable {kb : KnowledgeBase} {symbols : List String} {query : Formula}

/-- The row of a model is its number, and texts. -/
theorem exists_row (distinct : symbols.Nodup) (listed : Table.Lists symbols kb.clauses)
    {known : Bool} (knows : known = true → ∀ name ∈ query.propositions, name ∈ symbols)
    (number : Nat) :
    ∃ texts : List String, row kb query known (Model.ofRow symbols number) =
      .ok (.whole number :: texts.map .text) := by
  obtain ⟨value, checked⟩ := exists_allM_eq_ok fun f isClause =>
    ⟨_, Model.check_ofRow distinct (listed f isClause) number⟩
  rw [row, checked]
  cases known with
  | true =>
      rw [Model.check_ofRow distinct (knows rfl) number]
      exact ⟨_, rfl⟩
  | false => exact ⟨_, rfl⟩

/-- The table over the symbols of a knowledge base can be listed, whatever the query. -/
theorem exists_listing (distinct : symbols.Nodup) (few : symbols.length ≤ maxTableSymbols)
    (listed : Table.Lists symbols kb.clauses) (query : Formula) :
    ∃ text, listing kb symbols query = .ok text := by
  have knows : query.propositions.all symbols.contains = true →
      ∀ name ∈ query.propositions, name ∈ symbols := by
    simp
  have each : ∀ m ∈ (List.range (2 ^ symbols.length)).map (Model.ofRow symbols), ∃ cells,
      row kb query (query.propositions.all symbols.contains) m = .ok cells := by
    intro m isModel
    obtain ⟨number, _, rfl⟩ := List.mem_map.1 isModel
    obtain ⟨texts, made⟩ := exists_row distinct listed knows number
    exact ⟨_, made⟩
  obtain ⟨rows, made⟩ := exists_mapM_eq_ok each
  have numbered : ∀ cells ∈ rows, ∃ (number : Nat) (texts : List String),
      cells = .whole number :: texts.map .text := by
    intro cells isRow
    obtain ⟨m, isModel, isMade⟩ := exists_of_mem_of_mapM made isRow
    obtain ⟨number, _, rfl⟩ := List.mem_map.1 isModel
    obtain ⟨texts, made⟩ := exists_row distinct listed knows number
    exact ⟨number, texts, Except.ok.inj (isMade.symm.trans made)⟩
  let grid : Console.Grid := ⟨"#" :: symbols ++ ["KB", query.text], rows⟩
  have plain (i : Nat) : Console.IsPlain (grid.rows.map (·.getD i .missing)) :=
    Console.isPlain_of_numbered numbered i
  obtain ⟨text, written⟩ := Console.Grid.exists_write plain
  refine ⟨text, ?_⟩
  simp only [listing, Model.all_eq_ok distinct few, bind, Except.bind, made]
  exact written

/-- What was found over the symbols of a knowledge base can be reported. -/
theorem exists_report (distinct : symbols.Nodup) (few : symbols.length ≤ maxTableSymbols)
    (listed : Table.Lists symbols kb.clauses) (options : Options) (count kbCount : Nat) :
    ∃ text, (⟨some symbols, count, kbCount, some query⟩ : TruthTable).report options kb =
      .ok text := by
  obtain ⟨table, made⟩ := exists_listing distinct few listed query
  by_cases many : maxListedRows < Nat.pow 2 symbols.length
  · simp only [report, if_pos many]
    exact ⟨_, rfl⟩
  · simp only [report, if_neg many, made]
    exact ⟨_, rfl⟩

end TruthTable

/-! ### Answers -/

namespace Engine

variable {engine : Engine} {found : TruthTable} {kb : KnowledgeBase} {ask : String}
  {query : Formula}

/-- What a truth table engine keeps and answers once the query was read. -/
theorem prove_of_truthTable (method : engine.work = .truthTable found)
    (parsed : Formula.ofText ask = .ok query) (kb : KnowledgeBase) (now : Float) :
    (engine.prove kb ask now).1.work = .truthTable (found.answer engine.options kb query).1 ∧
      (engine.prove kb ask now).2 = (found.answer engine.options kb query).2 := by
  simp only [prove, method, Work.prove, TruthTable.prove, parsed, and_true]

/-- Details that can be reported can be reported after any answer. -/
theorem exists_report_of_work {engine' : Engine} {work : Work} (keeps : engine'.work = work)
    (reported : ∃ text, work.report engine'.options kb = .ok text) :
    ∃ text, engine'.report kb = .ok text := by
  obtain ⟨text, made⟩ := reported
  rw [report, keeps, made]
  exact ⟨_, rfl⟩

/-- A truth table engine asked about symbols that it knows counts the assignments that make the
knowledge base true, and those of them that make the query true; asked about another symbol it
counts none.  Its answer goes by the counts.  It never fails, nor do a count of all models and a
report. -/
theorem truthTable_counts_models (method : engine.work = .truthTable found) {limit : Int}
    (limited : engine.options.maxSymbols = .ok limit)
    (few : ((propositions kb.symbols).length : Int) ≤ min limit maxTableSymbols)
    (parsed : Formula.ofText ask = .ok query) (now : Float) :
    ∃ kept, (engine.prove kb ask now).1.work = .truthTable kept ∧
      kept.symbols = some (propositions kb.symbols) ∧ kept.ask = some query ∧
      ((∀ name ∈ query.propositions, name ∈ propositions kb.symbols) →
        kept.kbCount = kb.models.card ∧ kept.count = (kb.modelsWith query).card) ∧
      ((∃ name ∈ query.propositions, name ∉ propositions kb.symbols) →
        kept.kbCount = 0 ∧ kept.count = 0 ∧ (engine.prove kb ask now).2 = .ok "NO") ∧
      (engine.prove kb ask now).2 = .ok (verdict
        (if engine.options.strict then decide (0 < kept.kbCount) && kept.count == kept.kbCount
          else decide (0 < kept.count)) (some (toString kept.count))) ∧
      TruthTable.countModels engine.options kb = .ok kb.models.card ∧
      ∃ text, (engine.prove kb ask now).1.report kb = .ok text := by
  have small : (propositions kb.symbols).length ≤ maxTableSymbols := by omega
  have enumerated := TruthTable.vocabulary_eq_ok_of_le limited few
  have counted := TruthTable.countModels_of_vocabulary enumerated small
  rw [← kb.card_models] at counted
  have reported (count kbCount : Nat) : ∃ text,
      (Work.truthTable ⟨some (propositions kb.symbols), count, kbCount, some query⟩).report
        (engine.prove kb ask now).1.options kb = .ok text :=
    TruthTable.exists_report kb.nodup_propositions small kb.lists_propositions _ count kbCount
  obtain ⟨keeps, answers⟩ := prove_of_truthTable method parsed kb now
  by_cases known : ∀ name ∈ query.propositions, name ∈ propositions kb.symbols
  · rw [TruthTable.answer_of_listed enumerated small known found] at keeps answers
    dsimp only at keeps answers
    refine ⟨_, keeps, rfl, rfl, fun _ => ⟨kb.card_models.symm, (kb.card_modelsWith known).symm⟩, ?_,
      answers, counted, exists_report_of_work keeps (reported _ _)⟩
    rintro ⟨name, isProposition, missing⟩
    exact absurd (known name isProposition) missing
  · have unknown : ∃ name ∈ query.propositions, name ∉ propositions kb.symbols := by
      simpa using known
    rw [TruthTable.answer_of_unlisted enumerated unknown found] at keeps answers
    dsimp only at keeps answers
    refine ⟨_, keeps, rfl, rfl, fun known' => absurd known' known, fun _ => ⟨rfl, rfl, answers⟩, ?_,
      counted, exists_report_of_work keeps (reported _ _)⟩
    rw [answers]
    cases engine.options.strict <;> rfl

/-- A knowledge base that mentions a constant, with three models, two of which agree with the
query. -/
theorem truthTable_counts_models_of_disjunction :
    let kb : KnowledgeBase := ⟨[.pair (.symbol false "a") .disj (.symbol false "b"),
      .single (.group true (.pair (.symbol false "a") .conj (.symbol false "false")))]⟩
    let engine : Engine := .ofWork .standard (.truthTable .initial)
    engine.work = .truthTable .initial ∧ engine.options.maxSymbols = .ok 62 ∧
      ((propositions kb.symbols).length : Int) ≤ min 62 maxTableSymbols ∧
      Formula.ofText "a" = .ok (.single (.symbol false "a")) ∧
      kb.models.card = 3 ∧ (kb.modelsWith (.single (.symbol false "a"))).card = 2 ∧
      (engine.prove kb "a" 0).2 = .ok "YES: 2" ∧
      TruthTable.countModels engine.options kb = .ok 3 ∧
      ∃ text, (engine.prove kb "a" 0).1.report kb = .ok text := by
  intro kb engine
  have method : engine.work = .truthTable .initial := rfl
  have limited : engine.options.maxSymbols = .ok 62 := rfl
  have few : ((propositions kb.symbols).length : Int) ≤ min 62 maxTableSymbols := by
    decide +kernel
  have parsed : Formula.ofText "a" = .ok (.single (.symbol false "a")) := by decide +kernel
  have known : ∀ name ∈ (Formula.single (.symbol false "a")).propositions,
      name ∈ propositions kb.symbols := by
    decide +kernel
  have models : kb.models.card = 3 := kb.card_models.trans (by decide +kernel)
  have agreeing : (kb.modelsWith (.single (.symbol false "a"))).card = 2 :=
    (kb.card_modelsWith known).trans (by decide +kernel)
  obtain ⟨kept, _, _, _, counts, _, answer, counted, reported⟩ :=
    truthTable_counts_models method limited few parsed 0
  obtain ⟨kbCount, count⟩ := counts known
  rw [kbCount, count, models, agreeing] at answer
  rw [models] at counted
  exact ⟨method, limited, few, parsed, models, agreeing, answer, counted, reported⟩

end Engine

end Entail
