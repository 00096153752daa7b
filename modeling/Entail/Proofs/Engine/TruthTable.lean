import Mathlib.Data.List.Perm.Subperm
import Entail.Proofs.Engine.Verdict
import Entail.Proofs.Entailment
import Entail.Proofs.Truth.Chunks
import Entail.Proofs.Truth.Columns

/-!
# Truth tables count models

A truth table engine counts the rows in which formulas are true together.  The
chunks that it works on make up the whole table, and every assignment agrees
with a row of the whole table.  So some row makes the formulas true exactly if
they can be true together, and all rows that do so make the query true exactly
if the query is entailed.
-/

namespace Entail

/-- Whether all the given formulas are true. -/
def Formula.allTrue (formulas : List Formula) (v : Valuation) : Bool :=
  formulas.all (·.eval v)

namespace Table

/-- All propositions of the given formulas are symbols of a table. -/
def Lists (symbols : List String) (formulas : List Formula) : Prop :=
  ∀ f ∈ formulas, ∀ name ∈ f.propositions, name ∈ symbols

/-- The number of rows of the whole table in which the given formulas are true together. -/
def countTrue (symbols : List String) (formulas : List Formula) : Nat :=
  (List.range (2 ^ symbols.length)).countP fun k =>
    Formula.allTrue formulas ((full symbols).valuation k)

theorem countP_part (symbols : List String) (start size : Nat) (p : Valuation → Bool) :
    ((List.range size).countP fun k => p ((⟨symbols, start, size⟩ : Table).valuation k)) =
      (List.range' start size).countP fun k => p ((full symbols).valuation k) := by
  rw [List.range'_eq_map_range, List.countP_map]
  simp only [valuation_part]
  rfl

/-- There is a row in which the formulas are true exactly if they can be true. -/
theorem countTrue_pos_iff {symbols : List String} (distinct : symbols.Nodup)
    {formulas : List Formula} (listed : Lists symbols formulas) :
    0 < countTrue symbols formulas ↔ ∃ v : Valuation, ∀ f ∈ formulas, f.eval v = true := by
  rw [countTrue, List.countP_pos_iff]
  simp only [Formula.allTrue, List.all_eq_true]
  constructor
  · rintro ⟨k, _, allTrue⟩
    exact ⟨_, allTrue⟩
  · rintro ⟨v, allTrue⟩
    rcases exists_valuation_eq distinct v with ⟨k, inRange, agree⟩
    refine ⟨k, List.mem_range.2 inRange, fun f isFormula => ?_⟩
    rw [Formula.eval_congr fun name isName => agree name (listed f isFormula name isName)]
    exact allTrue f isFormula

/-- The count stays the same with one more formula exactly if that follows from the others. -/
theorem countTrue_append_eq_iff {symbols : List String} (distinct : symbols.Nodup)
    {formulas : List Formula} {query : Formula} (listed : Lists symbols formulas)
    (listed' : ∀ name ∈ query.propositions, name ∈ symbols) :
    countTrue symbols (formulas ++ [query]) = countTrue symbols formulas ↔
      ∀ v : Valuation, (∀ f ∈ formulas, f.eval v = true) → query.eval v = true := by
  let isTrue (k : Nat) : Bool := Formula.allTrue formulas ((full symbols).valuation k)
  have filtered : countTrue symbols (formulas ++ [query]) =
      ((List.range (2 ^ symbols.length)).filter isTrue).countP fun k =>
        query.eval ((full symbols).valuation k) := by
    rw [List.countP_filter]
    apply List.countP_congr
    intro k _
    simp [isTrue, Formula.allTrue, and_comm]
  have counted : countTrue symbols formulas =
      ((List.range (2 ^ symbols.length)).filter isTrue).length := List.countP_eq_length_filter
  rw [filtered, counted, List.countP_eq_length]
  simp only [List.mem_filter, isTrue, Formula.allTrue, List.all_eq_true]
  constructor
  · intro allRows v allTrue
    rcases exists_valuation_eq distinct v with ⟨k, inRange, agree⟩
    rw [← Formula.eval_congr fun name isName => agree name (listed' name isName)]
    apply allRows k
    refine ⟨List.mem_range.2 inRange, fun f isFormula => ?_⟩
    rw [Formula.eval_congr fun name isName => agree name (listed f isFormula name isName)]
    exact allTrue f isFormula
  · rintro follows k ⟨_, allTrue⟩
    exact follows _ allTrue

end Table

namespace TruthTable

open Table

/-! ### Evaluating a part of a table -/

theorem foldlM_satisfied {table : Table} (distinct : table.symbols.Nodup)
    {formulas : List Formula} (listed : Lists table.symbols formulas) (value : Nat → Bool) :
    formulas.foldlM (fun values f => return List.zipWith (· && ·) values (← table.evaluate f))
        ((List.range table.size).map value) =
      (.ok ((List.range table.size).map fun k =>
        value k && Formula.allTrue formulas (table.valuation k)) : Except Error (List Bool)) := by
  induction formulas generalizing value with
  | nil => simp [Formula.allTrue, pure, Except.pure]
  | cons f formulas ih =>
      rcases List.forall_mem_cons.1 listed with ⟨firstListed, restListed⟩
      have column := evaluate_eq_ok distinct firstListed
      have zipped : List.zipWith (· && ·) ((List.range table.size).map value)
          ((List.range table.size).map fun k => f.eval (table.valuation k)) =
          (List.range table.size).map fun k => value k && f.eval (table.valuation k) := by
        simp [List.zipWith_map, List.zipWith_self]
      simp only [List.foldlM_cons, column, bind, Except.bind, pure, Except.pure, zipped]
      refine (ih restListed _).trans ?_
      simp [Formula.allTrue, Bool.and_assoc]

/-- The values of a conjunction in all rows of a part of a table. -/
theorem satisfied_eq_ok {table : Table} (distinct : table.symbols.Nodup)
    {formulas : List Formula} (listed : Lists table.symbols formulas) :
    satisfied table formulas = .ok ((List.range table.size).map fun k =>
      Formula.allTrue formulas (table.valuation k)) := by
  have start : List.replicate table.size true = (List.range table.size).map fun _ => true := by
    simp [List.map_const']
  rw [satisfied, start]
  refine (foldlM_satisfied distinct listed _).trans ?_
  simp

theorem count_map_range (size : Nat) (p : Nat → Bool) :
    ((List.range size).map p).count true = (List.range size).countP p := by
  rw [List.count, List.countP_map]
  apply List.countP_congr
  simp

theorem tallyIn_eq_ok {table : Table} (distinct : table.symbols.Nodup) {kb : KnowledgeBase}
    {ask : List Formula} (listed : Lists table.symbols (kb.clauses ++ ask)) :
    tallyIn table kb ask = .ok
      ((List.range table.size).countP fun k => Formula.allTrue kb.clauses (table.valuation k),
        (List.range table.size).countP fun k =>
          Formula.allTrue (kb.clauses ++ ask) (table.valuation k)) := by
  rcases List.forall_mem_append.1 listed with ⟨kbListed, askListed⟩
  have kbValues := satisfied_eq_ok distinct kbListed
  have askValues := satisfied_eq_ok distinct askListed
  simp only [tallyIn, kbValues, askValues, bind, Except.bind, pure, Except.pure,
    List.zipWith_map, List.zipWith_self, count_map_range, Formula.allTrue, List.all_append]

/-! ### Adding up the parts -/

section Chunks

variable {symbols : List String} {kb : KnowledgeBase} {ask : List Formula}

/-- The rows of a chunk in which the clauses are true, without and with the query. -/
theorem exists_between (distinct : symbols.Nodup) (few : symbols.length ≤ maxTableSymbols)
    (listed : Lists symbols (kb.clauses ++ ask)) (bounds : Nat × Nat) :
    ∃ table, between symbols bounds.1 bounds.2 = .ok table ∧ tallyIn table kb ask = .ok
      ((chunkRows bounds).countP fun k => Formula.allTrue kb.clauses ((full symbols).valuation k),
        (chunkRows bounds).countP fun k =>
          Formula.allTrue (kb.clauses ++ ask) ((full symbols).valuation k)) := by
  rcases bounds with ⟨start, stop⟩
  let table : Table := ⟨symbols, start, stop - start⟩
  refine ⟨table, ?_, ?_⟩
  · rw [between_eq_ok few, Int.toNat_sub]
  · have tableListed : Lists table.symbols (kb.clauses ++ ask) := listed
    rw [tallyIn_eq_ok distinct tableListed, chunkRows, ← countP_part,
      ← countP_part symbols start _ (Formula.allTrue (kb.clauses ++ ask))]

theorem foldlM_tally (distinct : symbols.Nodup) (few : symbols.length ≤ maxTableSymbols)
    (listed : Lists symbols (kb.clauses ++ ask)) (chunks : List (Nat × Nat)) (sum : Nat × Nat) :
    chunks.foldlM (fun (sum : Nat × Nat) (bounds : Nat × Nat) => do
        let part ← tallyIn (← between symbols bounds.1 bounds.2) kb ask
        return (sum.1 + part.1, sum.2 + part.2)) sum =
      (.ok (sum.1 + (chunks.flatMap chunkRows).countP fun k =>
          Formula.allTrue kb.clauses ((full symbols).valuation k),
        sum.2 + (chunks.flatMap chunkRows).countP fun k =>
          Formula.allTrue (kb.clauses ++ ask) ((full symbols).valuation k)) :
        Except Error (Nat × Nat)) := by
  induction chunks generalizing sum with
  | nil => rfl
  | cons bounds chunks ih =>
      rcases exists_between distinct few listed bounds with ⟨table, part, counted⟩
      simp only [List.foldlM_cons, part, counted, bind, Except.bind, pure, Except.pure]
      refine (ih _).trans ?_
      simp only [List.flatMap_cons, List.countP_append, Nat.add_assoc]

/-- The models are counted over the whole table. -/
theorem tally_eq_ok (distinct : symbols.Nodup) (few : symbols.length ≤ maxTableSymbols)
    (listed : Lists symbols (kb.clauses ++ ask)) :
    tally kb symbols ask =
      .ok (countTrue symbols kb.clauses, countTrue symbols (kb.clauses ++ ask)) := by
  have summed := foldlM_tally distinct few listed (chunkBounds symbols.length) (0, 0)
  rw [flatMap_chunkBounds, Nat.zero_add, Nat.zero_add] at summed
  exact summed

end Chunks

end TruthTable

/-! ### The table of a knowledge base -/

namespace KnowledgeBase

theorem nodup_propositions (kb : KnowledgeBase) : (propositions kb.symbols).Nodup :=
  (nodup_eraseDups _).filter _

/-- The table of a knowledge base lists the propositions of its clauses. -/
theorem lists_propositions (kb : KnowledgeBase) :
    Table.Lists (propositions kb.symbols) kb.clauses := by
  intro f isClause name isProposition
  rcases Formula.mem_propositions.1 isProposition with ⟨isName, isVariable⟩
  have occurs : name ∈ kb.symbols := by
    rw [symbols, List.mem_eraseDups, List.mem_flatMap]
    exact ⟨f, isClause, isName⟩
  simp [propositions, occurs, isVariable]

/-- A listed formula has no more propositions than the table has symbols. -/
theorem propositions_le_of_listed {names : List String} {f : Formula}
    (listed : ∀ name ∈ f.propositions, name ∈ names) : f.propositions.length ≤ names.length :=
  (List.subperm_of_subset f.nodup_propositions listed).length_le

end KnowledgeBase

namespace TruthTable

variable {kb : KnowledgeBase} {options : Options}

/-- The table is made if there are no more symbols than it is set up for, and than there can be. -/
theorem vocabulary_eq_ok_of_le {limit : Int} (limited : options.maxSymbols = .ok limit)
    (few : ((propositions kb.symbols).length : Int) ≤ min limit maxTableSymbols) :
    vocabulary options kb = .ok (propositions kb.symbols) := by
  simp only [vocabulary, limited, bind, Except.bind, if_neg (Int.not_lt.2 few)]
  rfl

theorem vocabulary_eq_ok (limit : options.maxSymbols = .ok maxTableSymbols)
    (few : (propositions kb.symbols).length ≤ maxTableSymbols) :
    vocabulary options kb = .ok (propositions kb.symbols) :=
  vocabulary_eq_ok_of_le limit (by omega)

theorem countModels_of_vocabulary
    (enumerated : vocabulary options kb = .ok (propositions kb.symbols))
    (few : (propositions kb.symbols).length ≤ maxTableSymbols) :
    countModels options kb = .ok (Table.countTrue (propositions kb.symbols) kb.clauses) := by
  have listed : Table.Lists (propositions kb.symbols) (kb.clauses ++ []) := by
    rw [List.append_nil]
    exact kb.lists_propositions
  rw [countModels, enumerated]
  apply (pure_bind _ _).trans
  rw [tally_eq_ok kb.nodup_propositions few listed]
  rfl

theorem countModels_eq_ok (limit : options.maxSymbols = .ok maxTableSymbols)
    (few : (propositions kb.symbols).length ≤ maxTableSymbols) :
    countModels options kb = .ok (Table.countTrue (propositions kb.symbols) kb.clauses) :=
  countModels_of_vocabulary (vocabulary_eq_ok limit few) few

/-- What is found and answered on a query over the symbols of the knowledge base. -/
theorem answer_of_listed (enumerated : vocabulary options kb = .ok (propositions kb.symbols))
    (few : (propositions kb.symbols).length ≤ maxTableSymbols) {query : Formula}
    (known : ∀ name ∈ query.propositions, name ∈ propositions kb.symbols) (found : TruthTable) :
    let all := Table.countTrue (propositions kb.symbols) kb.clauses
    let agreeing := Table.countTrue (propositions kb.symbols) (kb.clauses ++ [query])
    found.answer options kb query =
      (⟨some (propositions kb.symbols), agreeing, all, some query⟩, .ok (verdict
        (if options.strict then decide (0 < all) && agreeing == all else decide (0 < agreeing))
        (some (toString agreeing)))) := by
  have noneMissing : ¬(query.propositions.any fun name =>
      !(propositions kb.symbols).contains name) = true := by
    simpa using known
  have listed : Table.Lists (propositions kb.symbols) (kb.clauses ++ [query]) :=
    List.forall_mem_append.2 ⟨kb.lists_propositions, by simpa using known⟩
  rw [answer, enumerated]
  apply (if_neg noneMissing).trans
  rw [tally_eq_ok kb.nodup_propositions few listed]

/-- A query with another symbol is not counted. -/
theorem answer_of_unlisted (enumerated : vocabulary options kb = .ok (propositions kb.symbols))
    {query : Formula} (unknown : ∃ name ∈ query.propositions, name ∉ propositions kb.symbols)
    (found : TruthTable) :
    found.answer options kb query =
      (⟨some (propositions kb.symbols), 0, 0, some query⟩, .ok "NO") := by
  have someMissing : (query.propositions.any fun name =>
      !(propositions kb.symbols).contains name) = true := by
    simpa using unknown
  rw [answer, enumerated]
  exact if_pos someMissing

/-- A query over the symbols of the knowledge base is answered by the two counts. -/
theorem prove_eq_ok (limit : options.maxSymbols = .ok maxTableSymbols)
    (few : (propositions kb.symbols).length ≤ maxTableSymbols) {ask : String} {query : Formula}
    (parsed : Formula.ofText ask = .ok query)
    (known : ∀ name ∈ query.propositions, name ∈ propositions kb.symbols) (found : TruthTable) :
    ∃ all agreeing, all = Table.countTrue (propositions kb.symbols) kb.clauses ∧
      agreeing = Table.countTrue (propositions kb.symbols) (kb.clauses ++ [query]) ∧
      (prove options kb ask found).2 = .ok (verdict
        (if options.strict then decide (0 < all) && agreeing == all else decide (0 < agreeing))
        (some (toString agreeing))) := by
  refine ⟨_, _, rfl, rfl, ?_⟩
  simp only [prove, parsed, answer_of_listed (vocabulary_eq_ok limit few) few known]

end TruthTable

namespace Engine

variable {kb : KnowledgeBase} {ask : String} {query : Formula} {engine : Engine}
  {found : TruthTable}

/-- A truth table engine that is not strict decides whether the query can be true together with
the knowledge base. -/
theorem decides_of_truthTable (method : engine.work = .truthTable found)
    (lenient : engine.options.strict = false)
    (limit : engine.options.maxSymbols = .ok maxTableSymbols)
    (few : (propositions kb.symbols).length ≤ maxTableSymbols)
    (parsed : Formula.ofText ask = .ok query)
    (known : ∀ name ∈ query.propositions, name ∈ propositions kb.symbols) (now : Float) :
    engine.Decides kb ask now (∃ v, (kb.tell query).IsTrue v) := by
  rcases TruthTable.prove_eq_ok limit few parsed known found with ⟨all, agreeing, -, rfl, answer⟩
  have listed : Table.Lists (propositions kb.symbols) (kb.clauses ++ [query]) :=
    List.forall_mem_append.2 ⟨kb.lists_propositions, by simpa using known⟩
  rw [lenient, if_neg Bool.false_ne_true] at answer
  apply decides_of_prove
  · simp only [prove, method, Work.prove]
    exact answer
  · rw [decide_eq_true_iff, Table.countTrue_pos_iff kb.nodup_propositions listed]
    rfl

/-- A strict truth table engine decides whether the knowledge base can be true and entails the
query. -/
theorem decides_of_strict_truthTable (method : engine.work = .truthTable found)
    (strict : engine.options.strict = true)
    (limit : engine.options.maxSymbols = .ok maxTableSymbols)
    (few : (propositions kb.symbols).length ≤ maxTableSymbols)
    (parsed : Formula.ofText ask = .ok query)
    (known : ∀ name ∈ query.propositions, name ∈ propositions kb.symbols) (now : Float) :
    engine.Decides kb ask now ((∃ v, kb.IsTrue v) ∧ kb.Entails query) := by
  rcases TruthTable.prove_eq_ok limit few parsed known found with ⟨all, agreeing, rfl, rfl, answer⟩
  rw [strict, if_pos rfl] at answer
  apply decides_of_prove
  · simp only [prove, method, Work.prove]
    exact answer
  · rw [Bool.and_eq_true, decide_eq_true_iff, beq_iff_eq,
      Table.countTrue_pos_iff kb.nodup_propositions kb.lists_propositions,
      Table.countTrue_append_eq_iff kb.nodup_propositions kb.lists_propositions known]
    rfl

end Engine

end Entail
