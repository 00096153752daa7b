import Entail.Console.Grid
import Entail.Console.Style
import Entail.Engine.Verdict
import Entail.KnowledgeBase
import Entail.Truth.Model

/-!
# Answers by truth table

All models over the symbols of the knowledge base are enumerated, a chunk of
rows at a time.  By default the answer is positive if some model satisfies both
the knowledge base and the query; an engine set to be strict asks that there is
a model of the knowledge base and that all of them satisfy the query.
-/

namespace Entail

/-- What a truth table engine found at last. -/
structure TruthTable where
  symbols : Option (List String)
  /-- The number of models of the knowledge base and the query. -/
  count : Nat
  /-- The number of models of the knowledge base. -/
  kbCount : Nat
  ask : Option Formula

namespace TruthTable

def initial : TruthTable := ⟨none, 0, 0, none⟩

/-- The symbols that are enumerated for a knowledge base. -/
def vocabulary (options : Options) (kb : KnowledgeBase) : Except Error (List String) := do
  let symbols := propositions kb.symbols
  let limit := min (← options.maxSymbols) maxTableSymbols
  if limit < symbols.length then throw (.tooManySymbols symbols.length limit)
  return symbols

/-- The rows of a part of a table in which all the given formulas are true. -/
def satisfied (table : Table) (formulas : List Formula) : Except Error (List Bool) :=
  formulas.foldlM (fun values f => return List.zipWith (· && ·) values (← table.evaluate f))
    (List.replicate table.size true)

/-- The numbers of models of a knowledge base in a part of a table, without and with a query. -/
def tallyIn (table : Table) (kb : KnowledgeBase) (ask : List Formula) :
    Except Error (Nat × Nat) := do
  let values ← satisfied table kb.clauses
  let asked ← satisfied table ask
  return (values.count true, (List.zipWith (· && ·) values asked).count true)

/-- The numbers of models of a knowledge base, without and with a query. -/
def tally (kb : KnowledgeBase) (symbols : List String) (ask : List Formula) :
    Except Error (Nat × Nat) :=
  (Table.chunkBounds symbols.length).foldlM (fun sum bounds => do
    let part ← tallyIn (← Table.between symbols bounds.1 bounds.2) kb ask
    return (sum.1 + part.1, sum.2 + part.2)) (0, 0)

/-- The number of models that satisfy a knowledge base. -/
def countModels (options : Options) (kb : KnowledgeBase) : Except Error Nat := do
  return (← tally kb (← vocabulary options kb) []).1

/-- Answers a query that was read; what was found before an error is kept. -/
def answer (options : Options) (kb : KnowledgeBase) (query : Formula) (found : TruthTable) :
    TruthTable × Except Error String :=
  let found := { found with ask := some query }
  match vocabulary options kb with
  | .error error => (found, .error error)
  | .ok symbols =>
    let found := { found with symbols := some symbols }
    if query.propositions.any (!symbols.contains ·) then
      ({ found with count := 0, kbCount := 0 }, .ok (verdict false none))
    else
      match tally kb symbols [query] with
      | .error error => (found, .error error)
      | .ok (kbCount, count) =>
        let success :=
          if options.strict then decide (0 < kbCount) && count == kbCount
          else decide (0 < count)
        ({ found with count, kbCount }, .ok (verdict success (some (toString count))))

/-- Answers a query. -/
def prove (options : Options) (kb : KnowledgeBase) (ask : String) (found : TruthTable) :
    TruthTable × Except Error String :=
  match Formula.ofText ask with
  | .error error => (found, .error error)
  | .ok query => found.answer options kb query

/-- The largest number of models that are listed. -/
def maxListedRows : Nat := 256

/-- The row of a model: its number, its values, and those of the knowledge base and of the query,
which is `?` if it has symbols that the models do not have. -/
def row (kb : KnowledgeBase) (query : Formula) (known : Bool) (m : Model) :
    Except Error (List Console.Cell) := do
  let value ← kb.clauses.allM m.check
  let asked ← if known then (m.check query).map truthLetter else pure "?"
  return .whole m.id :: (m.values.map truthLetter ++ [truthLetter value, asked]).map .text

/-- The truth table over the given symbols, with the values of a knowledge base and of a query. -/
def listing (kb : KnowledgeBase) (symbols : List String) (query : Formula) :
    Except Error String := do
  let known := query.propositions.all symbols.contains
  let rows ← (← Model.all symbols).mapM (row kb query known)
  Console.Grid.write ⟨"#" :: symbols ++ ["KB", query.text], rows⟩

/-- The report on what was found, given the knowledge base as it is now. -/
def report (options : Options) (kb : KnowledgeBase) (found : TruthTable) : Except Error String :=
  match found.symbols, found.ask with
  | some symbols, some query =>
    let rows := Nat.pow 2 symbols.length
    if maxListedRows < rows then
      .ok ("(" ++ toString rows ++ " models, table omitted)\n")
    else do
      let table ← listing kb symbols query
      return Console.headline "TRUTH TABLE" options.colored ++ "\n" ++ table ++ "\n"
  | _, _ => .ok ""

end TruthTable

end Entail
