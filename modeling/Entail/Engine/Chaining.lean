import Entail.Engine.Verdict
import Entail.Horn.Backward

/-!
# Answers by chaining

The query has to be a single symbol, and the knowledge base has to have a Horn
index.  A positive answer is justified by the symbols on the way to the asked
one.
-/

namespace Entail

/-- The direction in which rules are followed. -/
inductive Strategy
  | forward
  | backward
  deriving DecidableEq, Repr

/-- Chains in the given direction. -/
def Strategy.chain : Strategy → HornIndex → String → Chain
  | forward => HornIndex.chainForward
  | backward => HornIndex.chainBackward

/-- What a chaining engine found at last. -/
structure Chaining where
  path : List String
  index : Option HornIndex
  deriving DecidableEq, Repr

namespace Chaining

def initial : Chaining := ⟨[], none⟩

/-- The symbol that a query asks for. -/
def goal (query : Formula) : Except Error String :=
  match query with
  | .single (.symbol false name) => .ok name
  | _ => .error (.notASymbol query.text)

/-- Answers whether an index derives a symbol; an engine of the given name that has no strategy
fails. -/
def answer (name : String) (strategy : Option Strategy) (index : HornIndex) (symbol : String) :
    Chaining × Except Error String :=
  match strategy with
  | none => (⟨[], some index⟩, .error (.noStrategy name))
  | some strategy =>
    let chain := strategy.chain index symbol
    (⟨chain.path, some index⟩, .ok (verdict chain.success (some (", ".intercalate chain.path))))

/-- Answers a query. -/
def prove (name : String) (strategy : Option Strategy) (kb : KnowledgeBase) (ask : String)
    (found : Chaining) : Chaining × Except Error String :=
  match (Formula.ofText ask).bind goal with
  | .error error => (found, .error error)
  | .ok symbol =>
    match HornIndex.ofKnowledgeBase kb with
    | .error error => (found, .error error)
    | .ok index => answer name strategy index symbol

/-- The report on what was found. -/
def report (found : Chaining) : String :=
  if found.index.isSome then "path: " ++ " -> ".intercalate found.path ++ "\n" else ""

end Chaining

end Entail
