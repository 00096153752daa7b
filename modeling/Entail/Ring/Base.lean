import Entail.KnowledgeBase
import Entail.Ring.Horn
import Entail.Ring.Parser
import Entail.Ring.Reading

/-!
# Knowledge bases in a store

A knowledge base lists the rings of the formulas that it was told, all of them
in one store with whatever else is there.  What is made of a clause is made of
a copy of its ring.
-/

namespace Entail.Ring

namespace Builder

/-- Makes the ring of a formula of which the blanks do not matter. -/
def parseText (text : String) : Builder Nat :=
  parse (Text.squeeze text)

/-- Brings a ring into the normal form of the given name. -/
def normalizeBy (mode : String) (head : Nat) : Builder Nat :=
  match NormalForm.ofMode mode with
  | .ok form => normalize form head
  | .error error => throw error

end Builder

open Builder

/-- The heads of the rings of the formulas told, in order. -/
structure Base where
  clauses : List Nat
  deriving DecidableEq, Repr

namespace Base

/-- The knowledge base that nothing was told. -/
def empty : Base := ⟨[]⟩

/-- The knowledge base of the formulas that the rings hold. -/
def knowledge (kb : Base) (s : Store) : Except Error KnowledgeBase :=
  (kb.clauses.mapM s.formula).map KnowledgeBase.mk

/-- The knowledge base that was told one more ring. -/
def tell (kb : Base) (head : Nat) : Base :=
  ⟨kb.clauses ++ [head]⟩

/-- The knowledge base that is told the clauses of a text. -/
def ofText (tell : String) : Builder Base := do
  return ⟨← (clauseTexts tell).mapM parseText⟩

/-- Copies every clause. -/
def copy (kb : Base) : Builder Base := do
  return ⟨← kb.clauses.mapM Builder.copy⟩

/-- A copy of a knowledge base with every clause in the normal form of the given name. -/
def rephrase (kb : Base) (mode : String) : Builder Base := do
  let copied ← kb.copy
  return ⟨← copied.clauses.mapM (normalizeBy mode)⟩

end Base

end Entail.Ring
