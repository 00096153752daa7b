import Entail.Horn.Index
import Entail.Ring.Base

/-!
# Horn indexes of knowledge bases in a store

A copy of each clause is taken apart into the rings whose conjunction it is.
These are brought into Horn form one after the other, and what they say then
goes into the index.
-/

namespace Entail.Ring

namespace Builder

/-- The rings whose conjunction is a ring, plain conjunctions taken apart, up to the given number
of levels. -/
def conjunctsTo : Nat → Nat → Builder (List Nat)
  | 0, _ => throw .endlessGroup
  | levels + 1, head => do
    let inner ← unwrapTo ((← get).size + 1) head
    let links ← read (·.connectives inner)
    if links.isEmpty || links.any (· != .conj) then return [inner]
    else
      let conjuncts ← (← read (·.operands inner)).mapM fun h => do
        isolate h
        conjunctsTo levels h
      return conjuncts.flatten

/-- Brings a ring into Horn form, and adds the formula that it is then to an index. -/
def addHorn (index : HornIndex) (head : Nat) : Builder HornIndex := do
  let normal ← horn head
  return index.insert (← read (·.formula normal))

/-- Adds a clause to an index; the clause itself is only copied. -/
def addClauseTo (index : HornIndex) (head : Nat) : Builder HornIndex := do
  let copied ← copy head
  let conjuncts ← conjunctsTo ((← get).size + 1) copied
  conjuncts.foldlM addHorn index

end Builder

/-- Makes the index of a knowledge base. -/
def Base.index (kb : Base) : Builder HornIndex :=
  kb.clauses.foldlM Builder.addClauseTo .empty

end Entail.Ring
