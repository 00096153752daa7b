import Entail.Formula.Parser
import Entail.Ring.Builder

/-!
# Parsing into a store

A text is read into the rings of a store: each text without parentheses
becomes a ring, and back-references hold the heads of the rings that were made
before.
-/

namespace Entail.Ring.Builder

/-- Makes the ring of a text without parentheses, its connectives grouped by strength. -/
def assemble (references : List Nat) (text : List Char) : Builder Nat := do
  let row ← read fun _ => Row.ofText references text
  let head ← addRow row
  applyPrecedence ((← get).size + 1) head

/-- Makes the ring of a formula, and returns its head. -/
def parse (text : String) : Builder Nat :=
  Formula.readText assemble text.toList

end Entail.Ring.Builder
