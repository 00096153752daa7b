import Entail.Error

/-!
# Verdicts and options

What an engine answers, and what it can be told beforehand.
-/

namespace Entail

/-- The verdict on a query; only a positive one is justified. -/
def verdict (success : Bool) (justification : Option String) : String :=
  if success then
    match justification with
    | some reason => "YES: " ++ reason
    | none => "YES"
  else "NO"

/-- What an engine is told when it is set up. -/
structure Options where
  /-- Whether a truth table asks for every model of the knowledge base. -/
  strict : Bool
  /-- The largest number of symbols that a truth table is made for. -/
  maxSymbols : Except Error Int
  verbose : Bool
  colored : Bool

/-- The options of an engine that was told nothing. -/
def Options.standard : Options :=
  { strict := false, maxSymbols := .ok 62, verbose := false, colored := false }

end Entail
