import Entail.NormalForm.Horn

/-!
# Choosing a normal form

The two normal forms that a knowledge base can be brought into, by name.
-/

namespace Entail

/-- A normal form. -/
inductive NormalForm
  | conjunctive
  | horn
  deriving DecidableEq, Repr

namespace NormalForm

/-- The name by which a normal form is chosen. -/
def mode : NormalForm → String
  | conjunctive => "cnf"
  | horn => "horn"

/-- The normal form of the given name. -/
def ofMode (mode : String) : Except Error NormalForm :=
  if mode = conjunctive.mode then .ok conjunctive
  else if mode = horn.mode then .ok horn
  else .error (.unknownMode mode)

end NormalForm

/-- Brings a formula into a normal form. -/
def Formula.normalize (form : NormalForm) (f : Formula) : Except Error Formula :=
  match form with
  | .conjunctive => f.conjunctive
  | .horn => f.horn

end Entail
