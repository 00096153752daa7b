import Entail.Formula.Basic

/-!
# Written form of formulas

A negation sign precedes its operand, a group is written in parentheses, and
nothing separates operands from connectives.
-/

namespace Entail

/-- The sign of a negated operand. -/
def signOf (negated : Bool) : List Char :=
  if negated then ['~'] else []

mutual

/-- The written form of an operand. -/
def Operand.chars : Operand → List Char
  | .symbol negated name => signOf negated ++ name.toList
  | .group negated content => signOf negated ++ '(' :: content.chars ++ [')']

/-- The written form of a formula. -/
def Formula.chars : Formula → List Char
  | .single x => x.chars
  | .chain x c rest => x.chars ++ c.spelling.toList ++ rest.chars

end

def Operand.text (x : Operand) : String :=
  String.ofList x.chars

def Formula.text (f : Formula) : String :=
  String.ofList f.chars

instance : ToString Operand := ⟨Operand.text⟩
instance : ToString Formula := ⟨Formula.text⟩

end Entail
