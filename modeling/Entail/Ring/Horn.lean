import Entail.NormalForm.Choice
import Entail.Ring.Conjunctive

/-!
# Horn form of rings

Literals and definite implications keep their form; any other ring must come
down to a disjunction with at most one positive literal, whose nodes become the
implication from the negative literals.
-/

namespace Entail.Ring

namespace Store

/-- Whether a node consists of positive symbols joined by conjunctions and disjunctions, up to the
given number of levels. -/
def isPositiveTo (s : Store) : Nat → Nat → Except Error Bool
  | 0, _ => .error .endlessGroup
  | levels + 1, h => do
    match ← s.node h with
    | ⟨_, true, _, _⟩ => return false
    | ⟨.symbol _, false, _, _⟩ => return true
    | ⟨.group head, false, _, _⟩ =>
      (← s.walk head).allM fun n => do
        if ← s.isLink n then return (← s.connective n).isJunction else s.isPositiveTo levels n
    | ⟨.link _, false, _, _⟩ => throw .otherPayload

/-- The implication nodes of a ring. -/
def implications (s : Store) (head : Nat) : Except Error (List Nat) := do
  (← s.walk head).filterM fun h => do
    if ← s.isLink h then return (← s.connective h) == .impl else return false

/-- Whether a ring is an implication, with the given connective node, of a positive symbol from
positive symbols. -/
def isDefinite (s : Store) (head impl : Nat) : Except Error Bool := do
  if (← s.walk head).length ≠ 3 then return false
  let consequent ← required (← s.next impl)
  if (← s.isSymbol consequent) && !(← s.negated consequent) then
    s.isPositiveTo (s.size + 1) (← required (← s.prev impl))
  else return false

/-- The operand nodes of a ring that are not negated. -/
def positives (s : Store) (head : Nat) : Except Error (List Nat) := do
  (← s.operands head).filterM fun h => (s.negated h).map (!·)

end Store

namespace Builder

/-- Takes an operand node and one of the connective nodes beside it out of a ring, and returns the
head of the rest. -/
def takeOperand (head h : Nat) : Builder Nat := do
  if h = head then
    let link ← read fun s => do Store.required (← s.next h)
    let rest ← read fun s => do Store.required (← s.next link)
    isolate link
    isolate h
    return rest
  else
    let link ← read fun s => do Store.required (← s.prev h)
    isolate link
    isolate h
    return head

/-- The implication of a node from the complements of the literals of a ring. -/
def implicationFrom (head consequent : Nat) : Builder Nat := do
  if ← read (·.isSingle head) then
    toggle head
    pair head .impl consequent
  else
    let antecedent ← addGroup head true
    edit (·.deMorgan antecedent)
    pair antecedent .impl consequent

/-- The Horn form of a ring of literals; an error quotes the text `source`. -/
def hornOfRow (source : String) (head : Nat) : Builder Nat := do
  if (← read (·.connectives head)).any (· != .disj) then throw (.notDisjunctive source)
  match ← read (·.positives head) with
  | [] => implicationFrom head (← addConstant false)
  | [positive] =>
    if ← read (·.isSingle head) then return head
    else implicationFrom (← takeOperand head positive) positive
  | positives => throw (.severalPositives source (← read fun s => positives.mapM s.name))

/-- The Horn form of a ring inside of its outer parentheses. -/
def hornOfContent (head : Nat) : Builder Nat := do
  let source ← read (·.text head)
  let implications ← read (·.implications head)
  if 1 < implications.length then throw (.severalImplications source)
  if ← read fun s => implications.anyM (s.isDefinite head) then return head
  else hornOfRow source (← flatten (← eliminate head))

/-- Brings a ring into Horn form, and returns its head. -/
def horn (head : Nat) : Builder Nat := do
  let inner ← unwrapTo ((← get).size + 1) head
  if (← read (·.isSingle inner)) && (← read (·.isSymbol inner)) then return inner
  else hornOfContent inner

/-- Brings a ring into a normal form, and returns its head. -/
def normalize (form : NormalForm) (head : Nat) : Builder Nat :=
  match form with
  | .conjunctive => conjunctive head
  | .horn => horn head

end Builder

end Entail.Ring
