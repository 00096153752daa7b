import Entail.KnowledgeBase

/-!
# Horn indexes

The index of a Horn knowledge base lists the symbols that are known to be true,
and for each implied symbol the lists of symbols that imply it.  A constraint
is an implication of the constant `false`.  Facts and rules are kept in the
order in which they became known.
-/

namespace Entail

/-- An implied symbol and the lists of requirements of which any one implies it. -/
structure HornRule where
  conclusion : String
  alternatives : List (List String)
  deriving DecidableEq, Repr

/-- The facts and the rules of a Horn knowledge base. -/
structure HornIndex where
  facts : List String
  rules : List HornRule
  deriving DecidableEq, Repr

/-- The list with an element added at its end, unless it holds the element already. -/
def insertNew (known : List String) (name : String) : List String :=
  if known.contains name then known else known ++ [name]

/-- Every list of `lefts` extended by what is new in each list of `rights`. -/
def jointly (lefts rights : List (List String)) : List (List String) :=
  lefts.flatMap fun l => rights.map fun r => l ++ r.filter (!l.contains ·)

mutual

/-- The lists of symbols of which any one makes a positive operand true. -/
def Operand.alternatives : Operand → List (List String)
  | .symbol _ name => [[name]]
  | .group _ content => content.alternativesWith id

/-- The lists of symbols of which any one makes a positive row true; the lists for the first
operand pass through `combine`. -/
def Formula.alternativesWith (combine : List (List String) → List (List String)) :
    Formula → List (List String)
  | .single x => combine x.alternatives
  | .chain x c rest =>
    let lefts := combine x.alternatives
    rest.alternativesWith fun rights =>
      match c with
      | .conj => jointly lefts rights
      | _ => lefts ++ rights

end

mutual

/-- The formulas whose conjunction is an operand, plain conjunctions taken apart. -/
def Operand.conjuncts : Operand → List Formula
  | .symbol negated name => [.single (.symbol negated name)]
  | .group negated content =>
    if negated then [.single (.group negated content)]
    else if content.links.all (· == .conj) then content.rowConjuncts
    else [content]

/-- The formulas whose conjunction is the conjunction of the operands of a row. -/
def Formula.rowConjuncts : Formula → List Formula
  | .single x => x.conjuncts
  | .chain x _ rest => x.conjuncts ++ rest.rowConjuncts

end

/-- The formulas whose conjunction is a formula, plain conjunctions taken apart. -/
def Formula.conjuncts (f : Formula) : List Formula :=
  if f.links.all (· == .conj) then f.rowConjuncts else [f]

namespace HornIndex

def empty : HornIndex := ⟨[], []⟩

/-- Makes a symbol a fact. -/
def addFact (index : HornIndex) (name : String) : HornIndex :=
  { index with facts := insertNew index.facts name }

/-- Adds a list of requirements to the rule of a symbol; a new rule goes to the end. -/
def addAlternative (conclusion : String) (requirements : List String) :
    List HornRule → List HornRule
  | [] => [⟨conclusion, [requirements]⟩]
  | rule :: rest =>
    if rule.conclusion = conclusion then
      ⟨conclusion, rule.alternatives ++ [requirements]⟩ :: rest
    else rule :: addAlternative conclusion requirements rest

/-- Adds an implication of a symbol by the conjunction of its requirements. -/
def addImplication (index : HornIndex) (conclusion : String) (requirements : List String) :
    HornIndex :=
  { index with rules := addAlternative conclusion requirements index.rules }

def isFact (index : HornIndex) (name : String) : Bool :=
  index.facts.contains name

/-- The alternatives of a symbol, if it has a rule. -/
def alternatives? (index : HornIndex) (name : String) : Option (List (List String)) :=
  (index.rules.find? fun rule => rule.conclusion == name).map HornRule.alternatives

/-- The index without the rule of a symbol. -/
def eraseRule (index : HornIndex) (name : String) : HornIndex :=
  { index with rules := index.rules.filter fun rule => rule.conclusion != name }

/-- Adds a formula in Horn form. -/
def insert (index : HornIndex) : Formula → HornIndex
  | .single (.symbol false name) => index.addFact name
  | .single (.symbol true name) => index.addImplication falseName [name]
  | .chain antecedent _ (.single (.symbol _ name)) =>
    antecedent.alternatives.foldl (fun index requirements => index.addImplication name requirements)
      index
  | _ => index

/-- Adds formulas up to the first one that has no Horn form, and tells what is wrong with that. -/
def insertAll (index : HornIndex) : List Formula → HornIndex × Option Error
  | [] => (index, none)
  | f :: rest =>
    match f.horn with
    | .ok clause => (index.insert clause).insertAll rest
    | .error error => (index, some error)

/-- Adds the clauses of a knowledge base, conjunctions taken apart. -/
def build (index : HornIndex) (kb : KnowledgeBase) : HornIndex × Option Error :=
  index.insertAll (kb.clauses.flatMap Formula.conjuncts)

/-- The index of a knowledge base. -/
def ofKnowledgeBase (kb : KnowledgeBase) : Except Error HornIndex :=
  match empty.build kb with
  | (index, none) => .ok index
  | (_, some error) => .error error

/-- The facts and the implications, one on a line. -/
def listing (index : HornIndex) : String :=
  String.join (index.facts.map (· ++ "\n")) ++
    String.join (index.rules.flatMap fun rule => rule.alternatives.map fun requirements =>
      "&".intercalate requirements ++ " => " ++ rule.conclusion ++ "\n")

end HornIndex

end Entail
