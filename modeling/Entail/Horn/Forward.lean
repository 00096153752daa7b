import Entail.Horn.Index

/-!
# Forward chaining

The known facts are scanned in the order in which they became known.  Each
scanned fact is tried on the rules that are left: a rule that has an
alternative with this fact, all of whose requirements are known, is used up and
its conclusion becomes known.  The chain ends when the asked symbol is derived
or when all facts have been scanned.
-/

namespace Entail

/-- The outcome of chaining: whether the asked symbol was reached, and the symbols on the way. -/
structure Chain where
  success : Bool
  path : List String
  deriving DecidableEq, Repr

namespace HornRule

/-- Whether a rule follows from the known symbols by an alternative that needs the given one. -/
def fires (rule : HornRule) (fact : String) (known : List String) : Bool :=
  rule.alternatives.any fun requirements =>
    requirements.contains fact && requirements.all known.contains

end HornRule

/-- What the scan of one fact comes to. -/
structure Sweep where
  /-- Whether the asked symbol was derived; the sweep stops there. -/
  reached : Bool
  /-- The symbols that became known. -/
  derived : List String
  /-- The rules that are left. -/
  kept : List HornRule
  deriving DecidableEq, Repr

/-- Tries a scanned fact on the rules. -/
def sweep (goal fact : String) (known : List String) : List HornRule → Sweep
  | [] => ⟨false, [], []⟩
  | rule :: rest =>
    if rule.fires fact known then
      let gain := if known.contains rule.conclusion then [] else [rule.conclusion]
      if rule.conclusion = goal then ⟨true, gain, rest⟩
      else
        let tail := sweep goal fact (known ++ gain) rest
        { tail with derived := gain ++ tail.derived }
    else
      let tail := sweep goal fact known rest
      { tail with kept := rule :: tail.kept }

theorem length_sweep_le (goal fact : String) (known : List String) (rules : List HornRule) :
    (sweep goal fact known rules).derived.length + (sweep goal fact known rules).kept.length ≤
      rules.length := by
  induction rules generalizing known with
  | nil => simp [sweep]
  | cons rule rest ih =>
    have gain_le (known : List String) (name : String) :
        (if known.contains name then [] else [name]).length ≤ 1 := by
      split <;> simp
    have gained := gain_le known rule.conclusion
    rw [sweep]
    split
    · simp only
      split
      · simp only [List.length_cons]; omega
      · have := ih (known ++ if known.contains rule.conclusion then [] else [rule.conclusion])
        simp only [List.length_append, List.length_cons]; omega
    · have := ih known
      simp only [List.length_cons]; omega

/-- Scans the pending facts; `scanned` holds the facts before them. -/
def forwardFrom (goal : String) (scanned : List String) : List String → List HornRule → Chain
  | [], _ => ⟨false, scanned⟩
  | fact :: pending, rules =>
    let result := sweep goal fact (scanned ++ fact :: pending) rules
    if result.reached then ⟨true, scanned ++ [fact, goal]⟩
    else
      have := length_sweep_le goal fact (scanned ++ fact :: pending) rules
      forwardFrom goal (scanned ++ [fact]) (pending ++ result.derived) result.kept
termination_by pending rules => pending.length + rules.length
decreasing_by
  simp only [List.length_append, List.length_cons]
  omega

/-- Chains forward from the facts of an index to the asked symbol. -/
def HornIndex.chainForward (index : HornIndex) (goal : String) : Chain :=
  if index.isFact goal then ⟨true, [goal]⟩ else forwardFrom goal [] index.facts index.rules

end Entail
