import Mathlib.Logic.Relation
import Mathlib.Order.Bounds.Basic
import Entail.Proofs.Horn.Rules

/-!
# What a Horn index derives

The derivable symbols of an index form the least set that holds the facts and
the conclusion of every rule one of whose alternatives it holds.
-/

namespace Entail.HornIndex

/-- The symbols that follow from the facts by the rules. -/
inductive Derivable (index : HornIndex) : String → Prop
  | fact {name : String} : name ∈ index.facts → Derivable index name
  | rule {name : String} {requirements : List String} :
      index.HasAlternative name requirements →
      (∀ requirement ∈ requirements, Derivable index requirement) → Derivable index name

/-- A symbol that is no fact requires those that occur in its alternatives. -/
def Requires (index : HornIndex) (name requirement : String) : Prop :=
  name ∉ index.facts ∧
    ∃ requirements, index.HasAlternative name requirements ∧ requirement ∈ requirements

/-- A symbol depends on itself and on what the symbols that it depends on require. -/
def DependsOn (index : HornIndex) : String → String → Prop :=
  Relation.ReflTransGen index.Requires

/-- The set holds the facts, and the conclusion of every rule one of whose alternatives it holds. -/
structure IsSaturated (index : HornIndex) (known : Set String) : Prop where
  facts : ∀ name ∈ index.facts, name ∈ known
  rules : ∀ name requirements, index.HasAlternative name requirements →
    (∀ requirement ∈ requirements, requirement ∈ known) → name ∈ known

/-- Nothing outside a set that holds the facts and is closed under the rules is derivable. -/
theorem Derivable.mem_of_closed {index : HornIndex} {known : String → Prop}
    (facts : ∀ name ∈ index.facts, known name)
    (closed : ∀ name requirements, index.HasAlternative name requirements →
      (∀ requirement ∈ requirements, known requirement) → known name)
    {name : String} (derivable : index.Derivable name) : known name := by
  induction derivable with
  | fact isFact => exact facts _ isFact
  | rule concluded _ ih => exact closed _ _ concluded ih

theorem isLeast_derivable (index : HornIndex) :
    IsLeast {known | index.IsSaturated known} {name | index.Derivable name} := by
  constructor
  · exact ⟨fun _ => .fact, fun _ _ => .rule⟩
  · exact fun known saturated _ derivable =>
      derivable.mem_of_closed saturated.facts saturated.rules

end Entail.HornIndex
