import Entail.Proofs.Ring.Dual
import Entail.Proofs.Ring.Elimination
import Entail.Ring.Negation

/-!
# Pushing negations inward in rings

Negations are pushed from the outside to the inside: De Morgan's law opens a
negated group first, and the negations of the ring that it then owns are pushed
further.
-/

namespace Entail

/-- Negations are pushed into a toggled operand as they are into the operand under a negation. -/
theorem Operand.pushNegation_toggle (x : Operand) :
    x.toggle.pushNegation false = x.pushNegation true := by
  cases x with
  | symbol negated name => simp [toggle, pushNegation]
  | group negated content => simp [toggle, pushNegation]

theorem Operand.requireDual_of_pushNegation {negated : Bool} {content : Formula} {y : Operand}
    (pushed : (group negated content).pushNegation false = .ok y) :
    negated = true → content.requireDual = .ok () := by
  rintro rfl
  rcases bind_eq_ok_iff.1 pushed with ⟨_, required, _⟩
  exact required

theorem Connective.dualIf_false (c : Connective) : c.dualIf false = c :=
  rfl

theorem Formula.pushNegation_dualize (f : Formula) :
    f.dualize.pushNegation false = f.pushNegation true := by
  cases f with
  | single x => simp [dualize, pushNegation, Operand.pushNegation_toggle]
  | chain x c rest =>
      simp [dualize, pushNegation, Operand.pushNegation_toggle, pushNegation_dualize rest,
        Connective.dualIf_false]

/-- What relates operands to those with negations pushed inward relates the parts of the rows. -/
theorem Formula.forall₂_parts_of_pushNegation {R : Part → Part → Prop} {f g : Formula}
    (pushed : f.pushNegation false = .ok g) (link : ∀ c, R (.link c) (.link c))
    (operand : ∀ x ∈ f.operands, ∀ y, x.pushNegation false = .ok y → R (.operand x) (.operand y)) :
    List.Forall₂ R f.parts g.parts := by
  cases f with
  | single x =>
      rcases exists_of_pushNegation_single pushed with ⟨y, pushedOperand, rfl⟩
      exact .cons (operand x List.mem_cons_self y pushedOperand) .nil
  | chain x c rest =>
      rcases exists_of_pushNegation_chain pushed with ⟨y, tail, pushedFirst, pushedRest, rfl⟩
      rcases List.forall_mem_cons.1 operand with ⟨first, operand⟩
      exact .cons (first y pushedFirst) (.cons (link c)
        (forall₂_parts_of_pushNegation pushedRest link operand))

/-- The row, dualized if `flip` holds. -/
def Formula.dualizeIf (flip : Bool) (f : Formula) : Formula :=
  if flip then f.dualize else f

theorem Formula.depth_dualizeIf (flip : Bool) (f : Formula) : (f.dualizeIf flip).depth = f.depth := by
  cases flip
  · rfl
  · exact f.depth_dualize

theorem Formula.pushNegation_dualizeIf (flip : Bool) (f : Formula) :
    (f.dualizeIf flip).pushNegation false = f.pushNegation flip := by
  cases flip
  · rfl
  · exact f.pushNegation_dualize

namespace Ring

namespace Builder

open Store

variable {s : Store} {A : Set Nat}

/-- De Morgan's law opens the negation of a group. -/
theorem turns_openNegation {negated : Bool} {f : Formula}
    (required : negated = true → f.requireDual = .ok ()) :
    Turns openNegation (.operand (.group negated f))
      (.operand (.group false (f.dualizeIf negated))) := by
  intro s h A part
  refine .read part.shows.negated ?_
  cases negated with
  | false => exact .pure Set.Subset.rfl ⟨part, .of_node rfl⟩
  | true =>
      rcases part.exists_deMorgan (required rfl) with ⟨s', opened, part', evolves, links⟩
      exact .edit opened evolves ⟨part', links h⟩

theorem turns_of_isGroup {step : Nat → Builder Unit} {p q : Part} (isGroup : p.isGroup = true)
    (turns : Turns step p q) : Turns (fun h => do if ← read (·.isGroup h) then step h) p q :=
  fun s h A part => .read (part.shows.isGroup.trans (congrArg _ isGroup)) (turns s h A part)

theorem turns_of_not_isGroup {step : Nat → Builder Unit} {p : Part} (notGroup : p.isGroup = false) :
    Turns (fun h => do if ← read (·.isGroup h) then step h) p p :=
  fun _ _ _ part => .read (part.shows.isGroup.trans (congrArg _ notGroup))
    (.pure Set.Subset.rfl ⟨part, .of_node rfl⟩)

/-- The negations of a ring with rings in it are pushed inward. -/
theorem yields_negationNormalTo {levels head : Nat} {f g : Formula} (ring : s.HasRing head f A)
    (enough : f.depth ≤ levels) (pushed : f.negationNormal = .ok g) :
    (negationNormalTo levels head).Yields s A fun h s' B => s'.HasRing h g B := by
  induction levels generalizing s head f g A with
  | zero => exact absurd (Nat.le_trans f.one_le_depth enough) (Nat.not_succ_le_zero 0)
  | succ levels ih =>
      have shallow := Formula.depth_le_succ_iff.1 enough
      refine .walk_turns ring (Formula.forall₂_parts_of_pushNegation pushed ?_ ?_)
        fun s₁ B _ ring => .pure Set.subset_union_right ring
      · exact fun c => turns_of_not_isGroup rfl
      · intro x isOperand y pushed
        cases x with
        | symbol negated name =>
            rw [Operand.pushNegation, Bool.bne_false] at pushed
            cases pushed
            exact turns_of_not_isGroup rfl
        | group negated content =>
            rcases Operand.exists_of_pushNegation_group pushed with ⟨inner, pushedInner, rfl⟩
            rw [Bool.bne_false, ← Formula.pushNegation_dualizeIf] at pushedInner
            have required := Operand.requireDual_of_pushNegation pushed
            have enough : (content.dualizeIf negated).depth ≤ levels := by
              rw [Formula.depth_dualizeIf]
              exact shallow _ (Formula.operand_mem_parts.2 isOperand)
            refine turns_of_isGroup rfl ((turns_openNegation required).comp ?_)
            exact turns_regroup_group (fun s head A ring => ih ring enough pushedInner) false

theorem yields_negationNormal {head : Nat} {f g : Formula} (ring : s.HasRing head f A)
    (pushed : f.negationNormal = .ok g) :
    (negationNormal head).Yields s A fun h s' B => s'.HasRing h g B :=
  .get (yields_negationNormalTo ring (Nat.le_succ_of_le ring.depth_le_size) pushed)

end Builder

end Ring

end Entail
