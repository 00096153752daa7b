import Mathlib.Algebra.Ring.Parity
import Entail.Proofs.NormalForm.Negation

/-!
# What flattening keeps

Each symbol of a formula stands under a number of negations: its own one, and
those of the groups around it.  Each connective stands under those of the groups
around it.  Flattening keeps all symbols and connectives in their order, and of
the negations above each of them it keeps whether their number is odd.
-/

namespace Entail

mutual

/-- The symbols of an operand from left to right, each with the number of negations above it, of
which `outer` are outside of the operand. -/
def Operand.occurrences (outer : Nat) : Operand → List (String × Nat)
  | .symbol negated name => [(name, outer + negated.toNat)]
  | .group negated content => content.occurrences (outer + negated.toNat)

/-- The symbols of a row from left to right, each with the number of negations above it, of which
`outer` are outside of the row. -/
def Formula.occurrences (outer : Nat) : Formula → List (String × Nat)
  | .single x => x.occurrences outer
  | .chain x _ rest => x.occurrences outer ++ rest.occurrences outer

end

mutual

/-- The connectives of an operand from left to right, each with the number of negated groups around
it, of which `outer` are around the operand. -/
def Operand.linkOccurrences (outer : Nat) : Operand → List (Connective × Nat)
  | .symbol _ _ => []
  | .group negated content => content.linkOccurrences (outer + negated.toNat)

/-- The connectives of a row from left to right, groups opened, each with the number of negated
groups around it, of which `outer` are around the row. -/
def Formula.linkOccurrences (outer : Nat) : Formula → List (Connective × Nat)
  | .single x => x.linkOccurrences outer
  | .chain x c rest => x.linkOccurrences outer ++ (c, outer) :: rest.linkOccurrences outer

end

/-- The literal of a symbol under a number of negations. -/
def literalUnder (occurrence : String × Nat) : Operand :=
  .symbol (decide (Odd occurrence.2)) occurrence.1

/-- The connective as it reads under a number of negations. -/
def linkUnder (occurrence : Connective × Nat) : Connective :=
  occurrence.1.dualIf (decide (Odd occurrence.2))

/-- One more negation changes what an odd number of them reads as. -/
theorem decide_odd_add_toNat (outer : Nat) (negated : Bool) :
    decide (Odd (outer + negated.toNat)) = (negated != decide (Odd outer)) := by
  cases negated <;> simp [Nat.odd_add_one, -Nat.not_odd_iff_even]

mutual

/-- Without arrows, an operand consists of the literals of its symbols, joined by what its
connectives read as. -/
theorem Operand.exists_literalRow_of_hasDuals {x : Operand} (duals : x.HasDuals) (outer : Nat) :
    ∃ row, x.literalRow (decide (Odd outer)) = .ok row ∧
      row.operands = (x.occurrences outer).map literalUnder ∧
      row.links = (x.linkOccurrences outer).map linkUnder := by
  match x with
  | .symbol negated name =>
      refine ⟨_, rfl, ?_, rfl⟩
      simp [Formula.operands, Operand.occurrences, literalUnder, decide_odd_add_toNat]
  | .group negated content =>
      rcases Formula.exists_literalRow_of_hasDuals duals (outer + negated.toNat) with ⟨row, flat, same⟩
      refine ⟨row, ?_, same⟩
      rw [decide_odd_add_toNat] at flat
      rw [Operand.literalRow, Formula.requireDual_of_hasDuals duals, flat]
      cases negated != decide (Odd outer) <;> rfl

theorem Formula.exists_literalRow_of_hasDuals {f : Formula} (duals : f.HasDuals) (outer : Nat) :
    ∃ row, f.literalRow (decide (Odd outer)) = .ok row ∧
      row.operands = (f.occurrences outer).map literalUnder ∧
      row.links = (f.linkOccurrences outer).map linkUnder := by
  match f with
  | .single x => exact Operand.exists_literalRow_of_hasDuals (x := x) duals outer
  | .chain x c rest =>
      rcases Operand.exists_literalRow_of_hasDuals duals.1 outer with ⟨first, flatFirst, operands, links⟩
      rcases Formula.exists_literalRow_of_hasDuals duals.2.2 outer with ⟨tail, flatTail, operands', links'⟩
      refine ⟨first.append (c.dualIf (decide (Odd outer))) tail, ?_, ?_, ?_⟩
      · rw [Formula.literalRow, flatFirst, flatTail]
        rfl
      · rw [Formula.operands_append, operands, operands', Formula.occurrences,
          List.map_append]
      · rw [Formula.links_append, links, links', Formula.linkOccurrences, List.map_append,
          List.map_cons]
        rfl

end

mutual

theorem Operand.HasDuals.isJunction_of_mem_linkOccurrences {x : Operand} (duals : x.HasDuals)
    (outer : Nat) : ∀ occurrence ∈ x.linkOccurrences outer, occurrence.1.isJunction = true := by
  match x with
  | .symbol _ _ => exact List.forall_mem_nil _
  | .group negated content =>
      exact Formula.HasDuals.isJunction_of_mem_linkOccurrences (f := content) duals _

theorem Formula.HasDuals.isJunction_of_mem_linkOccurrences {f : Formula} (duals : f.HasDuals)
    (outer : Nat) : ∀ occurrence ∈ f.linkOccurrences outer, occurrence.1.isJunction = true := by
  match f with
  | .single x => exact Operand.HasDuals.isJunction_of_mem_linkOccurrences (x := x) duals outer
  | .chain x c rest =>
      rcases duals with ⟨first, junction, restDuals⟩
      exact List.forall_mem_append.2 ⟨first.isJunction_of_mem_linkOccurrences outer,
        List.forall_mem_cons.2 ⟨junction, restDuals.isJunction_of_mem_linkOccurrences outer⟩⟩

end

/-- A row of one kind of connective, conjunctions and disjunctions only, is a row of conjunctions or
of disjunctions; a single operand is both. -/
theorem Formula.IsRowOf.exists_isJunction {c : Connective} {f : Formula} (row : f.IsRowOf c)
    (junctions : ∀ d ∈ f.links, d.isJunction = true) : ∃ d, d.isJunction = true ∧ f.IsRowOf d := by
  cases f with
  | single x => exact ⟨.disj, rfl, isRowOf_single _ x⟩
  | chain x d rest =>
      rcases isRowOf_chain.1 row with ⟨rfl, _⟩
      exact ⟨d, junctions d List.mem_cons_self, row⟩

/-- Without arrows, a formula flattens to the row of the literals of its symbols, joined by what its
connectives read as; if they all read as one kind, it means what the row means. -/
theorem Formula.exists_flatten {f : Formula} (duals : f.HasDuals) :
    ∃ row, f.flatten = .ok row ∧ row.operands = (f.occurrences 0).map literalUnder ∧
      row.links = (f.linkOccurrences 0).map linkUnder ∧
      ∀ c, row.IsRowOf c → ∀ v, row.eval v = f.eval v := by
  rcases exists_literalRow_of_hasDuals duals 0 with ⟨row, flat, operands, links⟩
  have flat : f.flatten = .ok row := by simpa [flatten] using flat
  refine ⟨row, flat, operands, links, fun c isRow v => ?_⟩
  have junctions : ∀ d ∈ row.links, d.isJunction = true := by
    rw [links]
    exact List.forall_mem_map.2 fun occurrence listed =>
      Connective.isJunction_dualIf (duals.isJunction_of_mem_linkOccurrences 0 occurrence listed)
  rcases isRow.exists_isJunction junctions with ⟨d, junction, isRow⟩
  exact eval_flatten flat junction isRow v

end Entail
