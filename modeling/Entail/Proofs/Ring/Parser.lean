import Entail.Proofs.Ring.Assembly
import Entail.Proofs.Ring.Ownership
import Entail.Proofs.Ring.Shown

/-!
# Every expression is parsed into a store

Building an expression adds the rings of its nested parts from the inside to
the outside; each of them waits in one slot until the row that refers to it is
assembled.
-/

namespace Entail

open Entail.Ring

mutual

/-- Building a factor adds the ring that it refers to, if it is nested. -/
theorem Factor.exists_build_assemble (factor : Factor) (references : List Nat) (s : Store) :
    ∃ (s' : Store) (new : List Nat) (leaf : Leaf) (slot : Slot RingLayout),
      factor.build Builder.assemble references s = .ok (references ++ new, leaf) s' ∧
        leaf.Resolves (references ++ new) (slot.map RingLayout.head) ∧ slot.Laid s' ∧
        s.Adds s' slot.handles ∧ factor.Reads (slot.map RingLayout.formula).operand := by
  cases factor with
  | name signs word =>
      have built : (Factor.name signs word).build Builder.assemble references s =
          .ok (references ++ [], .name signs word) s := by
        rw [Factor.build, List.append_nil]
        rfl
      exact ⟨s, [], .name signs word, .symbol (isOdd signs) (String.ofList word.chars), built,
        .name signs word, trivial, .nil s, .name signs word⟩
  | nested signs inner =>
      rcases inner.exists_build_assemble references s with
        ⟨s₁, new, row, slots, built, resolves, laid, adds, operands⟩
      rcases Builder.exists_assemble_of_adds (Row.ofText_chars resolves) laid adds with
        ⟨s', ring, assembled, laid', adds', formula⟩
      have grouped :=
        Row.grouped_byPrecedence ((slots.map (Slot.map RingLayout.formula)).map Slot.operand)
      rw [← formula] at grouped
      let leaf : Leaf := .reference signs (references ++ new).length
      have built' : (Factor.nested signs inner).build Builder.assemble references s =
          .ok (references ++ (new ++ [ring.head]), leaf) s' := by
        rw [Factor.build, Builder.bind_of_ok built]
        simp only [Builder.bind_of_ok assembled, ← List.append_assoc]
        rfl
      have resolves' : leaf.Resolves (references ++ (new ++ [ring.head]))
          (.reference (isOdd signs) ring.head) := by
        rw [← List.append_assoc]
        exact Leaf.resolves_last (references ++ new) ring.head signs
      exact ⟨s', new ++ [ring.head], leaf, .reference (isOdd signs) ring, built', resolves', laid',
        adds', .nested signs operands grouped⟩

/-- Building an expression adds the rings that its row of leaves refers to. -/
theorem Expression.exists_build_assemble (e : Expression) (references : List Nat) (s : Store) :
    ∃ (s' : Store) (new : List Nat) (row : Row Leaf) (slots : Row (Slot RingLayout)),
      e.build Builder.assemble references s = .ok (references ++ new, row) s' ∧
        row.Resolves (references ++ new) (slots.map (Slot.map RingLayout.head)) ∧
        (∀ slot ∈ slots.elements, slot.Laid s') ∧
        s.Adds s' (slots.elements.flatMap Slot.handles) ∧
        e.Operands ((slots.map (Slot.map RingLayout.formula)).map Slot.operand) := by
  cases e with
  | single factor =>
      rcases factor.exists_build_assemble references s with
        ⟨s', new, leaf, slot, built, resolves, laid, adds, reads⟩
      have built' : (Expression.single factor).build Builder.assemble references s =
          .ok (references ++ new, ⟨leaf, []⟩) s' := by
        rw [Expression.build, Builder.bind_of_ok built]
        rfl
      have adds' : s.Adds s' ((⟨slot, []⟩ : Row (Slot RingLayout)).elements.flatMap
          Slot.handles) := by
        simpa [Row.elements] using adds
      exact ⟨s', new, ⟨leaf, []⟩, ⟨slot, []⟩, built', .single resolves,
        List.forall_mem_singleton.2 laid, adds', .single reads⟩
  | chain first c rest =>
      rcases first.exists_build_assemble references s with
        ⟨s₁, new, leaf, slot, built, resolves, laid, adds, reads⟩
      rcases rest.exists_build_assemble (references ++ new) s₁ with
        ⟨s', more, row, slots, built', resolves', laid', adds', operands⟩
      rw [List.append_assoc] at built' resolves'
      have built'' : (Expression.chain first c rest).build Builder.assemble references s =
          .ok (references ++ (new ++ more), row.cons leaf c) s' := by
        rw [Expression.build, Builder.bind_of_ok built]
        simp only [Builder.bind_of_ok built']
        rfl
      have resolves'' : leaf.Resolves (references ++ (new ++ more)) (slot.map RingLayout.head) := by
        rw [← List.append_assoc]
        exact resolves.mono more
      have kept : slot.Laid s' := laid.congr fun h isOwned => adds'.node h (adds.lt_size isOwned)
      exact ⟨s', new ++ more, row.cons leaf c, slots.cons slot c, built'',
        .cons c resolves'' resolves', List.forall_mem_cons.2 ⟨kept, laid'⟩, adds.append adds',
        .chain reads operands⟩

end

/-- The text of an expression is parsed into a ring that holds the formula of the expression. -/
theorem Expression.exists_parse (e : Expression) (s : Store) :
    ∃ (s' : Store) (ring : RingLayout), Builder.parse e.text s = .ok ring.head s' ∧
      ring.Laid s' ∧ s.Adds s' ring.handles ∧ e.Reads ring.formula := by
  rcases e.exists_build_assemble [] s with
    ⟨s₁, new, row, slots, built, resolves, laid, adds, operands⟩
  rcases Builder.exists_assemble_of_adds (Row.ofText_chars resolves) laid adds with
    ⟨s', ring, assembled, laid', adds', formula⟩
  have parsed : Builder.parse e.text s = .ok ring.head s' := by
    rw [Builder.parse, Expression.text, String.toList_ofList, e.readText_chars,
      Builder.bind_of_ok built]
    exact assembled
  have grouped :=
    Row.grouped_byPrecedence ((slots.map (Slot.map RingLayout.formula)).map Slot.operand)
  rw [← formula] at grouped
  exact ⟨s', ring, parsed, laid', adds', _, operands, grouped⟩

/-- The text of an expression is parsed, whatever the store holds, into rings of one operand or of
two with a connective between them, which together hold the one formula that the grammar gives the
expression.  Each new node is a member of such a ring, the rings below the outermost one have one
owner each, and the nodes from before are as they were. -/
theorem Ring.Builder.parse_expression (e : Expression) (s : Store) :
    ∃ (head : Nat) (s' : Store) (f : Formula), Builder.parse e.text s = .ok head s' ∧
      s'.formula head = .ok f ∧ Formula.parse e.text = .ok f ∧ (∀ g, e.Reads g ↔ g = f) ∧
      (∀ h, h < s.size → s'.node h = s.node h) ∧ s.size ≤ head ∧ head < s'.size ∧
      ∀ h, s.size ≤ h → h < s'.size →
        ∃ members, h ∈ members ∧ s'.IsFormulaRing members ∧
          (head ∈ members ∧ s.Unowned s' members ∨
            head ∉ members ∧ s.OwnedOnce s' members) := by
  rcases e.exists_parse s with ⟨s', ring, parsed, laid, adds, reads⟩
  rcases e.parse_text with ⟨f, parsedAlone, readsAlone⟩
  rcases reads.unique readsAlone with rfl
  have headNew := (adds.mem_iff ring.head).1 ring.head_mem_handles
  have onlyReading (g : Formula) : e.Reads g ↔ g = ring.formula := by
    constructor
    · exact fun other => other.unique reads
    · rintro rfl
      exact reads
  exact ⟨ring.head, s', ring.formula, parsed, laid.formula, parsedAlone,
    onlyReading, adds.node, headNew.1, headNew.2,
    fun h isNew inRange => laid.exists_members adds isNew inRange⟩

end Entail
