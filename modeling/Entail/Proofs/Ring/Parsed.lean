import Entail.Proofs.Ring.Assembly
import Entail.Proofs.Ring.Reading

/-!
# Texts that are parsed into a store

Any text is parsed into a store with the outcome that it has alone, even if two
of its groups refer to one ring.  The groups of such a text share nodes; where
no node is reached twice, the formula has a region of its own.
-/

namespace Entail

open Entail.Ring

/-! ### Reading rows over other references -/

namespace RowContext

variable {ρ σ : Type} (f : ρ → σ)

/-- The context with a function applied to what back-references number. -/
def map (row : RowContext ρ) : RowContext σ :=
  ⟨row.references.map f, row.text, row.expanded, row.stuck⟩

theorem resolve_map (row : RowContext ρ) (negated : Bool) (digits : List Char) :
    (row.map f).resolve negated digits = (row.resolve negated digits).map (Slot.map f) := by
  have oversize : (row.map f).isOversize digits = row.isOversize digits := by
    simp [isOversize, map]
  have found : (row.map f).references[Text.numberOf digits]? =
      row.references[Text.numberOf digits]?.map f :=
    List.getElem?_map
  rw [resolve, resolve, oversize, found]
  split
  · rfl
  · cases row.references[Text.numberOf digits]? <;> rfl

mutual

theorem readOperand_map (row : RowContext ρ) (isFirst negated : Bool) (lexemes : List Lexeme) :
    (row.map f).readOperand isFirst negated lexemes =
      (row.readOperand isFirst negated lexemes).map (Row.map (Slot.map f)) := by
  match lexemes with
  | [] =>
      rw [readOperand, readOperand]
      change (match row.stuck with | some error => _ | none => _) = _
      cases row.stuck <;> rfl
  | ⟨.negation, _⟩ :: rest => exact readOperand_map row isFirst (!negated) rest
  | ⟨.name chars, _⟩ :: rest => exact readLink_map row (.symbol negated (String.ofList chars)) rest
  | ⟨.reference digits, _⟩ :: rest =>
      rw [readOperand, readOperand, resolve_map]
      cases row.resolve negated digits with
      | ok x => exact readLink_map row x rest
      | error error => rfl
  | ⟨.connective c, position⟩ :: _ => rfl

theorem readLink_map (row : RowContext ρ) (x : Slot ρ) (lexemes : List Lexeme) :
    (row.map f).readLink (x.map f) lexemes =
      (row.readLink x lexemes).map (Row.map (Slot.map f)) := by
  match lexemes with
  | [] =>
      rw [readLink, readLink]
      change (match row.stuck with | some error => _ | none => _) = _
      cases row.stuck <;> rfl
  | ⟨.connective c, _⟩ :: rest =>
      rw [readLink, readLink, readOperand_map row false false rest]
      cases row.readOperand false false rest <;> rfl
  | ⟨.negation, _⟩ :: _ => rfl
  | ⟨.name _, _⟩ :: _ => rfl
  | ⟨.reference _, _⟩ :: _ => rfl

end

end RowContext

/-- What a row is read as depends on its references only through the slots that hold them. -/
theorem Row.ofText_map {ρ σ : Type} (f : ρ → σ) (references : List ρ) (text : List Char) :
    Row.ofText (references.map f) text =
      (Row.ofText references text).map (Row.map (Slot.map f)) := by
  rw [ofText, ofText]
  exact RowContext.readOperand_map f ⟨references, _, _, _⟩ true false _

namespace Ring

/-- The ring of the given head is laid out, and holds the formula; its rings may share nodes. -/
def Store.HasLayout (s : Store) (head : Nat) (f : Formula) : Prop :=
  ∃ ring : RingLayout, ring.Laid s ∧ ring.depth ≤ s.size ∧ ring.head = head ∧ ring.formula = f

/-- The rings are laid out, with no more levels than there are nodes. -/
def RingLayout.AllLaid (s : Store) (rings : List RingLayout) : Prop :=
  ∀ ring ∈ rings, ring.Laid s ∧ ring.depth ≤ s.size

variable {s s' : Store} {B : Set Nat}

theorem RingLayout.AllLaid.congr {rings : List RingLayout} (laid : AllLaid s rings)
    (evolves : s.Evolves s' ∅ B) : AllLaid s' rings := by
  intro ring listed
  rcases laid ring listed with ⟨laid, deep⟩
  exact ⟨laid.congr fun h isHandle => evolves.node h (laid.lt_size h isHandle) id,
    Nat.le_trans deep evolves.size⟩

theorem Store.HasLayout.formula {head : Nat} {f : Formula} (layout : s.HasLayout head f) :
    s.formula head = .ok f := by
  rcases layout with ⟨ring, laid, deep, rfl, rfl⟩
  exact laid.formula

namespace Builder

/-- A row is assembled as it is read, over the rings that its back-references number. -/
theorem comesTo_assemble {rings : List RingLayout} (laid : RingLayout.AllLaid s rings)
    (text : List Char) :
    (assemble (rings.map RingLayout.head) text).ComesTo s ∅
      (Formula.ofRow (rings.map RingLayout.formula) text) fun head f s' _ =>
        s'.HasLayout head f := by
  rw [Formula.ofRow, Row.ofText_map]
  have read := Row.ofText_map RingLayout.head rings text
  cases row : Row.ofText rings text with
  | error error =>
      rw [row] at read
      exact .fails (bind_of_error (read_of_error read) _)
  | ok slots =>
      rw [row] at read
      have isFrom := Row.forall_elements.1 (Row.isFrom_of_ofText row)
      have laid' : ∀ slot ∈ slots.elements, slot.Laid s := by
        intro slot listed
        cases isFrom slot listed with
        | symbol => trivial
        | reference _ isRing => exact (laid _ isRing).1
      have shallow : ((slots.map (Slot.map RingLayout.formula)).map Slot.operand).Forall fun x =>
          x.depth ≤ s.size := by
        rw [Row.forall_elements, Row.elements_map, Row.elements_map, List.map_map]
        refine List.forall_mem_map.2 fun slot listed => ?_
        cases isFrom slot listed with
        | symbol => exact Nat.zero_le _
        | @reference _ ring isRing =>
            have deep := (laid ring isRing).2
            rwa [← ring.depth_formula] at deep
      rcases exists_assemble read laid' shallow with
        ⟨s', ring, new, assembled, laid', adds, _, deep, formula⟩
      have evolves : s.Evolves s' ∅ ∅ :=
        ⟨adds.le, fun k old _ => adds.node k old, fun _ isNode => isNode.elim⟩
      exact ⟨ring.head, s', ∅, assembled, evolves, ring, laid', deep, rfl, formula⟩

/-- The nests of a text are read into the store as they are read alone. -/
theorem comesTo_readNests {s : Store} {rings : List RingLayout} (laid : RingLayout.AllLaid s rings)
    (source text : List Char) :
    (Formula.readNests assemble source (rings.map RingLayout.head) text).ComesTo s ∅
      (Formula.readNests Formula.ofRow source (rings.map RingLayout.formula) text)
      fun head f s' _ => s'.HasLayout head f := by
  rw [Formula.readNests, Formula.readNests]
  split
  · exact comesTo_assemble laid text
  · next nest found =>
      split
      · exact .throw _
      · refine (comesTo_assemble laid nest.inner).bind Set.Subset.rfl ?_
        rintro _ _ s' B evolves ⟨ring, laid', deep, rfl, rfl⟩
        have shorter := Formula.Nest.count_close_replace_lt found rings.length
        have allLaid : RingLayout.AllLaid s' (rings ++ [ring]) :=
          List.forall_mem_append.2 ⟨laid.congr evolves, List.forall_mem_singleton.2 ⟨laid', deep⟩⟩
        have rest := comesTo_readNests allLaid source (nest.replace rings.length)
        rw [List.map_append, List.map_append] at rest
        simp only [List.length_map]
        exact rest.mono (Set.empty_subset _)
termination_by text.count ')'

/-- A text is parsed into a store as it is parsed alone: into a ring of the same formula, or with
the same error. -/
theorem comesTo_parse (text : String) (s : Store) :
    (parse text).ComesTo s ∅ (Formula.parse text) fun head f s' _ => s'.HasLayout head f := by
  rw [parse, Formula.parse, Formula.readText, Formula.readText]
  split
  · exact .throw _
  · have noneYet : RingLayout.AllLaid s [] := List.forall_mem_nil _
    exact comesTo_readNests noneYet text.toList text.toList

end Builder

end Ring

end Entail
