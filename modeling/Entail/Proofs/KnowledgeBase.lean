import Entail.KnowledgeBase
import Entail.Proofs.Formula.Parsed
import Entail.Proofs.NormalForm.Horn
import Entail.Proofs.NormalForm.Stability

/-!
# What knowledge bases hold

The formulas of a knowledge base come from texts; they may have been negated or
brought into a normal form since.  All of them are uniform, and their names can
be written.
-/

namespace Entail

/-- A formula that was read from a text, or made from such a formula by negation and by bringing it
into a normal form. -/
inductive Formula.IsMade : Formula → Prop
  | parsed {text : String} {f : Formula} : parse text = .ok f → IsMade f
  | negated {f : Formula} : IsMade f → IsMade f.negate
  | normalized {f g : Formula} (form : NormalForm) : IsMade f → f.normalize form = .ok g → IsMade g

namespace KnowledgeBase

/-- All clauses were made from texts. -/
def IsMade (kb : KnowledgeBase) : Prop :=
  ∀ f ∈ kb.clauses, f.IsMade

theorem isMade_ofText {tell : String} {kb : KnowledgeBase} (told : ofText tell = .ok kb) :
    kb.IsMade := by
  rcases map_eq_ok_iff.1 told with ⟨clauses, read, rfl⟩
  intro f isClause
  rcases exists_of_mem_of_mapM read isClause with ⟨text, _, parsed⟩
  exact .parsed parsed

theorem IsMade.tell {kb : KnowledgeBase} (made : kb.IsMade) {f : Formula} (formulaMade : f.IsMade) :
    (kb.tell f).IsMade :=
  List.forall_mem_append.2 ⟨made, List.forall_mem_singleton.2 formulaMade⟩

theorem IsMade.rephrase {kb rephrased : KnowledgeBase} (made : kb.IsMade) {mode : String}
    (normalized : kb.rephrase mode = .ok rephrased) : rephrased.IsMade := by
  rcases map_eq_ok_iff.1 normalized with ⟨clauses, brought, rfl⟩
  intro g isClause
  rcases exists_of_mem_of_mapM brought isClause with ⟨f, isTold, normalized⟩
  rcases bind_eq_ok_iff.1 normalized with ⟨form, _, normal⟩
  exact .normalized form (made f isTold) normal

end KnowledgeBase

theorem isName_of_constantValue? {name : String} {value : Bool}
    (isConstant : constantValue? name = some value) : IsName name := by
  simp only [constantValue?] at isConstant
  split at isConstant
  · next isTrue => exact isName_constant true name (List.mem_singleton.2 isTrue)
  · split at isConstant
    · next isFalse => exact isName_constant false name (List.mem_singleton.2 isFalse)
    · contradiction

/-- A formula that was made from a text is uniform, and its names can be written. -/
theorem Formula.IsMade.isUniform_and_isWritable {f : Formula} (made : f.IsMade) :
    f.IsUniform (fun _ => True) ∧ f.IsWritable := by
  induction made with
  | parsed parsed => exact ⟨isUniform_of_parse parsed, isWritable_of_parse parsed⟩
  | @negated f _ ih => exact ⟨ih.1.negate, by rw [IsWritable, names_negate]; exact ih.2⟩
  | @normalized f g form _ normal ih =>
      rcases ih with ⟨uniform, writable⟩
      cases form with
      | conjunctive =>
          rcases uniform.exists_conjunctive writable with ⟨_, made, conjunctive, _, names⟩
          rcases Except.ok.inj (made.symm.trans normal) with rfl
          refine ⟨conjunctive.isArrowFree.mono fun _ _ => trivial, fun name isName => ?_⟩
          rcases names name isName with isName | ⟨value, isConstant⟩
          · exact writable name isName
          · exact isName_of_constantValue? isConstant
      | horn =>
          refine ⟨uniform.horn normal, fun name isName => ?_⟩
          rcases (horn_means uniform normal writable).1.forall_names name isName with named | rfl
          · exact named
          · exact isName_constant false _ List.mem_cons_self

end Entail
