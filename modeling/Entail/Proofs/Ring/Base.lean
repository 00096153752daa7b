import Entail.Proofs.Ring.Collection
import Entail.Proofs.Ring.Horn
import Entail.Proofs.Ring.Parsed
import Entail.Ring.Base

/-!
# Knowledge bases that a store shows

What is made of a knowledge base in a store is made of what its rings show, and
leaves every node that there was as it is, also where it fails.
-/

namespace Entail.Ring

open Store Builder

/-- The rings of the clauses show the formulas of a knowledge base. -/
def Base.Shows (kb : Base) (s : Store) (base : KnowledgeBase) : Prop :=
  List.Forall₂ s.Shows kb.clauses base.clauses

variable {kb : Base} {base : KnowledgeBase} {s : Store}

theorem Base.lasting (kb : Base) (base : KnowledgeBase) :
    Lasting fun s => kb.Shows s base :=
  Lasting.forall₂ lasting_shows kb.clauses base.clauses

theorem Base.Shows.knowledge (shown : kb.Shows s base) : kb.knowledge s = .ok base := by
  rw [Base.knowledge, mapM_eq_ok_of_forall₂ (shown.imp fun _ _ ring => Shows.formula ring)]
  rfl

namespace Builder

theorem comesTo_parseText (text : String) (s : Store) :
    (parseText text).ComesTo s ∅ (Formula.ofText text) fun head f s' _ => s'.Shows head f := by
  refine (comesTo_parse (Text.squeeze text) s).imp fun head f s' B _ layout => ?_
  rcases layout with ⟨ring, laid, _, rfl, rfl⟩
  exact laid.shows

theorem comesTo_normalizeBy (mode : String) {head : Nat} {f : Formula} {A : Set Nat}
    (ring : s.HasRing head f A) :
    (normalizeBy mode head).ComesTo s A
      ((NormalForm.ofMode mode).bind fun form => f.normalize form)
      fun h g s' B => s'.HasRing h g B := by
  rw [normalizeBy]
  cases NormalForm.ofMode mode with
  | error error => exact .throw error
  | ok form =>
      cases form with
      | conjunctive => exact comesTo_conjunctive ring
      | horn => exact comesTo_horn ring

theorem yields_mapM_copy {heads : List Nat} {fs : List Formula}
    (shown : List.Forall₂ s.Shows heads fs) :
    (heads.mapM copy).Yields s ∅ fun hs s' B => s'.HasRings hs fs B := by
  induction heads generalizing s fs with
  | nil =>
      cases shown
      exact .pure Set.Subset.rfl .nil
  | cons head heads ih =>
      cases shown with
      | @cons _ f _ fs first rest =>
          rw [List.mapM_cons]
          refine (yields_copy first).bind Set.Subset.rfl fun h s₁ B evolves copied => ?_
          have rest := Lasting.forall₂ lasting_shows heads fs evolves rest
          refine (ih rest).bind (Set.empty_subset _) fun hs s₂ C evolves' others => ?_
          rcases evolves'.row copied (Set.empty_disjoint B) with ⟨copied, apart⟩
          exact .pure (B := B ∪ C) (by grind) (.cons copied others apart.symm)

end Builder

namespace Base

/-- The clauses of a text are told as they are told alone, or with the same error. -/
theorem comesTo_ofText (tell : String) (s : Store) :
    (ofText tell).ComesTo s ∅ (KnowledgeBase.ofText tell) fun kb base s' _ => kb.Shows s' base := by
  have told : ((clauseTexts tell).mapM parseText).ComesTo s ∅
      ((clauseTexts tell).mapM Formula.ofText) fun heads fs s' _ =>
        List.Forall₂ s'.Shows heads fs := by
    refine comesTo_mapM_of_lasting (fun text text' => lasting_const (text = text')) lasting_shows
      ?_ (List.forall₂_same.2 fun _ _ => rfl)
    rintro s text _ rfl
    exact comesTo_parseText text s
  exact told.map_answer fun _ _ _ _ shown => shown

/-- The copies of the clauses take up regions of their own. -/
theorem Shows.yields_copy (shown : kb.Shows s base) :
    kb.copy.Yields s ∅ fun copied s' B => s'.HasRings copied.clauses base.clauses B :=
  (yields_mapM_copy shown).bind Set.Subset.rfl fun _ _ _ _ rings =>
    .pure Set.subset_union_right rings

/-- A knowledge base is brought into a normal form as its formulas are, or with the same error. -/
theorem Shows.comesTo_rephrase (shown : kb.Shows s base) (mode : String) :
    (kb.rephrase mode).ComesTo s ∅ (base.rephrase mode) fun kb' base' s' _ => kb'.Shows s' base' := by
  refine .after_yields shown.yields_copy Set.Subset.rfl fun copied s₁ B _ rings => ?_
  have normal := comesTo_mapM rings fun s head f A ring => comesTo_normalizeBy mode ring
  exact (normal.mono Set.subset_union_right).map_answer fun _ _ _ _ rings => rings.shows

end Base

end Entail.Ring
