import Entail.Engine.Basic

/-!
# Positive answers

An answer is positive if it is a YES with a reason.
-/

namespace Entail

/-- A positive answer. -/
def Engine.Affirms (engine : Engine) (kb : KnowledgeBase) (ask : String) (now : Float) : Prop :=
  ∃ reason, (engine.prove kb ask now).2 = .ok ("YES: " ++ reason)

/-- The answer is positive if `holds`, and negative otherwise. -/
structure Engine.Decides (engine : Engine) (kb : KnowledgeBase) (ask : String) (now : Float)
    (holds : Prop) : Prop where
  affirms_iff : engine.Affirms kb ask now ↔ holds
  denies : ¬holds → (engine.prove kb ask now).2 = .ok "NO"

theorem Engine.Decides.congr {engine : Engine} {kb : KnowledgeBase} {ask : String} {now : Float}
    {holds other : Prop} (decides : engine.Decides kb ask now holds) (same : holds ↔ other) :
    engine.Decides kb ask now other :=
  ⟨decides.affirms_iff.trans same, fun fails => decides.denies (mt same.1 fails)⟩

theorem exists_verdict_eq_iff (success : Bool) (justification : String) :
    (∃ reason, verdict success (some justification) = "YES: " ++ reason) ↔ success = true := by
  cases success with
  | true => exact iff_of_true ⟨justification, rfl⟩ rfl
  | false =>
      refine iff_of_false ?_ Bool.false_ne_true
      rintro ⟨reason, same⟩
      have sameStart := congrArg (fun text : String => text.toList.head?) same
      simp [verdict] at sameStart

/-- An engine whose verdict has a reason decides what the verdict is on. -/
theorem Engine.decides_of_prove {engine : Engine} {kb : KnowledgeBase} {ask : String}
    {now : Float} {success : Bool} {justification : String} {holds : Prop}
    (answer : (engine.prove kb ask now).2 = .ok (verdict success (some justification)))
    (meaning : success = true ↔ holds) : engine.Decides kb ask now holds where
  affirms_iff := by
    rw [← meaning, ← exists_verdict_eq_iff success justification, Engine.Affirms, answer]
    simp
  denies := by
    intro fails
    have failed : success = false := by simpa using mt meaning.1 fails
    rw [answer, failed]
    rfl

end Entail
