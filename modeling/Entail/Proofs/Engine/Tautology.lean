import Entail.Proofs.Engine.Chaining
import Entail.Proofs.Horn.Relevance

/-!
# Knowledge bases that are told a tautology

Chaining takes the constant `true` for a symbol among others.  Telling it makes
it a fact, which makes a difference to what requires it.
-/

namespace Entail

namespace HornIndex.Gains

variable {index more : HornIndex} {name goal : String}

/-- A derivable symbol that becomes a fact makes no difference to forward chaining. -/
theorem success_chainForward_iff (gains : index.Gains name more) (wellFormed : index.WellFormed)
    (wellFormed' : more.WellFormed) (known : index.DependsOn goal name → index.Derivable name) :
    (more.chainForward goal).success = true ↔ (index.chainForward goal).success = true := by
  rw [HornIndex.success_chainForward_iff wellFormed', HornIndex.success_chainForward_iff wellFormed]
  exact gains.derivable_iff known

/-- Nor does it make one to backward chaining, if no symbols are entangled. -/
theorem success_chainBackward_iff (gains : index.Gains name more) (wellFormed : index.WellFormed)
    (wellFormed' : more.WellFormed) (known : index.DependsOn goal name → index.Derivable name)
    (untangled : ¬∃ choice name, index.Entangled goal choice name) :
    (more.chainBackward goal).success = true ↔ (index.chainBackward goal).success = true := by
  have untangled' : ¬∃ choice name, more.Entangled goal choice name := by
    rintro ⟨choice, name, entangled⟩
    exact untangled ⟨choice, name, gains.entangled known entangled⟩
  constructor
  · intro success
    apply chainBackward_of_derivable wellFormed untangled
    exact (gains.derivable_iff known).1 (more.derivable_of_chainBackward goal success)
  · intro success
    apply chainBackward_of_derivable wellFormed' untangled'
    exact gains.derivable (index.derivable_of_chainBackward goal success)

end HornIndex.Gains

namespace Engine

variable {before after : List Formula} {index : HornIndex} {ask symbol : String}

/-- An engine that chains keeps its verdict when the constant `true` is told, wherever in the
knowledge base, unless the asked symbol depends on the constant and the constant was not known: not
a fact, or not derivable if no symbols are entangled or the chain is a forward one.  A forward chain
loses no positive answer in any case. -/
theorem tautology_keeps_verdict {engine engine' : Engine} {strategy : Strategy}
    {found found' : Chaining} (chains : engine.work = .chaining (some strategy) found)
    (chains' : engine'.work = .chaining (some strategy) found')
    (indexed : HornIndex.ofKnowledgeBase ⟨before ++ after⟩ = .ok index)
    (asked : (Formula.ofText ask).bind Chaining.goal = .ok symbol) (now later : Float) :
    let kb : KnowledgeBase := ⟨before ++ after⟩
    let kb' : KnowledgeBase := ⟨before ++ .single (.symbol false trueName) :: after⟩
    ((index.DependsOn symbol trueName → trueName ∈ index.facts) →
        engine'.Decides kb' ask later (engine.Affirms kb ask now)) ∧
      ((index.DependsOn symbol trueName → index.Derivable trueName) →
        (strategy = .backward → ¬∃ choice name, index.Entangled symbol choice name) →
        engine'.Decides kb' ask later (engine.Affirms kb ask now)) ∧
      (strategy = .forward → engine.Affirms kb ask now → engine'.Affirms kb' ask later) := by
  intro kb kb'
  obtain ⟨more, indexed', gains⟩ := HornIndex.exists_gains_ofKnowledgeBase trueName indexed
  have wellFormed := HornIndex.WellFormed.ofKnowledgeBase indexed
  have wellFormed' := HornIndex.WellFormed.ofKnowledgeBase indexed'
  have affirms := affirms_iff chains indexed asked now
  have decides := decides_of_chaining chains' indexed' asked later
  -- All is said about the chains on the two indexes.
  have keeps (same : (strategy.chain more symbol).success = true ↔
      (strategy.chain index symbol).success = true) :
      engine'.Decides kb' ask later (engine.Affirms kb ask now) :=
    decides.congr (same.trans affirms.symm)
  have known (isFact : index.DependsOn symbol trueName → trueName ∈ index.facts) :
      index.DependsOn symbol trueName → index.Derivable trueName :=
    fun depends => .fact (isFact depends)
  refine ⟨fun isFact => keeps ?_, fun known untangled => keeps ?_, ?_⟩
  · cases strategy with
    | forward => exact gains.success_chainForward_iff wellFormed wellFormed' (known isFact)
    | backward => exact Bool.eq_iff_iff.1 (gains.agreesOn isFact).success_chainBackward
  · cases strategy with
    | forward => exact gains.success_chainForward_iff wellFormed wellFormed' known
    | backward =>
        exact gains.success_chainBackward_iff wellFormed wellFormed' known (untangled rfl)
  · rintro rfl affirmed
    have derivable := (HornIndex.success_chainForward_iff wellFormed symbol).1 (affirms.1 affirmed)
    apply decides.affirms_iff.2
    exact (HornIndex.success_chainForward_iff wellFormed' symbol).2 (gains.derivable derivable)

/-- The constant is a fact already, and the asked symbol requires it. -/
theorem tautology_keeps_verdict_of_fact :
    let before : List Formula := [.single (.symbol false trueName)]
    let after : List Formula := [.pair (.group false
      (.pair (.symbol false trueName) .conj (.symbol false "a"))) .impl (.symbol false "b"),
      .single (.symbol false "a")]
    let index : HornIndex := ⟨[trueName, "a"], [⟨"b", [[trueName, "a"]]⟩]⟩
    let kb' : KnowledgeBase := ⟨before ++ .single (.symbol false trueName) :: after⟩
    let engine : Engine := .ofWork .standard (.chaining (some .backward) .initial)
    HornIndex.ofKnowledgeBase ⟨before ++ after⟩ = .ok index ∧
      (Formula.ofText "b").bind Chaining.goal = .ok "b" ∧ trueName ∈ index.facts ∧
      engine.Affirms ⟨before ++ after⟩ "b" 0 ∧ engine.Affirms kb' "b" 0 := by
  intro before after index kb' engine
  have chains : engine.work = .chaining (some .backward) .initial := rfl
  have indexed : HornIndex.ofKnowledgeBase ⟨before ++ after⟩ = .ok index := by decide +kernel
  have asked : (Formula.ofText "b").bind Chaining.goal = .ok "b" := by decide +kernel
  have isFact : trueName ∈ index.facts := by decide
  have answer : (engine.prove ⟨before ++ after⟩ "b" 0).2 = .ok "YES: a, true, b" := by
    decide +kernel
  have affirms : engine.Affirms ⟨before ++ after⟩ "b" 0 :=
    ⟨"a, true, b", answer.trans (by decide)⟩
  have keeps := (tautology_keeps_verdict chains chains indexed asked 0 0).1 fun _ => isFact
  exact ⟨indexed, asked, isFact, affirms, keeps.affirms_iff.2 affirms⟩

/-- As long as the constant was not told, neither strategy derives what requires nothing else. -/
theorem tautology_changes_verdict :
    let kb : KnowledgeBase := ⟨[.pair (.symbol false trueName) .impl (.symbol false "a")]⟩
    let kb' : KnowledgeBase := kb.tell (.single (.symbol false trueName))
    let forward : Engine := .ofWork .standard (.chaining (some .forward) .initial)
    let backward : Engine := .ofWork .standard (.chaining (some .backward) .initial)
    KnowledgeBase.ofText "true=>a" = .ok kb ∧
      HornIndex.ofKnowledgeBase kb = .ok ⟨[], [⟨"a", [[trueName]]⟩]⟩ ∧
      (Formula.ofText "a").bind Chaining.goal = .ok "a" ∧
      (forward.prove kb "a" 0).2 = .ok "NO" ∧ (forward.prove kb' "a" 0).2 = .ok "YES: true, a" ∧
      (backward.prove kb "a" 0).2 = .ok "NO" ∧ (backward.prove kb' "a" 0).2 = .ok "YES: true, a" := by
  intro kb kb' forward backward
  have told : KnowledgeBase.ofText "true=>a" = .ok kb := by decide +kernel
  have indexed : HornIndex.ofKnowledgeBase kb = .ok ⟨[], [⟨"a", [[trueName]]⟩]⟩ := by
    decide +kernel
  have asked : (Formula.ofText "a").bind Chaining.goal = .ok "a" := by decide +kernel
  have forwards : (forward.prove kb "a" 0).2 = .ok "NO" := by decide +kernel
  have forwards' : (forward.prove kb' "a" 0).2 = .ok "YES: true, a" := by decide +kernel
  have backwards : (backward.prove kb "a" 0).2 = .ok "NO" := by decide +kernel
  have backwards' : (backward.prove kb' "a" 0).2 = .ok "YES: true, a" := by decide +kernel
  exact ⟨told, indexed, asked, forwards, forwards', backwards, backwards'⟩

end Engine

end Entail
