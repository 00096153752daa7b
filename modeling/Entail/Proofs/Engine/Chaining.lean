import Entail.Proofs.Engine.Verdict
import Entail.Proofs.Horn.Completeness
import Entail.Proofs.Horn.Forward

/-!
# Forward and backward chaining

Forward chaining answers positively whatever the index derives.  Backward
chaining does so as long as no symbols are entangled, and never answers
positively otherwise.
-/

namespace Entail

namespace Engine

variable {kb : KnowledgeBase} {index : HornIndex} {ask symbol : String}

/-- What an engine that chains keeps, and what it answers. -/
theorem prove_of_chaining {engine : Engine} {strategy : Strategy} {found : Chaining}
    (method : engine.work = .chaining (some strategy) found)
    (indexed : HornIndex.ofKnowledgeBase kb = .ok index)
    (asked : (Formula.ofText ask).bind Chaining.goal = .ok symbol) (now : Float) :
    (engine.prove kb ask now).1.work =
        .chaining (some strategy) ⟨(strategy.chain index symbol).path, some index⟩ ∧
      (engine.prove kb ask now).2 = .ok (verdict (strategy.chain index symbol).success
        (some (", ".intercalate (strategy.chain index symbol).path))) := by
  simp [prove, method, Work.prove, Chaining.prove, Chaining.answer, asked, indexed]

/-- An engine that chains decides whether its chain succeeds. -/
theorem decides_of_chaining {engine : Engine} {strategy : Strategy} {found : Chaining}
    (method : engine.work = .chaining (some strategy) found)
    (indexed : HornIndex.ofKnowledgeBase kb = .ok index)
    (asked : (Formula.ofText ask).bind Chaining.goal = .ok symbol) (now : Float) :
    engine.Decides kb ask now ((strategy.chain index symbol).success = true) :=
  decides_of_prove (prove_of_chaining method indexed asked now).2 Iff.rfl

/-- An engine that chains gives a positive answer exactly if its chain succeeds. -/
theorem affirms_iff {engine : Engine} {strategy : Strategy} {found : Chaining}
    (method : engine.work = .chaining (some strategy) found)
    (indexed : HornIndex.ofKnowledgeBase kb = .ok index)
    (asked : (Formula.ofText ask).bind Chaining.goal = .ok symbol) (now : Float) :
    engine.Affirms kb ask now ↔ (strategy.chain index symbol).success = true :=
  (decides_of_chaining method indexed asked now).affirms_iff

/-- Whatever backward chaining affirms, forward chaining affirms too.  The two agree unless the
symbol depends on two derivable symbols that depend on each other, where the first one has several
alternatives and several symbols require the second. -/
theorem chaining_agrees_unless_entangled {forward backward : Engine} {found found' : Chaining}
    (forwards : forward.work = .chaining (some .forward) found)
    (backwards : backward.work = .chaining (some .backward) found')
    (indexed : HornIndex.ofKnowledgeBase kb = .ok index)
    (asked : (Formula.ofText ask).bind Chaining.goal = .ok symbol) (now later : Float) :
    (backward.Affirms kb ask later → forward.Affirms kb ask now) ∧
      ((¬∃ choice name, index.Entangled symbol choice name) →
        (forward.Affirms kb ask now ↔ backward.Affirms kb ask later)) := by
  have wellFormed := HornIndex.WellFormed.ofKnowledgeBase indexed
  have forwardAffirms : forward.Affirms kb ask now ↔ index.Derivable symbol :=
    (affirms_iff forwards indexed asked now).trans
      (HornIndex.success_chainForward_iff wellFormed symbol)
  have backwardAffirms := affirms_iff backwards indexed asked later
  have sound : backward.Affirms kb ask later → forward.Affirms kb ask now := by
    intro affirms
    exact forwardAffirms.2 (index.derivable_of_chainBackward symbol (backwardAffirms.1 affirms))
  refine ⟨sound, fun untangled => ⟨fun affirms => ?_, sound⟩⟩
  exact backwardAffirms.2
    (HornIndex.chainBackward_of_derivable wellFormed untangled (forwardAffirms.1 affirms))

/-- On a cycle with one way in, the strategies agree. -/
theorem chaining_agrees_on_cycle :
    let kb : KnowledgeBase := ⟨[.pair (.symbol false "a") .impl (.symbol false "b"),
      .pair (.symbol false "b") .impl (.symbol false "a"),
      .pair (.symbol false "c") .impl (.symbol false "a"), .single (.symbol false "c")]⟩
    let index : HornIndex := ⟨["c"], [⟨"b", [["a"]]⟩, ⟨"a", [["b"], ["c"]]⟩]⟩
    let forward : Engine := .ofWork .standard (.chaining (some .forward) .initial)
    let backward : Engine := .ofWork .standard (.chaining (some .backward) .initial)
    forward.work = .chaining (some .forward) .initial ∧
      backward.work = .chaining (some .backward) .initial ∧
      HornIndex.ofKnowledgeBase kb = .ok index ∧
      (Formula.ofText "b").bind Chaining.goal = .ok "b" ∧
      (¬∃ choice name, index.Entangled "b" choice name) ∧
      (backward.Affirms kb "b" 0 → forward.Affirms kb "b" 0) ∧
      (forward.Affirms kb "b" 0 ↔ backward.Affirms kb "b" 0) := by
  intro kb index forward backward
  have indexed : HornIndex.ofKnowledgeBase kb = .ok index := by decide +kernel
  have asked : (Formula.ofText "b").bind Chaining.goal = .ok "b" := by decide +kernel
  have edges : ∀ source target, index.Requires source target →
      (source, target) ∈ [("b", "a"), ("a", "b"), ("a", "c")] := by
    rintro _ target ⟨_, _, ⟨_, isRule, rfl, isAlternative⟩, required⟩
    simp only [index, List.mem_cons, List.not_mem_nil, or_false] at isRule
    rcases isRule with rfl | rfl
    · simp_all
    · rcases List.mem_pair.1 isAlternative with rfl | rfl <;> simp_all
  have untangled : ¬∃ choice name, index.Entangled "b" choice name := by
    rintro ⟨choice, name, entangled⟩
    rcases entangled.required with ⟨left, right, different, _, leftRequires, _, rightRequires⟩
    have leftEdge := edges left name leftRequires
    have rightEdge := edges right name rightRequires
    simp only [List.mem_cons, Prod.mk.injEq, List.not_mem_nil, or_false] at leftEdge rightEdge
    grind
  have forwards : forward.work = .chaining (some .forward) .initial := rfl
  have backwards : backward.work = .chaining (some .backward) .initial := rfl
  rcases chaining_agrees_unless_entangled forwards backwards indexed asked 0 0 with
    ⟨sound, agrees⟩
  exact ⟨rfl, rfl, indexed, asked, untangled, sound, agrees untangled⟩

/-- With two ways into a cycle, backward chaining may try a symbol too early: it misses what
forward chaining reaches. -/
theorem chaining_disagrees_on_cycle :
    let kb : KnowledgeBase := ⟨[
      .pair (.group false (.pair (.symbol false "a") .conj (.symbol false "b"))) .impl
        (.symbol false "g"),
      .pair (.symbol false "b") .impl (.symbol false "a"),
      .pair (.symbol false "d") .impl (.symbol false "a"),
      .pair (.symbol false "a") .impl (.symbol false "b"), .single (.symbol false "d")]⟩
    let index : HornIndex :=
      ⟨["d"], [⟨"g", [["a", "b"]]⟩, ⟨"a", [["b"], ["d"]]⟩, ⟨"b", [["a"]]⟩]⟩
    let forward : Engine := .ofWork .standard (.chaining (some .forward) .initial)
    let backward : Engine := .ofWork .standard (.chaining (some .backward) .initial)
    KnowledgeBase.ofText "a&b=>g;b=>a;d=>a;a=>b;d" = .ok kb ∧
      HornIndex.ofKnowledgeBase kb = .ok index ∧
      (Formula.ofText "g").bind Chaining.goal = .ok "g" ∧
      (forward.prove kb "g" 0).2 = .ok "YES: d, a, b, g" ∧
      (backward.prove kb "g" 0).2 = .ok "NO" ∧
      ¬(forward.Affirms kb "g" 0 ↔ backward.Affirms kb "g" 0) := by
  intro kb index forward backward
  have told : KnowledgeBase.ofText "a&b=>g;b=>a;d=>a;a=>b;d" = .ok kb := by decide +kernel
  have indexed : HornIndex.ofKnowledgeBase kb = .ok index := by decide +kernel
  have asked : (Formula.ofText "g").bind Chaining.goal = .ok "g" := by decide +kernel
  have forwardAnswer : (forward.prove kb "g" 0).2 = .ok "YES: d, a, b, g" := by decide +kernel
  have backwardAnswer : (backward.prove kb "g" 0).2 = .ok "NO" := by decide +kernel
  refine ⟨told, indexed, asked, forwardAnswer, backwardAnswer, fun agrees => ?_⟩
  have backwards : backward.work = .chaining (some .backward) .initial := rfl
  have affirms := agrees.1 ⟨"d, a, b, g", forwardAnswer.trans (by decide)⟩
  have succeeds := (affirms_iff backwards indexed asked 0).1 affirms
  have fails : (Strategy.backward.chain index "g").success = false := by decide +kernel
  rw [fails] at succeeds
  contradiction

end Engine

end Entail
