import Entail.Proofs.Engine.Chaining
import Entail.Proofs.Horn.Justification

/-!
# Reasons given by forward chaining

The reason for a positive answer is the path of the chain.  It has no symbol
twice and ends with the asked one, and each symbol before that is a fact or has
an alternative whose requirements all stand before it on the path.  The
requirements of the asked symbol are known, but some may be missing on the path.
-/

namespace Entail.Engine

variable {kb : KnowledgeBase} {index : HornIndex} {ask symbol : String}

/-- The path that forward chaining gives as its reason holds the scanned symbols and the asked one,
and none twice.  The scanned symbols are justified; those that are known but were not scanned
complete them to a justification of the asked symbol.  None is missing if the asked symbol never
requires more than one. -/
theorem forward_path_is_justified {forward : Engine} {found : Chaining}
    (chains : forward.work = .chaining (some .forward) found)
    (indexed : HornIndex.ofKnowledgeBase kb = .ok index)
    (asked : (Formula.ofText ask).bind Chaining.goal = .ok symbol) (now : Float)
    (affirms : forward.Affirms kb ask now) :
    ∃ path scanned unscanned,
      (forward.prove kb ask now).1.work = .chaining (some .forward) ⟨path, some index⟩ ∧
      (forward.prove kb ask now).2 = .ok ("YES: " ++ ", ".intercalate path) ∧
      path = scanned ++ [symbol] ∧ path.Nodup ∧ index.Justifies scanned ∧
      index.Explains symbol scanned unscanned ∧
      ((∀ requirements, index.HasAlternative symbol requirements → requirements.length ≤ 1) →
        index.Justifies path) := by
  have tidy := HornIndex.IsTidy.ofKnowledgeBase indexed
  have success := (affirms_iff chains indexed asked now).1 affirms
  obtain ⟨kept, answered⟩ := prove_of_chaining chains indexed asked now
  rw [success] at answered
  obtain ⟨scanned, unscanned, path, explains⟩ :=
    index.explains_chainForward tidy.facts success
  have shorter : List.Sublist (scanned ++ [symbol]) (scanned ++ unscanned ++ [symbol]) :=
    (List.sublist_append_left scanned unscanned).append (List.Sublist.refl _)
  refine ⟨_, scanned, unscanned, kept, answered, path, ?_, ?_, explains, ?_⟩
  · change (index.chainForward symbol).path.Nodup
    rw [path]
    exact explains.derivation.distinct.sublist shorter
  · exact explains.derivation.justified.of_append.of_append
  · intro simple
    change index.Justifies (index.chainForward symbol).path
    rw [path]
    exact explains.justifies simple

/-- A symbol that becomes known before one of the facts was scanned. -/
theorem forward_path_is_justified_of_rules :
    let kb : KnowledgeBase := ⟨[.single (.symbol false "a"),
      .pair (.group false (.pair (.symbol false "a") .conj (.symbol false "b"))) .impl
        (.symbol false "c"),
      .single (.symbol false "b"), .pair (.symbol false "c") .impl (.symbol false "d")]⟩
    let index : HornIndex := ⟨["a", "b"], [⟨"c", [["a", "b"]]⟩, ⟨"d", [["c"]]⟩]⟩
    let forward : Engine := .ofWork .standard (.chaining (some .forward) .initial)
    forward.work = .chaining (some .forward) .initial ∧
      HornIndex.ofKnowledgeBase kb = .ok index ∧
      (Formula.ofText "d").bind Chaining.goal = .ok "d" ∧ forward.Affirms kb "d" 0 ∧
      (∀ requirements, index.HasAlternative "d" requirements → requirements.length ≤ 1) ∧
      (forward.prove kb "d" 0).2 = .ok "YES: a, b, c, d" ∧
      (forward.prove kb "d" 0).1.work =
        .chaining (some .forward) ⟨["a", "b", "c", "d"], some index⟩ ∧
      index.Justifies ["a", "b", "c", "d"] := by
  intro kb index forward
  have chains : forward.work = .chaining (some .forward) .initial := rfl
  have indexed : HornIndex.ofKnowledgeBase kb = .ok index := by decide +kernel
  have asked : (Formula.ofText "d").bind Chaining.goal = .ok "d" := by decide +kernel
  have answer : (forward.prove kb "d" 0).2 = .ok "YES: a, b, c, d" := by decide +kernel
  have affirms : forward.Affirms kb "d" 0 := ⟨"a, b, c, d", answer.trans (by decide)⟩
  have simple : ∀ requirements, index.HasAlternative "d" requirements →
      requirements.length ≤ 1 := by
    rintro requirements ⟨rule, isRule, isGoal, isAlternative⟩
    have alternatives : ∀ rule ∈ index.rules, rule.conclusion = "d" →
        ∀ requirements ∈ rule.alternatives, requirements.length ≤ 1 := by decide
    exact alternatives rule isRule isGoal requirements isAlternative
  have path : (index.chainForward "d").path = ["a", "b", "c", "d"] := by decide +kernel
  have kept := (prove_of_chaining chains indexed asked 0).1
  change _ = Work.chaining (some .forward) ⟨(index.chainForward "d").path, some index⟩ at kept
  rw [path] at kept
  obtain ⟨_, _, _, kept', _, _, _, _, _, justified⟩ :=
    forward_path_is_justified chains indexed asked 0 affirms
  rw [kept] at kept'
  cases kept'
  exact ⟨chains, indexed, asked, affirms, simple, answer, kept, justified simple⟩

/-- The chain ends as soon as the asked symbol is derived, and its path does not have a requirement
that was known but not scanned then. -/
theorem forward_path_lacks_requirement :
    let kb : KnowledgeBase := ⟨[.single (.symbol false "a"),
      .pair (.symbol false "a") .impl (.symbol false "b"),
      .pair (.group false (.pair (.symbol false "a") .conj (.symbol false "b"))) .impl
        (.symbol false "c")]⟩
    let index : HornIndex := ⟨["a"], [⟨"b", [["a"]]⟩, ⟨"c", [["a", "b"]]⟩]⟩
    let forward : Engine := .ofWork .standard (.chaining (some .forward) .initial)
    KnowledgeBase.ofText "a;a=>b;a&b=>c" = .ok kb ∧
      HornIndex.ofKnowledgeBase kb = .ok index ∧
      (Formula.ofText "c").bind Chaining.goal = .ok "c" ∧
      (forward.prove kb "c" 0).2 = .ok "YES: a, c" ∧
      (forward.prove kb "c" 0).1.work = .chaining (some .forward) ⟨["a", "c"], some index⟩ ∧
      ¬index.Justifies ["a", "c"] := by
  intro kb index forward
  have told : KnowledgeBase.ofText "a;a=>b;a&b=>c" = .ok kb := by decide +kernel
  have indexed : HornIndex.ofKnowledgeBase kb = .ok index := by decide +kernel
  have asked : (Formula.ofText "c").bind Chaining.goal = .ok "c" := by decide +kernel
  have answer : (forward.prove kb "c" 0).2 = .ok "YES: a, c" := by decide +kernel
  have chains : forward.work = .chaining (some .forward) .initial := rfl
  have path : (index.chainForward "c").path = ["a", "c"] := by decide +kernel
  have kept := (prove_of_chaining chains indexed asked 0).1
  change _ = Work.chaining (some .forward) ⟨(index.chainForward "c").path, some index⟩ at kept
  rw [path] at kept
  refine ⟨told, indexed, asked, answer, kept, fun justified => ?_⟩
  have alternatives : ∀ rule ∈ index.rules, rule.conclusion = "c" →
      ∀ requirements ∈ rule.alternatives, "b" ∈ requirements := by decide
  obtain isFact | ⟨requirements, ⟨rule, isRule, isGoal, isAlternative⟩, met⟩ :=
    justified ["a"] "c" [] rfl
  · exact absurd isFact (by decide)
  · have missing := met "b" (alternatives rule isRule isGoal requirements isAlternative)
    exact absurd missing (by decide)

end Entail.Engine
