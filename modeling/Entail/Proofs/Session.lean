import Entail.Proofs.Ring.Engine
import Entail.Session

/-!
# Requests do not disturb each other

All knowledge bases of a session and whatever is made of them share one store.
A request changes no node that there was, whether it fails or not.  So a
knowledge base shows the same formulas after any requests, and an engine that
is asked about it then answers as a new one does elsewhere.
-/

namespace Entail

open Entail.Ring Entail.Ring.Store Entail.Ring.Builder

/-- Whether a request tells a knowledge base a formula. -/
def Request.tells : Request → Bool
  | tell _ | tellAgain _ => true
  | _ => false

namespace Session

variable {s s' s'' : Session}

/-- The knowledge bases show formulas. -/
def IsSound (s : Session) : Prop :=
  ∀ kb ∈ s.bases, ∃ base, kb.Shows s.store base

/-- A session has gone on to another one: no node that there was has changed, and the knowledge
bases of that one show formulas. -/
structure Extends (s s' : Session) : Prop where
  evolves : s.store.Evolves s'.store ∅ ∅
  sound : s'.IsSound

theorem extends_self (sound : s.IsSound) : s.Extends s :=
  ⟨.refl s.store Set.Subset.rfl, sound⟩

theorem Extends.trans (first : s.Extends s') (second : s'.Extends s'') : s.Extends s'' :=
  ⟨first.evolves.trans (second.evolves.mono (Set.empty_subset _)), second.sound⟩

/-- The same knowledge bases in a store in which no old node has changed. -/
theorem extends_of_evolves (sound : s.IsSound) {B : Set Nat}
    (evolves : s.store.Evolves s'.store ∅ B) (same : s'.bases = s.bases) : s.Extends s' := by
  refine ⟨evolves.restrict (Set.empty_subset B), fun kb isBase => ?_⟩
  rcases sound kb (same ▸ isBase) with ⟨base, shown⟩
  exact ⟨base, kb.lasting base evolves shown⟩

theorem IsSound.exists_shows_kb (sound : s.IsSound) : ∃ base, s.kb.Shows s.store base := by
  rw [kb, base, List.getD_eq_getElem?_getD]
  cases listed : s.bases[s.current]? with
  | none => exact ⟨⟨[]⟩, .nil⟩
  | some kb => exact sound kb (List.mem_of_getElem? listed)

/-! ### Steps -/

/-- What a builder makes, or leaves behind when it fails, changes no node that there was. -/
theorem extends_build {α γ : Type} {x : Builder α} {r : Except Error γ}
    {post : α → γ → Store → Set Nat → Prop} {next : Session → α → Session × Reply}
    (sound : s.IsSound) (comes : x.ComesTo s.store ∅ r post)
    (goes : ∀ (s' : Session) a c B, s'.IsSound → post a c s'.store B →
      s'.Extends (next s' a).1) :
    s.Extends (s.build x next).1 := by
  cases r with
  | error error =>
      rcases comes with ⟨store, failed, evolves⟩
      rw [build, failed]
      exact extends_of_evolves sound evolves rfl
  | ok c =>
      rcases comes with ⟨a, store, B, ran, evolves, holds⟩
      have first : s.Extends { s with store } := extends_of_evolves sound evolves rfl
      rw [build, ran]
      exact first.trans (goes { s with store } a c B first.sound holds)

theorem extends_tellHead (sound : s.IsSound) {head : Nat} {f : Formula}
    (shown : s.store.Shows head f) : s.Extends (s.tellHead head).1 := by
  refine ⟨.refl s.store Set.Subset.rfl, fun kb isBase => ?_⟩
  rcases List.mem_or_eq_of_mem_set isBase with isOld | rfl
  · exact sound kb isOld
  · rcases sound.exists_shows_kb with ⟨base, clauses⟩
    exact ⟨base.tell f, List.rel_append clauses (.cons shown .nil)⟩

theorem extends_addBase (sound : s.IsSound) {kb : Base} {base : KnowledgeBase}
    (shown : kb.Shows s.store base) : s.Extends (s.addBase kb).1 := by
  refine ⟨.refl s.store Set.Subset.rfl, fun kb' isBase => ?_⟩
  rcases List.mem_append.1 isBase with isOld | isNew
  · exact sound kb' isOld
  · rw [List.mem_singleton.1 isNew]
    exact ⟨base, shown⟩

theorem extends_prove (sound : s.IsSound) (name ask : String) (now : Float) :
    s.Extends (s.prove name ask now).1 := by
  rcases sound.exists_shows_kb with ⟨base, shown⟩
  rw [Session.prove]
  cases s.seat name with
  | error error => exact extends_self sound
  | ok seat =>
      have evolves := seat.engine.keeps_prove shown ask now
      dsimp only
      generalize seat.engine.prove s.kb ask now s.store = run at evolves ⊢
      exact extends_of_evolves sound evolves rfl

theorem extends_searchWith (sound : s.IsSound) (name : String)
    {run : Base → Ring.Satisfiability → Store → Store × Ring.Satisfiability × Except Error Reply}
    (keeps : ∀ found, s.store.Evolves (run s.kb found s.store).1 ∅ ∅) :
    s.Extends (s.searchWith name run).1 := by
  rw [searchWith]
  cases s.seat name with
  | error error => exact extends_self sound
  | ok seat =>
      rcases seat with ⟨name, ⟨options, watch, result, work⟩, subject⟩
      cases work with
      | satisfiability found =>
          have evolves := keeps found
          dsimp only
          generalize run s.kb found s.store = outcome at evolves ⊢
          exact extends_of_evolves sound evolves rfl
      | undecided | truthTable | chaining | refutation => exact extends_self sound

/-- A request changes no node that there was, whether it fails or not. -/
theorem extends_perform (sound : s.IsSound) (request : Request) :
    s.Extends (s.perform request).1 := by
  rcases sound.exists_shows_kb with ⟨base, shown⟩
  cases request with
  | tell text =>
      exact extends_build sound (comesTo_parseText text s.store) fun s' head f B sound shown =>
        extends_tellHead sound shown
  | tellAgain number =>
      rw [perform]
      cases listed : s.kb.clauses[number]? with
      | none => exact extends_self sound
      | some head =>
          rcases List.getElem?_eq_some_iff.1 listed with ⟨inRange, rfl⟩
          rcases List.forall₂_iff_get.1 shown with ⟨length, each⟩
          exact extends_tellHead sound (each number inRange (length ▸ inRange))
  | parse text =>
      exact extends_build sound (comesTo_parseText text s.store) fun s' head f B sound _ =>
        extends_self sound
  | copy =>
      have copying : s.kb.copy.ComesTo s.store ∅ (.ok base) fun kb base s' _ => kb.Shows s' base :=
        shown.yields_copy.imp fun kb s' B _ rings => rings.shows
      exact extends_build sound copying fun s' kb base B sound shown => extends_addBase sound shown
  | rephrase mode =>
      exact extends_build sound (shown.comesTo_rephrase mode) fun s' kb base B sound shown =>
        extends_addBase sound shown
  | use number =>
      rw [perform]
      cases s.bases[number]? with
      | none => exact extends_self sound
      | some kb => exact extends_of_evolves sound (.refl s.store (Set.empty_subset ∅)) rfl
  | index =>
      exact extends_build sound shown.comesTo_index fun s' made index B sound _ =>
        extends_self sound
  | engine name options kind =>
      exact extends_of_evolves sound (.refl s.store (Set.empty_subset ∅)) rfl
  | prove name ask now => exact extends_prove sound name ask now
  | question name ask =>
      rw [perform]
      refine extends_searchWith sound name fun found => ?_
      have evolves := (Satisfiability.agrees_prove shown ask found).evolves
      dsimp only
      generalize found.prove s.kb ask s.store = outcome at evolves ⊢
      exact evolves
  | decide name =>
      rw [perform]
      refine extends_searchWith sound name fun found => ?_
      have evolves := (Satisfiability.agrees_decideSat shown found).evolves
      dsimp only
      generalize found.decideSat s.kb s.store = outcome at evolves ⊢
      exact evolves

/-! ### Requests that tell nothing -/

theorem prefix_build {α : Type} {x : Builder α} {next : Session → α → Session × Reply}
    (goes : ∀ (s' : Session) a, s'.bases <+: (next s' a).1.bases) :
    s.bases <+: (s.build x next).1.bases := by
  rw [build]
  cases x s.store with
  | error error store => exact List.prefix_rfl
  | ok a store => exact goes { s with store } a

theorem bases_prove (name ask : String) (now : Float) :
    (s.prove name ask now).1.bases = s.bases := by
  rw [Session.prove]
  cases s.seat name <;> rfl

theorem bases_searchWith (name : String)
    (run : Base → Ring.Satisfiability → Store → Store × Ring.Satisfiability × Except Error Reply) :
    (s.searchWith name run).1.bases = s.bases := by
  rw [searchWith]
  cases s.seat name with
  | error error => rfl
  | ok seat =>
      rcases seat with ⟨name, ⟨options, watch, result, work⟩, subject⟩
      cases work <;> rfl

/-- A request that tells nothing leaves the knowledge bases as they are; it may add some. -/
theorem prefix_perform {request : Request} (untold : request.tells = false) :
    s.bases <+: (s.perform request).1.bases := by
  cases request with
  | tell text | tellAgain number => contradiction
  | parse text | index => exact prefix_build fun s' _ => List.prefix_rfl
  | copy | rephrase mode => exact prefix_build fun s' kb => List.prefix_append s'.bases [kb]
  | use number =>
      rw [perform]
      cases s.bases[number]? <;> exact List.prefix_rfl
  | engine name options kind => exact List.prefix_rfl
  | prove name ask now =>
      rw [perform, bases_prove]
  | question name ask | decide name =>
      rw [perform, bases_searchWith]

/-! ### Runs -/

theorem extends_run (sound : s.IsSound) (requests : List Request) : s.Extends (s.run requests) := by
  induction requests generalizing s with
  | nil => exact extends_self sound
  | cons request requests ih =>
      have first := extends_perform sound request
      exact first.trans (ih first.sound)

theorem prefix_run {requests : List Request} (untold : ∀ request ∈ requests, request.tells = false) :
    s.bases <+: (s.run requests).bases := by
  induction requests generalizing s with
  | nil => exact List.prefix_rfl
  | cons request requests ih =>
      rcases List.forall_mem_cons.1 untold with ⟨first, untold⟩
      exact (prefix_perform first).trans (ih untold)

theorem isSound_ofText {tell : String} (told : ofText tell = .ok s) : s.IsSound := by
  have comes := Base.comesTo_ofText tell .empty
  rw [ofText] at told
  cases outcome : KnowledgeBase.ofText tell with
  | error error =>
      rw [outcome] at comes
      rcases comes with ⟨store, failed, _⟩
      rw [failed] at told
      cases told
  | ok base =>
      rw [outcome] at comes
      rcases comes with ⟨kb, store, B, ran, _, shown⟩
      rw [ran] at told
      cases told
      intro kb' isBase
      rw [List.mem_singleton.1 isBase]
      exact ⟨base, shown⟩

/-- Whatever is asked of a session, no node that there was changes, and only telling changes a
knowledge base.  Every knowledge base shows afterwards what it showed before, and whatever engine is
asked about it then, and whatever that engine found before, it changes no node either and comes to
the same as a new engine on any knowledge base in any store that shows the same formulas. -/
theorem run_does_not_interfere (sound : s.IsSound) (requests : List Request) :
    (∀ h < s.store.size, (s.run requests).store.node h = s.store.node h) ∧
      ((∀ request ∈ requests, request.tells = false) → s.bases <+: (s.run requests).bases) ∧
      (s.run requests).IsSound ∧
      (∀ kb base, Base.Shows kb s.store base → kb.Shows (s.run requests).store base) ∧
      ∀ kb base, Base.Shows kb (s.run requests).store base →
        ∀ (engine : Ring.Engine) (ask : String) (now : Float),
          (∀ h < (s.run requests).store.size,
            (engine.prove kb ask now (s.run requests).store).1.node h =
              (s.run requests).store.node h) ∧
          ∀ (kb' : Base) (t : Store) (later : Float), kb'.Shows t base →
            Engine.SameOutcome (engine.prove kb ask now (s.run requests).store)
              ((Ring.Engine.ofKind engine.options engine.work.kind).prove kb' ask later t) := by
  have gone := extends_run sound requests
  refine ⟨gone.evolves.keeps, prefix_run, gone.sound,
    fun kb base shown => kb.lasting base gone.evolves shown, fun kb base shown engine ask now => ?_⟩
  refine ⟨(engine.keeps_prove shown ask now).keeps, fun kb' t later shown' => ?_⟩
  have fresh : engine.work.kind = (Ring.Engine.ofKind engine.options engine.work.kind).work.kind :=
    (Work.kind_ofKind engine.work).symm
  refine Engine.sameOutcome_prove shown shown' ?_ fresh ask now later
  rfl

/-- A text that is no formula, a refutation and an index come between; an engine that found something
else before then proves the symbol, as a new engine does in a store that holds another node. -/
theorem run_does_not_interfere_of_rules :
    ∃ (s : Session) (requests : List Request) (engine : Ring.Engine) (kb : Base) (t : Store),
      ofText "a=>b;a" = .ok s ∧ s.IsSound ∧
      Base.ofText "a=>b;a" (Store.empty.add (.symbol "z") true) = .ok kb t ∧
      s.store.size < (s.run requests).store.size ∧
      (∀ h < s.store.size, (s.run requests).store.node h = s.store.node h) ∧
      s.bases <+: (s.run requests).bases ∧
      (engine.prove s.kb "b" 0 (s.run requests).store).2.2 = .ok "YES: a, b" ∧
      Engine.SameOutcome (engine.prove s.kb "b" 0 (s.run requests).store)
        ((Ring.Engine.ofKind engine.options engine.work.kind).prove kb "b" 0 t) := by
  have made : ∃ (requests : List Request) (engine : Ring.Engine),
      (∀ request ∈ requests, request.tells = false) ∧ ∃ s, ofText "a=>b;a" = .ok s ∧
      s.store.size < (s.run requests).store.size ∧
      (engine.prove s.kb "b" 0 (s.run requests).store).2.2 = .ok "YES: a, b" :=
    ⟨[.parse "a&(", .engine "rs" .standard (.refutation .initial), .prove "rs" "b" 0, .index],
      ⟨.standard, .empty, some "NO", .chaining (some .forward) ⟨["z"], none⟩⟩,
      by decide, by decide +kernel⟩
  have read : ∃ base, KnowledgeBase.ofText "a=>b;a" = .ok base := by decide +kernel
  rcases made with ⟨requests, engine, untold, s, told, grown, answered⟩
  rcases read with ⟨base, read⟩
  have comes := Base.comesTo_ofText "a=>b;a" .empty
  have comes' := Base.comesTo_ofText "a=>b;a" (Store.empty.add (.symbol "z") true)
  rw [read] at comes comes'
  rcases comes with ⟨own, store, B, ran, _, shown⟩
  rcases comes' with ⟨kb, t, C, ran', _, shown'⟩
  have sound := isSound_ofText told
  rcases run_does_not_interfere sound requests with ⟨kept, bases, _, shows, answers⟩
  have isOwn : s.kb.Shows s.store base := by
    rw [ofText, ran] at told
    cases told
    exact shown
  have same := (answers s.kb base (shows s.kb base isOwn) engine "b" 0).2 kb t 0 shown'
  exact ⟨s, requests, engine, kb, t, told, sound, ran', grown, kept, bases untold, answered, same⟩

end Session

end Entail
