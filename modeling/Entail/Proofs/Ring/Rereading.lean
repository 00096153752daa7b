import Entail.Proofs.Formula.Regrouping
import Entail.Proofs.KnowledgeBase
import Entail.Proofs.Ring.Horn
import Entail.Proofs.Ring.Parser
import Entail.Proofs.Ring.Sharing

/-!
# Texts of rings are read again

The text of a ring is parsed into a ring with the same values, as long as every
row of the first one uses one connective.  Normal forms are of this kind, so
that what was made of a parsed formula can be written and read again.
-/

namespace Entail

/-! ### Rings that are read as formulas are written as these are -/

theorem Formula.chars_ofPairs (x : Operand) (pairs : List (Connective × Operand)) :
    (ofPairs x pairs).chars =
      x.chars ++ pairs.flatMap fun pair => pair.1.spelling.toList ++ pair.2.chars := by
  induction pairs generalizing x with
  | nil => simp [ofPairs, chars]
  | cons pair pairs ih => simp [ofPairs, chars, ih]

namespace Ring

namespace Store

variable {s : Store} {inner : Nat → Except Error Formula} {write : Nat → Except Error (List Char)}

/-- The members of a ring begin with the node that they are asked of. -/
theorem exists_cons_of_walk {h : Nat} {members : List Nat} (walked : s.walk h = .ok members) :
    ∃ rest, members = h :: rest := by
  rcases bind_eq_ok_iff.1 walked with ⟨_, found, walked⟩
  rcases map_eq_ok_iff.1 found with ⟨n, found, _⟩
  rcases Nat.exists_eq_add_one_of_ne_zero (Nat.ne_zero_of_lt (lt_size_of_node found)) with
    ⟨bound, size⟩
  rw [size, walkFrom] at walked
  rcases bind_eq_ok_iff.1 walked with ⟨next, _, walked⟩
  split at walked
  · cases walked
    exact ⟨[], rfl⟩
  · split at walked
    · cases walked
      exact ⟨[], rfl⟩
    · rcases bind_eq_ok_iff.1 walked with ⟨rest, _, walked⟩
      cases walked
      exact ⟨rest, rfl⟩

theorem nodeCharsWith_of_operandWith (each : ∀ head f, inner head = .ok f → write head = .ok f.chars)
    {h : Nat} {x : Operand} (read : s.operandWith inner h = .ok x) :
    s.nodeCharsWith write h = .ok x.chars := by
  rcases bind_eq_ok_iff.1 read with ⟨⟨payload, negated, prev, next⟩, found, read⟩
  rw [nodeCharsWith, found]
  cases payload with
  | symbol name =>
      cases read
      rfl
  | link c => cases read
  | group head =>
      rcases bind_eq_ok_iff.1 read with ⟨f, content, read⟩
      cases read
      simp only [bind, Except.bind, each head f content]
      rfl

theorem exists_mapM_of_pairsWith (each : ∀ head f, inner head = .ok f → write head = .ok f.chars)
    {members : List Nat} {pairs : List (Connective × Operand)}
    (read : s.pairsWith inner members = .ok pairs) :
    ∃ texts, members.mapM (s.nodeCharsWith write) = .ok texts ∧
      texts.flatten = pairs.flatMap fun pair => pair.1.spelling.toList ++ pair.2.chars := by
  match members with
  | [] =>
      cases read
      exact ⟨[], rfl, rfl⟩
  | [_] => cases read
  | link :: operand :: rest =>
      rcases bind_eq_ok_iff.1 read with ⟨c, isLink, read⟩
      rcases bind_eq_ok_iff.1 read with ⟨x, isOperand, read⟩
      rcases bind_eq_ok_iff.1 read with ⟨behind, readRest, read⟩
      cases read
      rcases exists_mapM_of_pairsWith each readRest with ⟨texts, written, flat⟩
      have writtenLink : s.nodeCharsWith write link = .ok c.spelling.toList := by
        rcases bind_eq_ok_iff.1 isLink with ⟨payload, found, isLink⟩
        rcases map_eq_ok_iff.1 found with ⟨n, isNode, rfl⟩
        rw [nodeCharsWith, isNode]
        simp only [bind, Except.bind]
        split at isLink
        · next same =>
          cases isLink
          rw [same]
          rfl
        · cases isLink
      refine ⟨c.spelling.toList :: x.chars :: texts, ?_, by simp [flat]⟩
      simp only [List.mapM_cons, writtenLink, nodeCharsWith_of_operandWith each isOperand, written,
        bind, Except.bind]
      rfl

theorem charsTo_of_formulaTo {levels h : Nat} {f : Formula} (read : s.formulaTo levels h = .ok f) :
    s.charsTo levels h = .ok f.chars := by
  induction levels generalizing h f with
  | zero => cases read
  | succ levels ih =>
      rcases bind_eq_ok_iff.1 read with ⟨first, readFirst, read⟩
      rcases bind_eq_ok_iff.1 read with ⟨members, walked, read⟩
      rcases bind_eq_ok_iff.1 read with ⟨pairs, readPairs, read⟩
      cases read
      rcases exists_cons_of_walk walked with ⟨rest, rfl⟩
      have each (head : Nat) (f : Formula) := @ih head f
      rcases exists_mapM_of_pairsWith each readPairs with ⟨texts, written, flat⟩
      have writtenFirst := nodeCharsWith_of_operandWith each readFirst
      rw [List.tail_cons] at written
      simp only [charsTo, walked, List.mapM_cons, writtenFirst, written, bind, Except.bind]
      simp [Formula.chars_ofPairs, flat, pure, Except.pure]

/-- A ring that is read as a formula is written as the formula is. -/
theorem text_of_formula {h : Nat} {f : Formula} (read : s.formula h = .ok f) :
    s.text h = .ok f.text := by
  rw [text, charsTo_of_formulaTo read]
  rfl

/-! ### Reading again -/

/-- The text of the ring is parsed, whatever the store holds, into a ring with the values of the
formula. -/
def Rereads (s : Store) (head : Nat) (f : Formula) : Prop :=
  ∃ text g, s.text head = .ok text ∧ Formula.parse text = .ok g ∧
    (∀ t : Store, ∃ head' t', Builder.parse text t = .ok head' t' ∧ t'.formula head' = .ok g) ∧
    ∀ v, g.eval v = f.eval v

/-- A uniform formula whose names can be written is read again. -/
theorem rereads_of_isUniform {head : Nat} {f g : Formula} (read : s.formula head = .ok g)
    (uniform : g.IsUniform fun _ => True) (writable : g.IsWritable)
    (same : ∀ v, g.eval v = f.eval v) : s.Rereads head f := by
  refine ⟨g.text, g.regroup, text_of_formula read, Formula.parse_text writable, fun t => ?_,
    fun v => (uniform.eval_regroup v).trans (same v)⟩
  rcases Formula.exists_expression_text writable with ⟨e, text, reads⟩
  rcases e.exists_parse t with ⟨t', ring, parsed, laid, adds, reads'⟩
  rw [← text, ← reads'.unique reads]
  exact ⟨ring.head, t', parsed, laid.formula⟩

/-- A normal form of a formula that was made from a text is read again. -/
theorem rereads_of_normalize {form : NormalForm} {f g : Formula} (made : f.IsMade)
    (normal : f.normalize form = .ok g) {head : Nat} {A : Set Nat} (ring : s.HasRing head g A)
    (same : ∀ v, g.eval v = f.eval v) : s.Rereads head f := by
  rcases (made.normalized form normal).isUniform_and_isWritable with ⟨uniform, writable⟩
  exact rereads_of_isUniform ring.formula uniform writable same

end Store

namespace Builder

open Store

/-- A text is parsed into a store exactly if it is parsed alone, into a layout of the formula. -/
theorem exists_hasLayout_of_parse {text : String} {s s' : Store} {head : Nat}
    (parsed : parse text s = .ok head s') :
    ∃ f, Formula.parse text = .ok f ∧ s'.HasLayout head f := by
  have comes := comesTo_parse text s
  cases read : Formula.parse text with
  | error error =>
      rw [read] at comes
      rcases comes with ⟨t, failed, _⟩
      cases parsed.symm.trans failed
  | ok f =>
      rw [read] at comes
      rcases comes with ⟨_, _, _, ran, _, layout⟩
      cases parsed.symm.trans ran
      exact ⟨f, rfl, layout⟩

/-- The text of an expression is parsed into a ring that shares no nodes. -/
theorem exists_parse_isUnshared (e : Expression) (s : Store) :
    ∃ head s', parse e.text s = .ok head s' ∧ s'.IsUnshared head := by
  rcases e.exists_parse s with ⟨s', ring, parsed, laid, adds, _⟩
  have reached := laid.reachedTo (Nat.le_succ_of_le (laid.depth_le_size adds.distinct))
  exact ⟨ring.head, s', parsed, ring.handles, reached, adds.distinct⟩

/-- A ring whose rows use one connective each and whose names can be written is written as a text
that is parsed into a ring with the same values.  So are the conjunctive normal form of what was
parsed, and its Horn form if there is one, as long as the parsed formula reaches no node twice; the
text of an expression of the grammar never makes it do so. -/
theorem reread_keeps_values (s : Store) (head : Nat) (f : Formula) (text : String)
    (e : Expression) :
    (s.formula head = .ok f → f.IsUniform (fun _ => True) → f.IsWritable → s.Rereads head f) ∧
    (∀ head s', parse text s = .ok head s' → ∃ f, s'.formula head = .ok f ∧
      (s'.IsUnshared head →
        (∃ head₁ s₁, conjunctive head s' = .ok head₁ s₁ ∧ s₁.Rereads head₁ f) ∧
          ∀ head₁ s₁, horn head s' = .ok head₁ s₁ → s₁.Rereads head₁ f)) ∧
    ∃ head s', parse e.text s = .ok head s' ∧ s'.IsUnshared head := by
  refine ⟨fun read uniform writable => rereads_of_isUniform read uniform writable
    fun _ => rfl, ?_, exists_parse_isUnshared e s⟩
  intro head s' parsed
  rcases exists_hasLayout_of_parse parsed with ⟨f, parsedAlone, layout⟩
  refine ⟨f, layout.formula, fun unshared => ?_⟩
  rcases layout.exists_hasRing unshared with ⟨A, ring⟩
  have made := Formula.IsMade.parsed parsedAlone
  rcases made.isUniform_and_isWritable with ⟨uniform, writable⟩
  constructor
  · rcases uniform.exists_conjunctive writable with ⟨g, normal, _, same, _⟩
    rcases yields_conjunctive ring normal with ⟨head₁, s₁, B, ran, _, ring'⟩
    have normal' : f.normalize .conjunctive = .ok g := normal
    exact ⟨head₁, s₁, ran, rereads_of_normalize made normal' ring' same⟩
  · intro head₁ s₁ ran
    have comes := comesTo_horn ring
    cases normal : f.horn with
    | error error =>
        rw [normal] at comes
        rcases comes with ⟨t, failed, _⟩
        cases ran.symm.trans failed
    | ok g =>
        rw [normal] at comes
        rcases comes with ⟨_, _, B, ran', _, ring'⟩
        cases ran.symm.trans ran'
        have normal' : f.normalize .horn = .ok g := normal
        exact rereads_of_normalize made normal' ring' (Formula.horn_means uniform normal writable).2

/-- A row of two implications is read again as it is evaluated, from left to right, and so is the
Horn form of a constraint. -/
theorem reread_keeps_values_of_implications :
    (∃ s : Store, s.Rereads 0
      (.chain (.symbol false "a") .impl (.pair (.symbol false "b") .impl (.symbol false "c")))) ∧
    ∃ head s f head₁ s₁, parse "a=>~(b&c)" Store.empty = .ok head s ∧ s.formula head = .ok f ∧
      horn head s = .ok head₁ s₁ ∧ s₁.text head₁ = .ok "(a&b&c)=>false" ∧ s₁.Rereads head₁ f := by
  let row : Formula :=
    .chain (.symbol false "a") .impl (.pair (.symbol false "b") .impl (.symbol false "c"))
  let e : Expression := .single (.name 0 ⟨['a'], by decide, List.forall_mem_singleton.2 (by decide)⟩)
  constructor
  · have made : ∃ h s, addRow ⟨.symbol false "a", [(.impl, .symbol false "b"),
        (.impl, .symbol false "c")]⟩ Store.empty = .ok h s ∧ s.formula 0 = .ok row := by
      decide +kernel
    have uniform : row.IsUniform fun _ => True := by simp [row, Formula.pair, Formula.IsUniform,
      Operand.IsUniform]
    have writable : row.IsWritable := by
      have named : ∀ name ∈ ["a", "b", "c"], IsName name := by
        simp only [List.forall_mem_cons]
        exact ⟨isName_of_all (by decide) (by decide), isName_of_all (by decide) (by decide),
          isName_of_all (by decide) (by decide), List.forall_mem_nil _⟩
      exact named
    rcases made with ⟨_, s, _, read⟩
    exact ⟨s, (reread_keeps_values s 0 row "" e).1 read uniform writable⟩
  · have parsed : ∃ head s, parse "a=>~(b&c)" Store.empty = .ok head s ∧ s.IsUnshared head ∧
        ∃ head₁ s₁, horn head s = .ok head₁ s₁ ∧ s₁.text head₁ = .ok "(a&b&c)=>false" := by
      decide +kernel
    rcases parsed with ⟨head, s, parsed, unshared, head₁, s₁, ran, text⟩
    rcases (reread_keeps_values Store.empty 0 row "a=>~(b&c)" e).2.1 _ _ parsed with
      ⟨f, read, normalForms⟩
    exact ⟨head, s, f, head₁, s₁, parsed, read, ran, text, (normalForms unshared).2 head₁ s₁ ran⟩

/-- Two groups of a parsed text may own one ring; what is read again from the text of its
conjunctive normal form is then true where the parsed formula is false. -/
theorem reread_of_shared_ring :
    ∃ head s head₁ s₁ f text g, parse "(a)1&~(b)" Store.empty = .ok head s ∧
      s.formula head = .ok f ∧ conjunctive head s = .ok head₁ s₁ ∧ s₁.text head₁ = .ok text ∧
      Formula.parse text = .ok g ∧ f.eval (fun _ => false) = false ∧
      g.eval (fun _ => false) = true := by
  have made : ∃ head s, parse "(a)1&~(b)" Store.empty = .ok head s ∧
      ∃ f, s.formula head = .ok f ∧ ∃ head₁ s₁, conjunctive head s = .ok head₁ s₁ ∧
      ∃ text, s₁.text head₁ = .ok text ∧ ∃ g, Formula.parse text = .ok g ∧
        f.eval (fun _ => false) = false ∧ g.eval (fun _ => false) = true := by
    decide +kernel
  rcases made with ⟨head, s, parsed, f, read, head₁, s₁, ran, text, written, g, reread, values⟩
  exact ⟨head, s, head₁, s₁, f, text, g, parsed, read, ran, written, reread, values⟩

end Builder

end Ring

end Entail
