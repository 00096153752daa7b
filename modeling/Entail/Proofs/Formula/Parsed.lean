import Entail.Proofs.Formula.Precedence
import Entail.Proofs.Formula.Printing
import Entail.Proofs.Outcome

/-!
# What parsed formulas are made of

Whatever text is parsed, its operands are names and formulas parsed before, and
its rows are grouped by precedence.  So a property of formulas that grouping
hands on from the operands to the whole row holds of every parsed formula.
-/

namespace Entail

/-! ### Tokens -/

/-- The names that tokens spell can be written. -/
def Token.IsWritable : Token → Prop
  | .name chars => chars ≠ [] ∧ ∀ c ∈ chars, isNameChar c = true
  | _ => True

theorem Token.isWritable_of_read? {cs rest : List Char} {token : Token}
    (read : read? cs = some (token, rest)) : token.IsWritable := by
  unfold read? at read
  split at read
  case h_1 =>
    rw [ofDigits?] at read
    split at read
    · contradiction
    · cases read
      trivial
  case h_7 =>
    rw [ofName?] at read
    split at read
    · contradiction
    · next notEmpty =>
        cases read
        exact ⟨notEmpty, fun c isChar => List.all_eq_true.1 (List.all_takeWhile) c isChar⟩
  all_goals
    cases read
    trivial

/-- The token is written with the given characters, and its name can be written. -/
def Token.IsIn (cs : List Char) (token : Token) : Prop :=
  token.IsWritable ∧ token.chars ⊆ cs

theorem Token.IsIn.mono {cs cs' : List Char} {token : Token} (isIn : token.IsIn cs)
    (more : cs ⊆ cs') : token.IsIn cs' :=
  ⟨isIn.1, List.Subset.trans isIn.2 more⟩

theorem Scan.isIn_of_mem {position : Nat} {cs : List Char} {lexeme : Lexeme}
    (scanned : lexeme ∈ (Scan.startingAt position cs).lexemes) : lexeme.token.IsIn cs := by
  fun_induction Scan.startingAt position cs with
  | case1 => contradiction
  | case2 position cs body start token rest read _ tail ih =>
      have whole := (Token.chars_append_of_read? read).1
      have inside : token.chars ++ rest ⊆ cs := by
        rw [← whole]
        exact List.dropWhile_subset _
      rcases List.mem_cons.1 scanned with rfl | isBehind
      · exact ⟨Token.isWritable_of_read? read,
          List.Subset.trans (List.subset_append_left _ _) inside⟩
      · exact (ih isBehind).mono (List.Subset.trans (List.subset_append_right _ _) inside)

/-! ### Slots -/

/-- Every element of the row has the property. -/
def Row.Forall {α : Type} (P : α → Prop) (row : Row α) : Prop :=
  P row.first ∧ ∀ pair ∈ row.rest, P pair.2

theorem Row.Forall.cons {α : Type} {P : α → Prop} {x : α} {row : Row α} (first : P x)
    (rest : row.Forall P) (c : Connective) : (row.cons x c).Forall P :=
  ⟨first, List.forall_mem_cons.2 rest⟩

theorem Row.forall_append {α : Type} {P : α → Prop} {left right : Row α} {c : Connective} :
    (left.append c right).Forall P ↔ left.Forall P ∧ right.Forall P := by
  simp only [Forall, append, List.forall_mem_append, List.forall_mem_cons, and_assoc]

theorem Row.Forall.map {α β : Type} {P : α → Prop} {Q : β → Prop} {f : α → β} {row : Row α}
    (all : row.Forall P) (image : ∀ x, P x → Q (f x)) : (row.map f).Forall Q := by
  refine ⟨image _ all.1, fun pair isPair => ?_⟩
  rcases List.mem_map.1 isPair with ⟨source, isSource, rfl⟩
  exact image _ (all.2 source isSource)

/-- A slot that is a name written with the given characters or refers to one of the references. -/
inductive Slot.IsFrom {ρ : Type} (cs : List Char) (references : List ρ) : Slot ρ → Prop
  | symbol (negated : Bool) (name : Name) : name.chars ⊆ cs →
      IsFrom cs references (.symbol negated (String.ofList name.chars))
  | reference (negated : Bool) {target : ρ} : target ∈ references →
      IsFrom cs references (.reference negated target)

theorem RowContext.isFrom_of_resolve {ρ : Type} {row : RowContext ρ} {negated : Bool}
    {cs digits : List Char} {slot : Slot ρ} (resolved : row.resolve negated digits = .ok slot) :
    slot.IsFrom cs row.references := by
  rw [resolve] at resolved
  split at resolved
  · contradiction
  · split at resolved
    · next found =>
        cases resolved
        exact .reference negated (List.mem_of_getElem? found)
    · contradiction

mutual

theorem RowContext.isFrom_of_readOperand {ρ : Type} {row : RowContext ρ} {isFirst negated : Bool}
    {cs : List Char} {lexemes : List Lexeme} {slots : Row (Slot ρ)}
    (scanned : ∀ lexeme ∈ lexemes, lexeme.token.IsIn cs)
    (read : row.readOperand isFirst negated lexemes = .ok slots) :
    slots.Forall (Slot.IsFrom cs row.references) := by
  match lexemes with
  | [] =>
      rw [readOperand] at read
      split at read <;> contradiction
  | ⟨.negation, _⟩ :: rest =>
      exact isFrom_of_readOperand (List.forall_mem_cons.1 scanned).2 read
  | ⟨.name chars, _⟩ :: rest =>
      rcases List.forall_mem_cons.1 scanned with ⟨⟨⟨nonempty, plain⟩, inside⟩, scanned⟩
      exact isFrom_of_readLink (.symbol negated ⟨chars, nonempty, plain⟩ inside) scanned read
  | ⟨.reference digits, _⟩ :: rest =>
      rw [readOperand] at read
      split at read
      · next resolved =>
          exact isFrom_of_readLink (isFrom_of_resolve resolved) (List.forall_mem_cons.1 scanned).2
            read
      · contradiction
  | ⟨.connective _, _⟩ :: _ => contradiction

theorem RowContext.isFrom_of_readLink {ρ : Type} {row : RowContext ρ} {x : Slot ρ}
    {cs : List Char} {lexemes : List Lexeme} {slots : Row (Slot ρ)}
    (isFrom : x.IsFrom cs row.references) (scanned : ∀ lexeme ∈ lexemes, lexeme.token.IsIn cs)
    (read : row.readLink x lexemes = .ok slots) :
    slots.Forall (Slot.IsFrom cs row.references) := by
  match lexemes with
  | [] =>
      rw [readLink] at read
      split at read
      · contradiction
      · cases read
        exact ⟨isFrom, List.forall_mem_nil _⟩
  | ⟨.connective c, _⟩ :: rest =>
      rcases map_eq_ok_iff.1 read with ⟨restSlots, readRest, rfl⟩
      exact .cons isFrom (isFrom_of_readOperand (List.forall_mem_cons.1 scanned).2 readRest) c
  | ⟨.negation, _⟩ :: _ => contradiction
  | ⟨.name _, _⟩ :: _ => contradiction
  | ⟨.reference _, _⟩ :: _ => contradiction

end

/-- The slots of a row that is read are names out of its text, and references. -/
theorem Row.isFrom_of_ofText {ρ : Type} {references : List ρ} {text : List Char}
    {slots : Row (Slot ρ)} (read : Row.ofText references text = .ok slots) :
    slots.Forall (Slot.IsFrom (Text.expandTabs text) references) :=
  RowContext.isFrom_of_readOperand (fun _ scanned => Scan.isIn_of_mem scanned) read

/-! ### Formulas -/

/-- The characters that the parser puts into a text: the blanks that stand for a tab, and the marks
and digits of back-references. -/
def IsInserted (c : Char) : Prop :=
  c = ' ' ∨ c = '@' ∨ Text.isDigit c = true

theorem mem_expandTabsFrom {c : Char} {cs : List Char} {column : Nat}
    (isChar : c ∈ Text.expandTabsFrom column cs) : IsInserted c ∨ c ∈ cs := by
  fun_induction Text.expandTabsFrom column cs with
  | case1 => contradiction
  | case2 column rest _ ih =>
      rcases List.mem_append.1 isChar with isBlank | isBehind
      · exact .inl (.inl (List.eq_of_mem_replicate isBlank))
      · exact (ih isBehind).imp id (List.mem_cons_of_mem _)
  | case3 column c rest _ _ ih | case4 column c rest _ _ ih =>
      rcases List.mem_cons.1 isChar with rfl | isBehind
      · exact .inr List.mem_cons_self
      · exact (ih isBehind).imp id (List.mem_cons_of_mem _)

/-- A name that can be written with characters that `Q` holds of. -/
def IsNameOf (Q : Char → Prop) (text : String) : Prop :=
  IsName text ∧ ∀ c ∈ text.toList, Q c

/-- A name of characters that `Q` holds of, or a group of a formula with the property `P`. -/
def Operand.Over (Q : Char → Prop) (P : Formula → Prop) : Operand → Prop
  | .symbol _ name => IsNameOf Q name
  | .group _ content => P content

section

variable {Q : Char → Prop} (inserted : ∀ c, IsInserted c → Q c) {P : Formula → Prop}
include inserted

theorem Slot.IsFrom.isOver {text : List Char} (plain : ∀ c ∈ text, Q c) {references : List Formula}
    (all : ∀ f ∈ references, P f) {slot : Slot Formula}
    (isFrom : slot.IsFrom (Text.expandTabs text) references) : slot.operand.Over Q P := by
  cases isFrom with
  | symbol negated name inside =>
      refine ⟨⟨name, rfl⟩, fun c isChar => ?_⟩
      rw [String.toList_ofList] at isChar
      rcases mem_expandTabsFrom (inside isChar) with isInserted | isWritten
      · exact inserted c isInserted
      · exact plain c isWritten
  | reference negated isReference => exact all _ isReference

theorem Formula.Nest.plain_of_find? {text : List Char} (plain : ∀ c ∈ text, Q c) {nest : Nest}
    (found : find? text = some nest) :
    (∀ c ∈ nest.inner, Q c) ∧ ∀ number, ∀ c ∈ nest.replace number, Q c := by
  rw [whole_of_find? found] at plain
  simp only [whole, List.cons_append, List.append_assoc, List.forall_mem_append,
    List.forall_mem_cons] at plain
  rcases plain with ⟨before, _, inner, _, after⟩
  refine ⟨inner, fun number => ?_⟩
  simp only [replace, Token.referenceMark, List.forall_mem_append, List.forall_mem_cons]
  have mark : Q '@' := inserted _ (.inr (.inl rfl))
  have digits : ∀ c ∈ Text.digitsOf number, Q c := fun c isDigit =>
    inserted c (.inr (.inr (Text.isDigit_of_mem_digitsOf isDigit)))
  exact ⟨⟨⟨before, mark, mark, List.forall_mem_nil _⟩, digits⟩, after⟩

variable (handsOn : ∀ {row : Row Operand} {f : Formula}, Grouped row f →
  row.Forall (Operand.Over Q P) → P f)
include handsOn

theorem Formula.of_ofRow {references : List Formula} (all : ∀ f ∈ references, P f)
    {text : List Char} (plain : ∀ c ∈ text, Q c) {f : Formula}
    (read : ofRow references text = .ok f) : P f := by
  rcases map_eq_ok_iff.1 read with ⟨slots, readSlots, rfl⟩
  exact handsOn (Row.grouped_byPrecedence _)
    ((Row.isFrom_of_ofText readSlots).map fun _ isFrom => isFrom.isOver inserted plain all)

theorem Formula.of_readNests {source : List Char} {references : List Formula} {text : List Char}
    (all : ∀ f ∈ references, P f) (plain : ∀ c ∈ text, Q c) {f : Formula}
    (read : readNests (m := Except Error) ofRow source references text = .ok f) : P f := by
  rw [readNests] at read
  split at read
  · exact of_ofRow inserted handsOn all plain read
  · next nest found =>
      split at read
      · contradiction
      · rcases bind_eq_ok_iff.1 read with ⟨content, readContent, readRest⟩
        rcases Nest.plain_of_find? inserted plain found with ⟨inner, replaced⟩
        have := Nest.count_close_replace_lt found references.length
        have more : ∀ f ∈ references ++ [content], P f := by
          rw [List.forall_mem_append, List.forall_mem_singleton]
          exact ⟨all, of_ofRow inserted handsOn all inner readContent⟩
        exact of_readNests more (replaced references.length) readRest
termination_by text.count ')'

/-- A property that grouping hands on holds of what is parsed. -/
theorem Formula.of_parse {text : String} (plain : ∀ c ∈ text.toList, Q c) {f : Formula}
    (parsed : parse text = .ok f) : P f := by
  rw [parse, readText] at parsed
  split at parsed
  · contradiction
  · exact of_readNests inserted handsOn (List.forall_mem_nil _) plain parsed

end

/-- Grouping makes rows of at most one connective. -/
theorem Grouped.isUniform {row : Row Operand} {f : Formula} (grouped : Grouped row f)
    (uniform : row.Forall (·.IsUniform fun _ => True)) : f.IsUniform fun _ => True := by
  induction grouped with
  | single x => exact uniform.1
  | split c _ _ _ _ ih ih' =>
      rcases Row.forall_append.1 uniform with ⟨left, right⟩
      exact Formula.isUniform_pair.2 ⟨trivial, (ih left).toOperand, (ih' right).toOperand⟩

theorem Formula.isUniform_of_parse {text : String} {f : Formula} (parsed : parse text = .ok f) :
    f.IsUniform fun _ => True := by
  refine of_parse (Q := fun _ => True) (fun _ _ => trivial)
    (fun grouped operands => grouped.isUniform ?_) (fun _ _ => trivial) parsed
  have uniform (x : Operand) (isOver : x.Over (fun _ => True) (·.IsUniform fun _ => True)) :
      x.IsUniform fun _ => True := by
    cases x with
    | symbol negated name => trivial
    | group negated content => exact isOver
  exact ⟨uniform _ operands.1, fun pair isPair => uniform _ (operands.2 pair isPair)⟩

/-- Grouping adds no names. -/
theorem Grouped.forall_names {N : String → Prop} {row : Row Operand} {f : Formula}
    (grouped : Grouped row f) (all : row.Forall fun x => ∀ name ∈ x.names, N name) :
    ∀ name ∈ f.names, N name := by
  induction grouped with
  | single x => exact all.1
  | @split left right f g c _ _ _ _ ih ih' =>
      rcases Row.forall_append.1 all with ⟨leftAll, rightAll⟩
      refine List.forall_mem_append.2 ⟨?_, ?_⟩
      · rw [Formula.names_toOperand]
        exact ih leftAll
      · rw [Formula.names, Formula.names_toOperand]
        exact ih' rightAll

/-- The names of a formula that is parsed are written with the characters of its text and those
that the parser puts in. -/
theorem Formula.isNameOf_of_parse {Q : Char → Prop} (inserted : ∀ c, IsInserted c → Q c)
    {text : String} (plain : ∀ c ∈ text.toList, Q c) {f : Formula} (parsed : parse text = .ok f) :
    ∀ name ∈ f.names, IsNameOf Q name := by
  refine of_parse inserted (P := fun f => ∀ name ∈ f.names, IsNameOf Q name)
    (fun grouped operands => grouped.forall_names ?_) plain parsed
  have named (x : Operand) (isOver : x.Over Q fun f => ∀ name ∈ f.names, IsNameOf Q name) :
      ∀ name ∈ x.names, IsNameOf Q name := by
    cases x with
    | symbol negated name => exact List.forall_mem_singleton.2 isOver
    | group negated content => exact isOver
  exact ⟨named _ operands.1, fun pair isPair => named _ (operands.2 pair isPair)⟩

theorem Formula.isWritable_of_parse {text : String} {f : Formula} (parsed : parse text = .ok f) :
    f.IsWritable := fun name isName =>
  (isNameOf_of_parse (Q := fun _ => True) (fun _ _ => trivial) (fun _ _ => trivial) parsed
    name isName).1

end Entail
