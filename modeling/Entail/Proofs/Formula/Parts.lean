import Entail.Formula.Printer
import Entail.NormalForm.Conjunctive

/-!
# Rows as lists of parts

A row is read as the list of its operands and connectives in turn.  What is
done to the row is done to the list, so that a row may be cut at any place.
-/

namespace Entail

/-- An operand or a connective of a row. -/
inductive Part
  | operand (x : Operand)
  | link (c : Connective)

namespace Part

def isLink : Part → Bool
  | operand _ => false
  | link _ => true

@[simp]
theorem isLink_operand (x : Operand) : (operand x).isLink = false :=
  rfl

@[simp]
theorem isLink_link (c : Connective) : (link c).isLink = true :=
  rfl

def isGroup : Part → Bool
  | operand (.group _ _) => true
  | _ => false

/-- The part with the given change made to it if it is an operand. -/
def map (change : Operand → Operand) : Part → Part
  | operand x => operand (change x)
  | link c => link c

/-- The written form of a part. -/
def chars : Part → List Char
  | operand x => x.chars
  | link c => c.spelling.toList

end Part

mutual

/-- The levels of rows in an operand. -/
def Operand.depth : Operand → Nat
  | .symbol _ _ => 0
  | .group _ content => content.depth

/-- The levels of rows in a row, its own one included. -/
def Formula.depth : Formula → Nat
  | .single x => x.depth + 1
  | .chain x _ rest => max (x.depth + 1) rest.depth

end

/-- The levels of rows in a part. -/
def Part.depth : Part → Nat
  | operand x => x.depth
  | link _ => 0

namespace Formula

/-- The operands and connectives of a row in turn, groups unopened. -/
def parts : Formula → List Part
  | single x => [.operand x]
  | chain x c rest => .operand x :: .link c :: rest.parts

theorem parts_ne_nil (f : Formula) : f.parts ≠ [] := by
  cases f <;> exact List.cons_ne_nil _ _

theorem parts_append (f : Formula) (c : Connective) (g : Formula) :
    (f.append c g).parts = f.parts ++ .link c :: g.parts := by
  cases f with
  | single x => rfl
  | chain x d rest => simp [append, parts, parts_append rest c g]

theorem parts_mapOperands (change : Operand → Operand) (f : Formula) :
    (f.mapOperands change).parts = f.parts.map (Part.map change) := by
  cases f with
  | single x => rfl
  | chain x c rest => simp [mapOperands, parts, Part.map, parts_mapOperands change rest]

theorem parts_mapHead (change : Operand → Operand) (f : Formula) :
    ∃ rest, f.parts = .operand f.head :: rest ∧
      (f.mapHead change).parts = .operand (change f.head) :: rest := by
  cases f with
  | single x => exact ⟨[], rfl, rfl⟩
  | chain x c rest => exact ⟨.link c :: rest.parts, rfl, rfl⟩

theorem parts_injective : Function.Injective parts := by
  intro f g same
  match f, g with
  | single x, single y => simpa [parts] using same
  | single x, chain y d rest => simp [parts] at same
  | chain x c rest, single y => simp [parts] at same
  | chain x c rest, chain y d tail =>
      simp only [parts, List.cons.injEq, Part.operand.injEq, Part.link.injEq] at same
      rcases same with ⟨rfl, rfl, same⟩
      rw [parts_injective same]

theorem filter_not_isLink (f : Formula) :
    f.parts.filter (!·.isLink) = f.operands.map .operand := by
  cases f with
  | single x => rfl
  | chain x c rest => simp [parts, operands, filter_not_isLink rest]

theorem filter_isLink (f : Formula) : f.parts.filter Part.isLink = f.links.map .link := by
  cases f with
  | single x => rfl
  | chain x c rest => simp [parts, links, List.filter_cons, filter_isLink rest]

theorem operand_mem_parts {f : Formula} {x : Operand} : .operand x ∈ f.parts ↔ x ∈ f.operands := by
  have isOperand : .operand x ∈ f.parts ↔ .operand x ∈ f.parts.filter (!·.isLink) := by simp
  rw [isOperand, filter_not_isLink]
  simp

theorem link_mem_parts {f : Formula} {c : Connective} : .link c ∈ f.parts ↔ c ∈ f.links := by
  have whole := congrArg (Part.link c ∈ ·) f.filter_isLink
  simpa using whole

theorem flatMap_chars (f : Formula) : f.parts.flatMap Part.chars = f.chars := by
  cases f with
  | single x => simp [parts, Part.chars, chars]
  | chain x c rest => simp [parts, Part.chars, chars, flatMap_chars rest]

theorem length_links_lt_length_parts (f : Formula) : f.links.length < f.parts.length := by
  cases f with
  | single x => exact Nat.zero_lt_one
  | chain x c rest =>
      have shorter := length_links_lt_length_parts rest
      simp only [links, parts, List.length_cons]
      omega

theorem one_le_depth (f : Formula) : 1 ≤ f.depth := by
  cases f with
  | single x => exact Nat.le_add_left ..
  | chain x c rest => exact Nat.le_trans (Nat.le_add_left ..) (Nat.le_max_left ..)

/-- The operands of a row have one level of rows less. -/
theorem depth_le_succ_iff {f : Formula} {levels : Nat} :
    f.depth ≤ levels + 1 ↔ ∀ p ∈ f.parts, p.depth ≤ levels := by
  cases f with
  | single x => simp [depth, parts, Part.depth]
  | chain x c rest =>
      rw [depth, Nat.max_le, depth_le_succ_iff (f := rest)]
      simp [parts, Part.depth]

theorem depth_lt_of_mem_parts {f : Formula} {p : Part} (isPart : p ∈ f.parts) :
    p.depth < f.depth := by
  rcases Nat.exists_eq_add_one.2 f.one_le_depth with ⟨levels, deep⟩
  rw [deep, Nat.lt_succ_iff]
  exact depth_le_succ_iff.1 (Nat.le_of_eq deep) p isPart

theorem depth_le_of_forall_lt {f : Formula} {n : Nat} (deep : ∀ p ∈ f.parts, p.depth < n) :
    f.depth ≤ n := by
  cases n with
  | zero =>
      rcases List.exists_mem_of_ne_nil _ f.parts_ne_nil with ⟨p, isPart⟩
      exact absurd (deep p isPart) (Nat.not_lt_zero _)
  | succ n => exact depth_le_succ_iff.2 fun p isPart => Nat.le_of_lt_succ (deep p isPart)

end Formula

end Entail
