import Entail.Formula.Parser
import Entail.Formula.Printer
import Entail.NormalForm.Choice
import Entail.Text.Split

/-!
# Knowledge bases

A knowledge base is the list of formulas that were told.  They are told as
clause texts, separated by semicolons; blanks in a clause text do not matter.
-/

namespace Entail

/-- Reads a formula of which the blanks do not matter. -/
def Formula.ofText (text : String) : Except Error Formula :=
  Formula.parse (Text.squeeze text)

/-- The nonempty clause texts of a text, without blanks. -/
def clauseTexts (tell : String) : List String :=
  ((Text.split ';' (Text.removeBlanks tell.toList)).filter (!·.isEmpty)).map String.ofList

/-- The formulas told, in order. -/
structure KnowledgeBase where
  clauses : List Formula
  deriving DecidableEq

namespace KnowledgeBase

/-- The knowledge base that nothing was told. -/
def empty : KnowledgeBase := ⟨[]⟩

/-- The knowledge base that was told the clauses of a text. -/
def ofText (tell : String) : Except Error KnowledgeBase :=
  ((clauseTexts tell).mapM Formula.ofText).map KnowledgeBase.mk

/-- The knowledge base that was told one more formula. -/
def tell (kb : KnowledgeBase) (f : Formula) : KnowledgeBase :=
  ⟨kb.clauses ++ [f]⟩

/-- The distinct symbol names of all clauses in order of first appearance. -/
def symbols (kb : KnowledgeBase) : List String :=
  (kb.clauses.flatMap Formula.names).eraseDups

/-- The knowledge base with every clause in the normal form of the given name. -/
def rephrase (kb : KnowledgeBase) (mode : String) : Except Error KnowledgeBase :=
  (kb.clauses.mapM fun f =>
    (NormalForm.ofMode mode).bind fun form => f.normalize form).map KnowledgeBase.mk

/-- The clauses, separated by semicolons. -/
def text (kb : KnowledgeBase) : String :=
  ";".intercalate (kb.clauses.map Formula.text)

/-- The numbered clauses, one on a line. -/
def listing (kb : KnowledgeBase) : String :=
  String.join (kb.clauses.zipIdx.map fun entry =>
    Text.padLeft 3 (toString entry.2) ++ ": " ++ entry.1.text ++ "\n")

end KnowledgeBase

end Entail
