import Entail.Connective
import Entail.Text.Digit

/-!
# Errors

Every cause for which an operation of the library can fail, and its wording.
`Error.isReported` tells the causes that lie in what was told or asked; a
command line answers those with a message instead of stopping short.
-/

namespace Entail

/-- Why an operation failed. -/
inductive Error
  /-- A parenthesis of a formula text has no partner. -/
  | unbalanced (position : Nat) (text : String)
  | emptyParentheses (text : String)
  | misplacedNegation (position : Nat) (text : String)
  | misplacedOperand (operand : String) (position : Nat) (text : String)
  | unknownReference (reference : String) (text : String)
  /-- A whole number is written with more digits than are read. -/
  | oversizeNumber (digits : Nat)
  | missingLeftOperand (connective : Connective) (position : Nat) (text : String)
  | missingOperand (text : String)
  | emptyFormula (text : String)
  | unreadable (position : Nat) (text : String)
  /-- A run of connective characters in a formula text spells no connective. -/
  | unsupportedRun (run : String) (position : Nat) (text : String)
  | unsupportedConnective (spelling : String)
  | noDual (connective : Connective)
  | unknownMode (mode : String)
  | severalImplications (formula : String)
  | notDisjunctive (formula : String)
  | severalPositives (formula : String) (names : List String)
  /-- A formula of one store was told to the knowledge base of another. -/
  | foreignFormula (formula : String)
  | notASymbol (formula : String)
  | unsupportedAsk (ask : String)
  | tooManySymbols (count : Nat) (limit : Int)
  | tooManyColumns (count : Nat)
  | unvaluedSymbol (model : Int) (symbol : String)
  | unlistedSymbol (symbol : String)
  | unknownMethod (key : String)
  /-- The engine of this name has no decision procedure. -/
  | noProcedure (engine : String)
  /-- The chaining engine of this name has no search strategy. -/
  | noStrategy (engine : String)
  | noKnowledgeBase
  | noQuery
  | noFileName
  | unreadableLimit (text : String)
  /-- An input file lacks one of its two sections. -/
  | unsectionedInput
  /-- A position or a handle lies outside of what it points into. -/
  | outOfRange
  /-- A group of a ring contains itself. -/
  | endlessGroup
  /-- An unlinked node was used as a member of a ring. -/
  | unlinked
  /-- A node holds another kind of payload than the one asked for. -/
  | otherPayload
  | unknownMember (name : String)
  | unknownLevel (name : String)
  | unknownLabel (label : String)
  /-- A setting that holds no entries was asked for one. -/
  | notASection
  /-- A setting that holds no entries was given one. -/
  | notAssignable
  /-- A setting holds a value of a kind that it cannot have. -/
  | unsuitable
  /-- A value in a series of pairs has another number of parts. -/
  | notAPair (position : Nat) (parts : Nat)
  /-- A setting that is to be a text is none. -/
  | notAText
  /-- A number is too large for the kind of number that it is turned into. -/
  | tooLarge
  /-- The value of no number was to be turned into a whole number. -/
  | notANumber
  | malformedSettings
  | missingFile (path : String)
  deriving DecidableEq, Repr

namespace Error

/-- A well-formed input file, shown to the writer of a malformed one. -/
def inputExample : String :=
  "TELL\na&b;b&c;c||d;\nASK\nd"

private def quoted (text : String) : String :=
  "\"" ++ text ++ "\""

/-- The wording of an error. -/
def message : Error → String
  | unbalanced position text =>
    "Unbalanced parenthesis at position " ++ toString position ++ " in " ++ quoted text
  | emptyParentheses text => "Empty parentheses in " ++ quoted text
  | misplacedNegation position text =>
    "Negation at position " ++ toString position ++ " follows an operand in " ++ quoted text
  | misplacedOperand operand position text =>
    "Operand " ++ quoted operand ++ " at position " ++ toString position ++
      " follows another operand in " ++ quoted text
  | unknownReference reference text =>
    "Unknown sub-formula reference " ++ quoted reference ++ " in " ++ quoted text
  | oversizeNumber digits =>
    "Exceeds the limit (" ++ toString Text.maxDigits ++
      " digits) for integer string conversion: value has " ++ toString digits ++
      " digits; use sys.set_int_max_str_digits() to increase the limit"
  | missingLeftOperand connective position text =>
    "Connective " ++ quoted connective.spelling ++ " at position " ++ toString position ++
      " lacks a left operand in " ++ quoted text
  | missingOperand text => "Formula " ++ quoted text ++ " ends without an operand"
  | emptyFormula text => "Empty formula: " ++ quoted text
  | unreadable position text =>
    "Cannot parse " ++ quoted text ++ " at position " ++ toString position
  | unsupportedRun run position text =>
    "Unsupported connective " ++ quoted run ++ " at position " ++ toString position ++
      " in " ++ quoted text
  | unsupportedConnective spelling => "Unsupported connective: " ++ quoted spelling
  | noDual connective => "Connective " ++ quoted connective.spelling ++ " cannot be inverted"
  | unknownMode mode => "Unknown rephrasing mode: " ++ mode
  | severalImplications formula => quoted formula ++ " holds more than one implication"
  | notDisjunctive formula => quoted formula ++ " does not reduce to a disjunction"
  | severalPositives formula names =>
    quoted formula ++ " has more than one positive literal: " ++ ", ".intercalate names
  | foreignFormula formula => "Formula " ++ formula ++ " lives in a foreign arena"
  | notASymbol formula =>
    "Chaining can only be asked for a single symbol, got " ++ quoted formula
  | unsupportedAsk ask =>
    "Ask mode " ++ quoted ask ++
      " is not supported, use one of satisfiable, unsatisfiable, raw"
  | tooManySymbols count limit =>
    "The knowledge base has " ++ toString count ++
      " symbols, the truth table supports at most " ++ toString limit
  | tooManyColumns count =>
    "Cannot enumerate " ++ toString count ++ " symbols, at most 62 are supported"
  | unvaluedSymbol model symbol =>
    "Model #" ++ toString model ++ " has no value for symbol " ++ quoted symbol
  | unlistedSymbol symbol => "The truth table has no column for symbol " ++ quoted symbol
  | unknownMethod key =>
    "The method named " ++ quoted key ++ " is not supported by this program!"
  | noProcedure engine => engine ++ " does not implement _prove()"
  | noStrategy engine => engine ++ " does not implement chain()"
  | noKnowledgeBase => "No knowledge base specified"
  | noQuery => "No query specified"
  | noFileName => "no filename specified"
  | unreadableLimit text => "invalid literal for int() with base 10: " ++ text
  | unsectionedInput =>
    "File content's format is not supported! Here is an example:\n" ++ inputExample
  | outOfRange => "index out of range"
  | endlessGroup => "the group contains itself"
  | unlinked => "the node has no neighbours"
  | otherPayload => "the node has another kind of payload"
  | unknownMember name => "no method is called " ++ quoted name
  | unknownLevel name => "no log level is called " ++ quoted name
  | unknownLabel label => "Unknown tag: " ++ label
  | notASection => "the setting has no entries"
  | notAssignable => "the setting does not take entries"
  | unsuitable => "the setting cannot hold a value of this kind"
  | notAPair position parts =>
    "dictionary update sequence element #" ++ toString position ++ " has length " ++
      toString parts ++ "; 2 is required"
  | notAText => "the setting is not a text"
  | tooLarge => "the number is too large"
  | notANumber => "cannot convert float NaN to integer"
  | malformedSettings => "the settings file is malformed"
  | missingFile path => "no such file: " ++ path

/-- The causes that lie in what was told, asked or chosen. -/
def isReported : Error → Bool
  | unbalanced .. | emptyParentheses .. | misplacedNegation .. | misplacedOperand ..
  | unknownReference .. | missingLeftOperand .. | missingOperand .. | emptyFormula ..
  | unreadable .. | unsupportedRun .. | unsupportedConnective .. | severalImplications ..
  | notDisjunctive .. | severalPositives .. | notASymbol .. | unsupportedAsk ..
  | tooManySymbols .. | tooManyColumns .. | unvaluedSymbol .. | unlistedSymbol ..
  | unknownMethod .. | unsectionedInput => true
  | _ => false

end Error

end Entail
