import Entail.Text.Digit

/-!
# Arguments of the command line

Two arguments are required, a method and an input file; options may stand
anywhere among them.  A long option may be cut short as long as it is the only
one that begins so, and may have its value joined to it by an equals sign.
Short options may be joined, and the value of the last one to them, with an
equals sign behind the first one or without.  Behind two dashes, which have to
stand beside a plain argument, every argument is a plain one.
-/

namespace Entail.CommandLine

/-- An option. -/
inductive Flag
  | help
  | verbose
  | config
  | strict
  | debug
  | color
  deriving DecidableEq, Repr

namespace Flag

def all : List Flag := [help, verbose, config, strict, debug, color]

def longName : Flag → String
  | help => "--help"
  | verbose => "--verbose"
  | config => "--config"
  | strict => "--strict"
  | debug => "--debug"
  | color => "--color"

def letter? : Flag → Option Char
  | help => some 'h'
  | verbose => some 'v'
  | config => some 'c'
  | _ => none

def takesValue : Flag → Bool
  | config | debug => true
  | _ => false

/-- The option that a whole argument spells. -/
def ofSpelling? (spelling : List Char) : Option Flag :=
  match spelling with
  | ['-', c] => all.find? (·.letter? == some c)
  | _ => all.find? fun flag => flag.longName.toList == spelling

/-- The options that begin with the given characters. -/
def beginningWith (start : List Char) : List Flag :=
  all.filter fun flag => start.isPrefixOf flag.longName.toList

end Flag

/-- Why there is nothing to run. -/
inductive Refusal
  /-- The arguments do not make up a command. -/
  | misuse
  /-- An explanation was asked for. -/
  | help
  deriving DecidableEq, Repr

/-- What an argument is. -/
inductive Argument
  | plain (text : String)
  /-- An option and the text joined to it, if there is any or an equals sign announces it. -/
  | option (flag : Flag) (isShort : Bool) (joined : Option (List Char))
  | unknown
  | dashes
  deriving DecidableEq, Repr

/-- Whether an argument looks like a negative number; a line feed may follow it. -/
def isNegativeNumber (cs : List Char) : Bool :=
  let isEnd (cs : List Char) : Bool := cs = [] || cs = ['\n']
  match cs with
  | '-' :: rest =>
    let digits := rest.takeWhile Text.isDigit
    match rest.drop digits.length with
    | '.' :: fraction =>
      let places := fraction.takeWhile Text.isDigit
      !places.isEmpty && isEnd (fraction.drop places.length)
    | behind => !digits.isEmpty && isEnd behind
  | _ => false

namespace Argument

/-- An argument that begins with a dash and spells no option. -/
def ofUnspelled (cs : List Char) : Argument :=
  if isNegativeNumber cs || cs.contains ' ' then plain (String.ofList cs) else unknown

/-- The text behind the first equals sign of an argument, if there is one. -/
def value? (cs : List Char) : Option (List Char) :=
  match cs.dropWhile (· != '=') with
  | [] => none
  | _ :: value => some value

/-- The options that an argument may be short for. -/
def candidates (cs : List Char) : List Argument :=
  match cs with
  | '-' :: '-' :: _ =>
    (Flag.beginningWith (cs.takeWhile (· != '='))).map (option · false (value? cs))
  | '-' :: c :: rest => ((Flag.ofSpelling? ['-', c]).map (option · true (some rest))).toList
  | _ => []

/-- What the text of an argument is, if it does not stand behind two dashes. -/
def ofText (text : String) : Except Refusal Argument :=
  let cs := text.toList
  let name := cs.takeWhile (· != '=')
  if cs.head? ≠ some '-' ∨ cs = ['-'] then .ok (plain text)
  else if cs = ['-', '-'] then .ok dashes
  else
    match Flag.ofSpelling? name with
    | some flag => .ok (option flag (name.length == 2) (value? cs))
    | none =>
      match candidates cs with
      | [] => .ok (ofUnspelled cs)
      | [candidate] => .ok candidate
      | _ => .error .misuse

/-- What the arguments are. -/
def ofTexts : List String → Except Refusal (List Argument)
  | [] => .ok []
  | text :: rest => do
    match ← ofText text with
    | dashes => return dashes :: rest.map plain
    | argument => return argument :: (← ofTexts rest)

end Argument

/-- The options that a single argument is made up of. -/
structure Bundle where
  /-- The options that take no value, in order. -/
  flags : List Flag
  /-- The option behind them that takes a value, and the value if that is joined to it. -/
  valued : Option (Flag × Option String)
  deriving DecidableEq, Repr

namespace Bundle

/-- The options that a short option and the characters joined to it make up: the value of the
option, or further short options. -/
def ofLetters (flag : Flag) : List Char → Except Refusal Bundle
  | [] => .ok (if flag.takesValue then ⟨[], some (flag, none)⟩ else ⟨[flag], none⟩)
  | c :: rest =>
    if flag.takesValue then .ok ⟨[], some (flag, some (String.ofList (c :: rest)))⟩
    else
      match Flag.ofSpelling? ['-', c] with
      | none => .error .misuse
      | some next =>
        (ofLetters next rest).map fun bundle => { bundle with flags := flag :: bundle.flags }

/-- The options that an option and the text joined to it make up.  An empty text is a value as
well, but spells no options. -/
def ofOption (flag : Flag) (isShort : Bool) : Option (List Char) → Except Refusal Bundle
  | none => ofLetters flag []
  | some joined =>
    if flag.takesValue then .ok ⟨[], some (flag, some (String.ofList joined))⟩
    else if isShort && !joined.isEmpty then ofLetters flag joined
    else .error .misuse

end Bundle

/-- What the arguments ask for. -/
structure Request where
  plain : List String
  verbose : Bool
  strict : Bool
  color : Bool
  config : Option String
  debug : Option String
  hasUnknown : Bool
  deriving DecidableEq, Repr

namespace Request

def empty : Request := ⟨[], false, false, false, none, none, false⟩

/-- The request with an option that takes no value. -/
def turnOn (r : Request) : Flag → Except Refusal Request
  | .help => .error .help
  | .verbose => .ok { r with verbose := true }
  | .strict => .ok { r with strict := true }
  | .color => .ok { r with color := true }
  | .config | .debug => .error .misuse

/-- The request with an option that takes a value. -/
def setValue (r : Request) (flag : Flag) (value : String) : Request :=
  match flag with
  | .config => { r with config := some value }
  | .debug => { r with debug := some value }
  | _ => r

/-- The request with the options of a bundle that take no value. -/
def turnOnAll (r : Request) (bundle : Bundle) : Except Refusal Request :=
  bundle.flags.foldlM turnOn r

/-- Reads arguments; `besidePlain` tells whether a plain one precedes them. -/
def read (r : Request) (besidePlain : Bool) : List Argument → Except Refusal Request
  | [] => .ok r
  | .plain text :: rest => { r with plain := r.plain ++ [text] }.read true rest
  | .unknown :: rest => { r with hasUnknown := true }.read false rest
  | .dashes :: rest => if rest.isEmpty && !besidePlain then .error .misuse else r.read false rest
  | .option flag isShort joined :: rest => do
    let bundle ← Bundle.ofOption flag isShort joined
    match bundle.valued, rest with
    | none, rest => (← r.turnOnAll bundle).read false rest
    | some (flag, some value), rest => ((← r.turnOnAll bundle).setValue flag value).read false rest
    | some (flag, none), .plain value :: rest =>
      ((← r.turnOnAll bundle).setValue flag value).read false rest
    | some (_, none), _ => throw .misuse

end Request

/-- A command to run. -/
structure Command where
  method : String
  file : String
  options : Request
  deriving DecidableEq, Repr

/-- The command that arguments make up. -/
def Command.ofTexts (texts : List String) : Except Refusal Command := do
  let request ← Request.empty.read false (← Argument.ofTexts texts)
  match request.plain, request.hasUnknown with
  | [method, file], false => return ⟨method, file, request⟩
  | _, _ => throw .misuse

/-- The settings file that a command names. -/
def Command.config? (command : Command) : Option String :=
  command.options.config.filter (!·.isEmpty)

end Entail.CommandLine
