/-!
# Console styles

Text may be set in bold and in colour by escape sequences, which a reset
sequence ends.
-/

namespace Entail.Console

/-- The colours that have a name. -/
inductive Color
  | black
  | red
  | green
  | yellow
  | blue
  | magenta
  | cyan
  | white
  deriving DecidableEq, Repr

namespace Color

/-- The number of a colour in the palette of 256. -/
def code : Color → Nat
  | black => 0
  | red => 1
  | green => 2
  | yellow => 3
  | blue => 4
  | magenta => 5
  | cyan => 6
  | white => 15

def name : Color → String
  | black => "black"
  | red => "red"
  | green => "green"
  | yellow => "yellow"
  | blue => "blue"
  | magenta => "magenta"
  | cyan => "cyan"
  | white => "white"

/-- The colour of the given name. -/
def ofName? (name : String) : Option Color :=
  [black, red, green, yellow, blue, magenta, cyan, white].find? (·.name == name)

end Color

/-- How a text is set. -/
structure Style where
  background : Option Color
  foreground : Option Color
  bold : Bool
  deriving DecidableEq, Repr

/-- The style of headlines and labels. -/
def Style.headline : Style := ⟨none, none, true⟩

/-- An escape sequence. -/
def escape (codes : String) : String :=
  "\x1b[" ++ codes ++ "m"

/-- The sequences that begin a style. -/
def Style.codes (style : Style) : String :=
  (if style.bold then escape "1" else "") ++
    ((style.background.map fun c => escape ("48;5;" ++ toString c.code)).getD "") ++
    ((style.foreground.map fun c => escape ("38;5;" ++ toString c.code)).getD "")

/-- A text in the given style, if the console is coloured. -/
def colorize (text : String) (style : Style) (colored : Bool) : String :=
  if colored then style.codes ++ text ++ escape "0" else text

/-- A text between two lines of its length. -/
def headline (text : String) (colored : Bool) : String :=
  let line := colorize (String.ofList (List.replicate text.length '=')) .headline colored
  line ++ "\n" ++ colorize text .headline colored ++ "\n" ++ line

end Entail.Console
