/-!
# Letter case

Case conversion as far as it decides a comparison with a word of plain
letters: a letter whose converted form is plain is converted, every other
character is kept, since it cannot occur in such a word either way.
-/

namespace Entail.Text

/-- Lower case for a comparison with a word of plain letters; the Kelvin sign reads as `k`. -/
def lowerChar (c : Char) : Char :=
  if c.toNat = 0x212a then 'k' else c.toLower

/-- Upper case for a comparison with a word of plain letters; dotless i and long s read as
`I` and `S`. -/
def upperChar (c : Char) : Char :=
  if c.toNat = 0x131 then 'I' else if c.toNat = 0x17f then 'S' else c.toUpper

def lower (text : String) : String :=
  String.ofList (text.toList.map lowerChar)

def upper (text : String) : String :=
  String.ofList (text.toList.map upperChar)

end Entail.Text
