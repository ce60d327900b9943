/-! Lower case for words that are compared with ASCII words. -/
namespace ServiceDirectory.Text

/-- Lower case of the letters whose lower case is ASCII: `A` to `Z` and the kelvin sign. Every other
character is left alone, since no text holding one can become an ASCII word. -/
def lowerChar (c : Char) : Char :=
  if c == Char.ofNat 0x212A then 'k' else c.toLower

def lower (s : String) : String := String.ofList (s.toList.map lowerChar)

end ServiceDirectory.Text
