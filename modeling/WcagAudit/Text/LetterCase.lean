/-!
Letters up to case. `foldLetter` is the simple case folding of Unicode as far as it yields an ASCII
letter, which is what a comparison with an ASCII name can see; `sameAscii` compares texts up to the
case of ASCII letters alone.
-/

namespace WcagAudit

/-- Beside the capitals, the long s (U+017F) and the kelvin sign (U+212A) fold to ASCII letters. -/
def foldLetter (c : Char) : Char :=
  if c = '\u017f' then 's' else if c = '\u212a' then 'k' else c.toLower

def sameLetter (c d : Char) : Bool := foldLetter c == foldLetter d

def sameAscii (s t : List Char) : Bool := s.map Char.toLower == t.map Char.toLower

end WcagAudit
