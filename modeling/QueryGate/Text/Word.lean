import QueryGate.Text.Blank
import QueryGate.Text.WordRanges
import QueryGate.Text.DigitRanges

/-!
# Words and their boundaries

A position in a text lies at a *word boundary* when exactly one of the
characters around it is a word character. Keywords and field names are looked
for at word boundaries, so that `SELECTED` holds no `SELECT`.
-/

namespace QueryGate.Text

/-- A character that can stand in a word. -/
def isWord (c : Char) : Bool :=
  if c.toNat < 0x80 then c.isAlphanum || c == '_' else inRanges wordRanges c

/-- A decimal digit of any script. -/
def isDecimalDigit (c : Char) : Bool :=
  if c.toNat < 0x80 then c.isDigit else inRanges digitRanges c

/-- Whether there is a word character, the end of the text being none. -/
def wordAt (c : Option Char) : Bool := c.any isWord

end QueryGate.Text
