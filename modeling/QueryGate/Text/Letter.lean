/-!
# Letter case

Two ways of reading letters without regard to case. *Plain* comparison ignores
the case of the ASCII letters alone. *Folding* is the simple case folding of
Unicode as far as ASCII words can tell: besides the capitals, the long s `ſ` folds
to `s` and the Kelvin sign to `k`, so that a keyword is also recognized when it is
written with those.
-/

namespace QueryGate.Text

/-- The long s, which folds to `s`. -/
def longS : Char := '\u017f'

/-- The Kelvin sign, which folds to `k`. -/
def kelvin : Char := '\u212a'

/-- The small ASCII letter a character folds to, the character itself if there is none. -/
def fold (c : Char) : Char :=
  if c = longS then 's' else if c = kelvin then 'k' else c.toLower

/-- Equal up to the case of ASCII letters. -/
def sameLetters (a b : List Char) : Bool := a.map Char.toLower == b.map Char.toLower

/-- The text with its ASCII capitals made small. -/
def lowered (cs : List Char) : List Char := cs.map Char.toLower

end QueryGate.Text
