/-!
# White space

Texts are lists of characters. White space is what the Unicode property
`White_Space` says it is: the line and paragraph separators, the no-break space
and the ideographic space are blank, while the information separators `U+001C`
to `U+001F`, the zero width space and the byte order mark are not.

* `trim`: a text without the blanks at its ends;
* `words`: the maximal runs of characters that are not blank.
-/

namespace QueryGate.Text

/-- Whether a character lies in one of the ranges, given by their ends. -/
def inRanges (ranges : List (Nat × Nat)) (c : Char) : Bool :=
  ranges.any fun (low, high) => low ≤ c.toNat && c.toNat ≤ high

/-- The characters of the property `White_Space`. -/
def blankRanges : List (Nat × Nat) :=
  [(0x9, 0xD), (0x20, 0x20), (0x85, 0x85), (0xA0, 0xA0), (0x1680, 0x1680), (0x2000, 0x200A),
   (0x2028, 0x2029), (0x202F, 0x202F), (0x205F, 0x205F), (0x3000, 0x3000)]

/-- A white space character. -/
def isBlank (c : Char) : Bool := inRanges blankRanges c

/-- The text without the blanks it starts with. -/
def trimStart (cs : List Char) : List Char := cs.dropWhile isBlank

/-- The text without the characters satisfying `p` that it ends with. -/
def dropEndWhile (p : Char → Bool) (cs : List Char) : List Char :=
  (cs.reverse.dropWhile p).reverse

/-- The text without the blanks at either end. -/
def trim (cs : List Char) : List Char := dropEndWhile isBlank (trimStart cs)

/-- The texts with a character put in front of the first one. -/
def consFirst (c : Char) : List (List Char) → List (List Char)
  | [] => [[c]]
  | first :: rest => (c :: first) :: rest

/-- The pieces of a text between the characters satisfying `p`, the empty ones included:
    always one more than there are such characters. -/
def splitWhere (p : Char → Bool) : List Char → List (List Char)
  | [] => [[]]
  | c :: cs => if p c then [] :: splitWhere p cs else consFirst c (splitWhere p cs)

/-- The maximal runs of characters that are not blank. -/
def words (cs : List Char) : List (List Char) :=
  (splitWhere isBlank cs).filter fun word => !word.isEmpty

/-- The words of a text, one space between them. -/
def collapse (cs : List Char) : List Char := [' '].intercalate (words cs)

/-- The string without the blanks at either end. -/
def trimmed (s : String) : String := String.ofList (trim s.toList)

end QueryGate.Text
