/-!
# YAML: positions

What is read of a YAML text is a matter of lines and columns, so a text is read from a
position (`Cursor`), which also keeps whether a key may begin there.

Readers that go on until a text ends are given a count of steps. It is never less than the
number of the characters that remain.
-/

namespace QueryGate.Yaml

/-- A position in a text. -/
structure Cursor where
  /-- The text from the position on. -/
  rest : List Char
  /-- The line, counted from zero. -/
  line : Nat := 0
  /-- The column, counted from zero. -/
  column : Nat := 0
  /-- The bytes of the line before the position. -/
  offset : Nat := 0
  /-- Whether a key may begin here: at the start of lines, entries and brackets. -/
  fresh : Bool := true

/-- A blank within a line. -/
def isBlank (c : Char) : Bool := c == ' ' || c == '\t'

/-- The end of a line, once all those that count as a line feed are written as one. -/
def isBreak (c : Char) : Bool := c == '\n' || c == '\u2028' || c == '\u2029'

/-- A blank or the end of a line. -/
def isGap (c : Char) : Bool := isBlank c || isBreak c

/-- Whether a word ends where a text begins. -/
def endsWord (cs : List Char) : Bool := cs.head?.all isGap

namespace Cursor

/-- The position one character further on. -/
def next (c : Cursor) : Cursor :=
  match c.rest with
  | [] => c
  | b :: rest =>
    if isBreak b then { c with rest, line := c.line + 1, column := 0, offset := 0 }
    else { c with rest, column := c.column + 1, offset := c.offset + b.utf8Size }

/-- The position some characters further on. -/
def advance : Nat → Cursor → Cursor
  | 0, c => c
  | n + 1, c => advance n c.next

/-- The position behind the characters satisfying `p`. -/
def skipWhile (p : Char → Bool) (c : Cursor) : Cursor := c.advance (c.rest.takeWhile p).length

/-- The position at the end of the line. -/
def skipLine (c : Cursor) : Cursor := c.skipWhile fun d => !isBreak d

/-- Whether a line ends at the position. -/
def atLineEnd (c : Cursor) : Bool := c.rest.head?.all isBreak

/-- The position behind a punctuation mark, with a key allowed there or not. -/
def behindMark (fresh : Bool) (c : Cursor) : Cursor := { c.next with fresh }

/-- Whether the text goes on with a mark that stands alone. -/
def atMark (mark : Char) (c : Cursor) : Bool :=
  match c.rest with
  | m :: rest => m == mark && endsWord rest
  | [] => false

/-- Whether the text goes on with three characters that mark off documents. -/
def atDocumentMark (mark : Char) (c : Cursor) : Bool :=
  c.column == 0 && (c.rest.take 3 == [mark, mark, mark]) && endsWord (c.rest.drop 3)

/-- Whether a document starts or ends at the position. -/
def atBoundary (c : Cursor) : Bool := c.atDocumentMark '-' || c.atDocumentMark '.'

/-- The position of the next token: blanks, comments and line ends are passed over, but tabs only
    within brackets or where no key may begin. A key may begin on a new line outside of
    brackets. -/
def separate (flow : Bool) : (count : Nat) → Cursor → Cursor
  | 0, c => c
  | count + 1, c =>
    match c.rest with
    | [] => c
    | b :: _ =>
      if b = ' ' ∨ b = '\t' ∧ (flow ∨ !c.fresh) then separate flow count c.next
      else if b = '#' then separate flow count c.skipLine
      else if isBreak b then separate flow count (c.behindMark (c.fresh || !flow))
      else c

end Cursor

end QueryGate.Yaml
