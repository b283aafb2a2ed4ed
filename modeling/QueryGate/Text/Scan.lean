import QueryGate.Text.Letter
import QueryGate.Text.Word

/-!
# Scanning for matches

A *matcher* looks at a position of a text, given as the character before it and
the text from there on, and may recognize something that starts there: it
answers with a value and with what remains of the text. Scanning tries a matcher
at every position from left to right and goes on behind each match, so that the
matches found are disjoint and as far left as they can be.

* `pieces`: a text cut into its matches and the characters between them, from
  which `findAll`, `replaceAll` and `splitOn` are read off;
* `keyword`: a word between word boundaries, whatever its case.
-/

namespace QueryGate.Text

/-- Recognizes what starts at a position, given the character before it and the text from
    there on; answers with a value and the rest of the text. -/
abbrev Matcher (α : Type) := Option Char → List Char → Option (α × List Char)

/-- A part of a scanned text. -/
inductive Piece (α : Type) where
  /-- A character in no match. -/
  | plain (c : Char)
  /-- A match, in the place of the text it covers. -/
  | found (value : α)
  deriving Repr, DecidableEq

variable {α : Type}

/-- The text cut into matches and single characters, `skip` characters being passed over first
    as they belong to a match that has been found already. -/
def piecesFrom (m : Matcher α) : Option Char → Nat → List Char → List (Piece α)
  | _, _, [] => []
  | _, skip + 1, c :: cs => piecesFrom m (some c) skip cs
  | before, 0, c :: cs =>
    match m before (c :: cs) with
    -- a match that covers nothing still uses up the character it stands at
    | some (value, rest) => .found value :: piecesFrom m (some c) (cs.length - rest.length) cs
    | none => .plain c :: piecesFrom m (some c) 0 cs

/-- The text cut into its matches and the characters between them. -/
def pieces (m : Matcher α) (cs : List Char) : List (Piece α) := piecesFrom m none 0 cs

/-- The value of a match. -/
def Piece.value? : Piece α → Option α
  | .plain _ => none
  | .found value => some value

/-- The matches in a text, from left to right. -/
def findAll (m : Matcher α) (cs : List Char) : List α := (pieces m cs).filterMap Piece.value?

/-- The text with every match replaced by its value. -/
def replaceAll (m : Matcher (List Char)) (cs : List Char) : List Char :=
  (pieces m cs).flatMap fun
    | .plain c => [c]
    | .found value => value

/-- The first match in a text, from the position after the character `before`. -/
def findFirst (m : Matcher α) (before : Option Char) : List Char → Option (α × List Char)
  | [] => m before []
  | c :: cs =>
    match m before (c :: cs) with
    | some found => some found
    | none => findFirst m (some c) cs

/-- Cuts a text at the first match: what stands before it, and the match with what follows. -/
def cutFirst (m : Matcher α) (before : Option Char) : List Char → Option (List Char × α × List Char)
  | [] => (m before []).map fun (value, rest) => ([], value, rest)
  | c :: cs =>
    match m before (c :: cs) with
    | some (value, rest) => some ([], value, rest)
    | none => (cutFirst m (some c) cs).map fun (front, found) => (c :: front, found)

/-! ## Matchers -/

/-- What follows `word` in a text that starts with it, characters being compared by `same`. -/
def afterBy (same : Char → Char → Bool) : (word cs : List Char) → Option (List Char)
  | [], cs => some cs
  | _ :: _, [] => none
  | w :: word, c :: cs => if same w c then afterBy same word cs else none

/-- What follows `word` in a text that starts with it. -/
def after (word cs : List Char) : Option (List Char) := afterBy (· == ·) word cs

/-- What follows `word` in a text that starts with it up to case. -/
def afterFolded (word cs : List Char) : Option (List Char) :=
  afterBy (fun w c => fold w == fold c) word cs

/-- Recognizes a fixed text. -/
def literal (word : List Char) : Matcher Unit := fun _ cs =>
  (after word cs).map fun rest => ((), rest)

/-- What follows a keyword, if the text starts with it up to case and no word goes on there. -/
def afterKeyword (word : List Char) (cs : List Char) : Option (List Char) :=
  match afterFolded word cs with
  | some rest => if wordAt rest.head? then none else some rest
  | none => none

/-- Recognizes a keyword that stands between word boundaries, whatever its case. -/
def keyword (word : List Char) : Matcher Unit := fun before cs =>
  if wordAt before then none else (afterKeyword word cs).map fun rest => ((), rest)

/-- Drops one blank or more. -/
def afterBlanks : List Char → Option (List Char)
  | c :: cs => if isBlank c then some (trimStart cs) else none
  | [] => none

/-- The first answer among those of several matchers. -/
def anyOf (ms : List (Matcher α)) : Matcher α := fun before cs =>
  ms.findSome? fun m => m before cs

/-! ## Splitting -/

/-- The texts between the matches. -/
def between : List (Piece α) → List (List Char)
  | [] => [[]]
  | .found _ :: ps => [] :: between ps
  | .plain c :: ps => consFirst c (between ps)

/-- The pieces of a text between the occurrences of `separator`. -/
def splitOn (separator cs : List Char) : List (List Char) := between (pieces (literal separator) cs)

/-- Whether `word` occurs in a text. -/
def occurs (word cs : List Char) : Bool := (findFirst (literal word) none cs).isSome

/-- A line without the carriage return it may end with. -/
def withoutReturn (line : List Char) : List Char :=
  if line.getLast? = some '\r' then line.dropLast else line

/-- The lines of a text: each ends at a line feed, with the carriage return before it, and what
    follows the last line feed is a line unless it is empty. -/
def lines (cs : List Char) : List (List Char) :=
  -- the last part ends at no line feed, and so keeps a carriage return
  let parts := splitWhere (· == '\n') cs
  parts.dropLast.map withoutReturn ++ (parts.getLast?.filter (!·.isEmpty)).toList

/-- The text with every carriage return that stands before a line feed taken out. -/
def unifyLineEnds (cs : List Char) : List Char := replaceAll (fun _ cs =>
  (after ['\r', '\n'] cs).map fun rest => (['\n'], rest)) cs

end QueryGate.Text
