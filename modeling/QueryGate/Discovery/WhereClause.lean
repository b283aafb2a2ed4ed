import QueryGate.Discovery.SelectList
import QueryGate.Operator

/-!
# Where clauses

The conditions in free text. A clause begins behind a keyword `WHERE` and ends at a
keyword that goes on with the query, at a fence, at a blank line or at the end of the
text. In a clause, string literals are emptied first, lest what they hold look like
conditions. Then every field that stands before an operator counts, unless it is a
keyword itself.

A field need not end at a word boundary: if no operator follows the whole of it, ever
shorter beginnings of it are tried, and an operator may follow one of those at once.
-/

namespace QueryGate.WhereClause

open Text

/-! ## Clauses -/

/-- Recognizes two keywords with blanks between them. -/
def keywordPair (first second : List Char) : Matcher Unit := fun before cs =>
  if wordAt before then none
  else
    (((afterFolded first cs).bind afterBlanks).bind (afterKeyword second)).map fun rest =>
      ((), rest)

/-- The fence of a block of code. -/
def fence : List Char := "\x60\x60\x60".toList

/-- Recognizes a line end, a blank line and its end. -/
def blankLine : Matcher Unit := fun _ cs =>
  match cs with
  | '\n' :: cs =>
    match cs.dropWhile fun c => c == ' ' || c == '\t' with
    | '\n' :: rest => some ((), rest)
    | _ => none
  | _ => none

/-- Recognizes what ends a clause. -/
def clauseEnd : Matcher Unit :=
  anyOf [keywordPair "ORDER".toList "BY".toList, keywordPair "GROUP".toList "BY".toList,
    keyword "HAVING".toList, keyword "LIMIT".toList, keyword "OFFSET".toList, literal fence,
    blankLine]

/-- Recognizes a clause, with its end; its value is what stands between. -/
def clauseMatcher : Matcher (List Char) := fun before cs =>
  (keyword "WHERE".toList before cs).map fun (_, rest) =>
    match cutFirst clauseEnd (some 'E') rest with
    | some (body, _, rest) => (body, rest)
    | none => (rest, [])

/-- The clauses in a text, from left to right. -/
def clauses (cs : List Char) : List (List Char) := findAll clauseMatcher cs

/-! ## String literals -/

/-- What follows a string literal, from behind its opening quote. A backslash takes the character
    behind it along, but no line end. -/
def afterLiteral? : List Char → Option (List Char)
  | [] => none
  | '\'' :: rest => some rest
  | '\\' :: c :: rest => if c = '\n' then none else afterLiteral? rest
  | c :: rest => if c = '\\' then none else afterLiteral? rest

/-- Recognizes a string literal, in place of which there is to be an empty one. -/
def literalMatcher : Matcher (List Char) := fun _ cs =>
  match cs with
  | '\'' :: cs => (afterLiteral? cs).map fun rest => (['\'', '\''], rest)
  | _ => none

/-- The text with its string literals emptied. -/
def emptyLiterals (cs : List Char) : List Char := replaceAll literalMatcher cs

/-! ## Conditions -/

/-- A character that a field can start with: a letter that folds to an ASCII one, or an
    underscore. -/
def isFieldStart (c : Char) : Bool := Name.isStart (fold c)

/-- A character that a field can go on with. -/
def isFieldPart (c : Char) : Bool := Name.isPart (fold c)

/-- The characters that make up the longest path of names at the start of a text. The flag tells
    whether a dot may follow, and a name behind it. -/
def pathSpan : (inside : Bool) → List Char → List Char
  | _, [] => []
  | false, c :: cs => if isFieldStart c then c :: pathSpan true cs else []
  | true, c :: cs =>
    if isFieldPart c then c :: pathSpan true cs
    else if c = '.' ∧ cs.head?.any isFieldStart then c :: pathSpan true cs
    else []

/-- What follows the operator that a text starts with. An operator that is spelled in letters
    ends at a word boundary, and of two symbols the longer one counts. -/
def afterOperator? (cs : List Char) : Option (List Char) :=
  ((afterFolded "NOT".toList cs).bind afterBlanks).bind (afterKeyword "IN".toList) <|>
    afterKeyword "IN".toList cs <|>
    afterKeyword "LIKE".toList cs <|>
    ["!=", ">=", "<=", "=", ">", "<"].findSome? fun symbol => after symbol.toList cs

/-- The text of the operator that a text starts with, and what follows it. -/
def operatorAt? (cs : List Char) : Option (List Char × List Char) :=
  (afterOperator? cs).map fun rest => (cs.take (cs.length - rest.length), rest)

/-- The longest beginning of a path, of at most `length` characters, that an operator follows
    after blanks: the field, the text of the operator and what follows. -/
def conditionAt? (cs : List Char) : (length : Nat) → Option ((List Char × List Char) × List Char)
  | 0 => none
  | length + 1 =>
    let field := cs.take (length + 1)
    -- a dot is part of a path only with a name behind it
    let found := if field.getLast? = some '.' then none
      else operatorAt? (trimStart (cs.drop (length + 1)))
    match found with
    | some (op, rest) => some ((field, op), rest)
    | none => conditionAt? cs length

/-- Recognizes a field with the operator behind it. -/
def conditionMatcher : Matcher (List Char × List Char) := fun before cs =>
  if wordAt before then none else conditionAt? cs (pathSpan false cs).length

/-- The keywords that are not taken for fields. -/
def keywords : List String :=
  ["AND", "OR", "NOT", "WHERE", "IN", "LIKE", "NULL", "TRUE", "FALSE", "INCLUDES", "EXCLUDES",
   "SELECT", "FROM"]

/-- Whether a text is one of the keywords. -/
def isKeyword (cs : List Char) : Bool := keywords.any fun word => sameLetters word.toList cs

/-- The field and operator of a condition, unless the field is a keyword. -/
def usage? (field op : List Char) : Option (String × Operator) :=
  if isKeyword field then none
  else (Operator.parse? (String.ofList op)).map fun op => (String.ofList field, op)

/-- The fields and operators of the conditions in a clause. -/
def usagesIn (clause : List Char) : List (String × Operator) :=
  (findAll conditionMatcher (emptyLiterals clause)).filterMap fun (field, op) => usage? field op

/-- The fields and operators of the conditions in a text, from left to right. -/
def usages (cs : List Char) : List (String × Operator) := (clauses cs).flatMap usagesIn

/-! ## Units -/

/-- A line that is not blank. -/
def isProper (line : List Char) : Bool := !(trim line).isEmpty

/-- A row of a table. -/
def isTableRow (line : List Char) : Bool := (trimStart line).head? = some '|'

/-- The units of a block of text: nothing if it is blank, its rows if it is a table, else all of
    it. -/
def blockUnits (block : List Char) : List (List Char) :=
  let proper := (lines block).filter isProper
  -- each row of a table speaks of a query of its own
  if proper.isEmpty then []
  else if proper.all isTableRow then proper
  else [block]

/-- The blocks of a text, parted by empty lines and by fences. -/
def blocks (cs : List Char) : List (List Char) :=
  (splitOn ['\n', '\n'] cs).flatMap (splitOn fence)

/-- The parts of a text that speak of one query each: paragraphs, and the rows of tables. -/
def units (cs : List Char) : List (List Char) := (blocks cs).flatMap blockUnits

/-- Recognizes a `FROM` with the name behind it. -/
def fromMatcher : Matcher (List Char) := fun before cs =>
  if wordAt before then none
  else
    ((afterFolded "FROM".toList cs).bind afterBlanks).bind fun rest =>
      if rest.head?.any isFieldStart then
        some (rest.takeWhile isFieldPart, rest.dropWhile isFieldPart)
      else none

/-- The object that a unit reads from, by its first select list or else its first `FROM`. -/
def sourceOf? (unit : List Char) : Option String :=
  match SelectList.fragments unit with
  | fragment :: _ => some fragment.source
  | [] => (findFirst fromMatcher none unit).map fun (name, _) => String.ofList name

/-- Whether the word `WHERE` occurs in a text, in plain letters of any case. -/
def mentionsWhere (cs : List Char) : Bool := occurs "where".toList (lowered cs)

end QueryGate.WhereClause
