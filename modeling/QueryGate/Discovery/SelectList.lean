import QueryGate.Name
import QueryGate.Text.Scan

/-!
# Select lists

Select lists in free text. After a keyword `SELECT` the list goes on to the first
`FROM` outside of parentheses, so that the `FROM` of a subquery does not end it, and
the name behind that is the object it reads from. What has no such `FROM`, or no name
behind it, is no select list, and the search goes on behind the `SELECT`.

Of the items of a list those count that name a field (`fieldOfItem?`): alone, with an
alias behind it, or wrapped in a function that only changes how the field is shown.
All others, such as wildcards, aggregates and subqueries, say nothing of fields.

The depth of parentheses is a number without a bound here. A counter of 32 bits does the
same in every text of fewer than `2 ^ 31` bytes (`countedFromAt?_eq`, `countedTopLevel?_eq`).
-/

namespace QueryGate

/-- A select list, with the object it reads from. -/
structure Fragment where
  /-- The text of the list. -/
  list : String
  /-- The object. -/
  source : String
  deriving DecidableEq, Repr

namespace SelectList

open Text

/-- What follows a keyword `FROM`, in plain letters and with no name going on around it. -/
def afterFrom? (before : Option Char) (cs : List Char) : Option (List Char) :=
  if before.any Name.isPart then none
  else
    match afterBy (fun w c => w == c.toUpper) "FROM".toList cs with
    | some rest => if rest.head?.any Name.isPart then none else some rest
    | none => none

/-- Cuts a text at the `FROM` that ends a select list: what stands before it and what follows.
    There is none if a parenthesis is closed first that was not opened in the list. The depth is
    below `2 ^ 31` as long as the text is. -/
def cutAtFrom? : (before : Option Char) → (depth : Nat) → List Char →
    Option (List Char × List Char)
  | _, _, [] => none
  | before, depth, c :: cs =>
    let goOn (depth : Nat) :=
      (cutAtFrom? (some c) depth cs).map fun (list, rest) => (c :: list, rest)
    if c = '(' then goOn (depth + 1)
    else if c = ')' then if depth = 0 then none else goOn (depth - 1)
    else
      -- a `FROM` within parentheses belongs to a query within this one
      match if depth = 0 then afterFrom? before (c :: cs) else none with
      | some rest => some ([], rest)
      | none => goOn depth

/-- The name that a text starts with, after blanks. -/
def leadingName (cs : List Char) : List Char := (trimStart cs).takeWhile Name.isPart

/-- The select list that a text goes on with behind a `SELECT`, and what follows its `FROM`. -/
def fragmentBehind? (before : Option Char) (cs : List Char) : Option (Fragment × List Char) :=
  (cutAtFrom? before 0 cs).bind fun (list, rest) =>
    let source := leadingName rest
    if Name.isSegment source then
      some (⟨String.ofList (trim list), String.ofList source⟩, rest)
    else none

/-- Recognizes a `SELECT`, with the list behind it if there is one. -/
def selectMatcher : Matcher (Option Fragment) := fun before cs =>
  (keyword "SELECT".toList before cs).map fun (_, rest) =>
    match fragmentBehind? (some 'T') rest with
    | some (fragment, rest) => (some fragment, rest)
    -- without a list the text goes on right behind the keyword, where a list may yet begin
    | none => (none, rest)

/-- The select lists in a text, from left to right. -/
def fragments (cs : List Char) : List Fragment := (findAll selectMatcher cs).filterMap id

/-! ## Items -/

/-- The pieces of a text between the separators outside of parentheses. The depth stays between
    `-2 ^ 31` and `2 ^ 31` as long as the text is shorter. -/
def splitOutside (separator : Char) (depth : Int) : List Char → List (List Char)
  | [] => [[]]
  | c :: cs =>
    if c = '(' then consFirst c (splitOutside separator (depth + 1) cs)
    else if c = ')' then consFirst c (splitOutside separator (depth - 1) cs)
    else if c = separator ∧ depth = 0 then [] :: splitOutside separator depth cs
    else consFirst c (splitOutside separator depth cs)

/-- The pieces of a text between the separators outside of parentheses. -/
def splitTopLevel (separator : Char) (cs : List Char) : List (List Char) :=
  splitOutside separator 0 cs

/-- The functions of one argument that only change how a field is shown. -/
def wrappers : List String := ["TOLABEL", "CONVERTCURRENCY", "FORMAT", "CONVERTTIMEZONE"]

/-- The field within a wrapper. -/
def unwrap? (call : List Char) : Option (List Char) :=
  let function := call.takeWhile (· != '(')
  let arguments := call.drop (function.length + 1)
  if function.length < call.length ∧ arguments.getLast? = some ')' then
    let field := trim arguments.dropLast
    if wrappers.any (fun w => sameLetters function w.toList) ∧ Name.isPath field then some field
    else none
  else none

/-- The field that an item names. -/
def fieldOfItem? (item : List Char) : Option (List Char) :=
  let item := collapse item
  if item.head? = some '(' then none
  else
    -- what follows the expression is an alias
    (((splitTopLevel ' ' item).map trim).find? fun part => !part.isEmpty).bind fun expression =>
      if Name.isPath expression then some expression else unwrap? expression

/-- Recognizes a `TYPEOF` with all up to its `END`, in place of which there is to be nothing. -/
def typeofMatcher : Matcher (List Char) := fun before cs =>
  (keyword "TYPEOF".toList before cs).bind fun (_, rest) =>
    (cutFirst (keyword "END".toList) (some 'F') rest).map fun (_, _, rest) => ([], rest)

/-- The fields that the items of a list name, each once. -/
def fieldsOf (list : List Char) : List (List Char) :=
  ((splitTopLevel ',' (replaceAll typeofMatcher list)).filterMap fieldOfItem?).eraseDups

end SelectList

/-- The fields that the items of the list name, each once. -/
def Fragment.fields (f : Fragment) : List String :=
  (SelectList.fieldsOf f.list.toList).map String.ofList

end QueryGate
