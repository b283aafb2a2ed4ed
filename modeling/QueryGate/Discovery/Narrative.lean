import QueryGate.Discovery.Document
import QueryGate.Name

/-!
# Usage narratives

Field names in lists. Only the lines of lists are read, those that start with a bullet
or a number. In such a line three things are taken for fields: the label it starts
with, if there is a colon behind it; what stands in back quotes; and words that end
like the name of a custom field.
-/

namespace QueryGate.Narrative

open Text

/-- The back quote. -/
def backQuote : Char := '\x60'

/-- What follows a bullet, or a number with a point or a parenthesis. -/
def afterBullet? (cs : List Char) : Option (List Char) :=
  match cs with
  | [] => none
  | c :: rest =>
    if c = '-' ∨ c = '*' ∨ c = '+' then some rest
    else if isDecimalDigit c then
      match rest.dropWhile isDecimalDigit with
      | d :: rest => if d = '.' ∨ d = ')' then some rest else none
      | [] => none
    else none

/-- The item of a list that a line holds. -/
def item? (line : List Char) : Option (List Char) :=
  (afterBullet? (trimStart line)).bind afterBlanks

/-- A character that sets off a label. -/
def isEmphasis (c : Char) : Bool := c == '*' || c == '_' || c == backQuote

/-- The label that an item starts with, with a capital and before a colon. -/
def label? (item : List Char) : Option (List Char) :=
  let item := item.dropWhile isEmphasis
  if item.contains ':' then
    let label := trim (dropEndWhile isEmphasis (item.takeWhile (· != ':')))
    if label.head?.any Char.isUpper && Name.isPath label then some label else none
  else none

/-- Recognizes a text in back quotes, without blanks. -/
def backQuotedMatcher : Matcher (List Char) := fun _ cs =>
  match cs with
  | [] => none
  | c :: cs =>
    if c = backQuote then
      let isInner (c : Char) := c != backQuote && !isBlank c
      let token := cs.takeWhile isInner
      match cs.dropWhile isInner with
      | d :: rest => if d = backQuote ∧ !token.isEmpty then some (token, rest) else none
      | [] => none
    else none

/-- Whether a name ends like that of a custom field or relation. -/
def isCustom (name : List Char) : Bool :=
  4 ≤ name.length && ("__c".toList.isSuffixOf name || "__r".toList.isSuffixOf name)

/-- Recognizes the name of a custom field between word boundaries. -/
def customMatcher : Matcher (List Char) := fun before cs =>
  let name := cs.takeWhile Name.isPart
  let rest := cs.dropWhile Name.isPart
  if !wordAt before && name.head?.any Char.isAlpha && isCustom name && !wordAt rest.head? then
    some (name, rest)
  else none

/-- The fields that an item of a list speaks of. -/
def fieldsOfItem (item : List Char) : List (List Char) :=
  (label? item).toList ++ (findAll backQuotedMatcher item).filter Name.isPath ++
    findAll customMatcher item

/-- The fields that a text speaks of in its lists. -/
def fields (cs : List Char) : List String :=
  (((lines cs).filterMap item?).flatMap fieldsOfItem).map String.ofList

/-- What is learned from the lists of a document. -/
def extract (document : Document) : Findings where
  entry := Entry.empty.addFields (fields document.text)

end QueryGate.Narrative
