import QueryGate.Json.Basic

/-!
# Printing JSON

The text of a value, on one line without spaces (`Json.compact`) or over many
lines with an indentation of two spaces (`Json.pretty`). Strings are printed as
they are except for the quote, the backslash and the control characters below
the space.
-/

namespace QueryGate.Json

/-- The digit of a number below sixteen. -/
def hexDigit (n : Nat) : Char := ("0123456789abcdef".toList[n]?).getD '0'

/-- The text of a character within a string. -/
def escape (c : Char) : List Char :=
  if c = '"' then ['\\', '"']
  else if c = '\\' then ['\\', '\\']
  else if c.toNat = 0x08 then ['\\', 'b']
  else if c.toNat = 0x0C then ['\\', 'f']
  else if c = '\n' then ['\\', 'n']
  else if c = '\r' then ['\\', 'r']
  else if c = '\t' then ['\\', 't']
  else if c.toNat < 0x20 then
    ['\\', 'u', '0', '0', hexDigit (c.toNat / 16), hexDigit (c.toNat % 16)]
  else [c]

/-- The text of a string. -/
def quoted (s : String) : List Char := '"' :: s.toList.flatMap escape ++ ['"']

mutual
/-- The text of a value on one line. -/
def compactText : Json → List Char
  | .null => "null".toList
  | .bool b => (toString b).toList
  | .number n => n.text
  | .string s => quoted s
  | .array items => '[' :: itemsText items ++ [']']
  | .object members => '\x7b' :: membersText members ++ ['\x7d']

/-- The texts of items, with commas between them. -/
def itemsText : List Json → List Char
  | [] => []
  | [item] => compactText item
  | item :: items => compactText item ++ ',' :: itemsText items

/-- The texts of members, with commas between them. -/
def membersText : List (String × Json) → List Char
  | [] => []
  | [(key, value)] => quoted key ++ ':' :: compactText value
  | (key, value) :: members => quoted key ++ ':' :: compactText value ++ ',' :: membersText members
end

/-- The text of a value on one line. -/
def compact (value : Json) : String := String.ofList (compactText value)

/-- The start of a new line at an indentation. -/
def newLine (indent : Nat) : List Char := '\n' :: List.replicate (2 * indent) ' '

mutual
/-- The text of a value over many lines, the first one being indented already. -/
def prettyText (indent : Nat) : Json → List Char
  | .array [] => ['[', ']']
  | .array (item :: items) =>
    '[' :: prettyItems (indent + 1) (item :: items) ++ newLine indent ++ [']']
  | .object [] => ['\x7b', '\x7d']
  | .object (member :: members) =>
    '\x7b' :: prettyMembers (indent + 1) (member :: members) ++ newLine indent ++ ['\x7d']
  | .null => "null".toList
  | .bool b => (toString b).toList
  | .number n => n.text
  | .string s => quoted s

/-- The texts of items, each on lines of its own. -/
def prettyItems (indent : Nat) : List Json → List Char
  | [] => []
  | [item] => newLine indent ++ prettyText indent item
  | item :: items => newLine indent ++ prettyText indent item ++ ',' :: prettyItems indent items

/-- The texts of members, each on lines of its own. -/
def prettyMembers (indent : Nat) : List (String × Json) → List Char
  | [] => []
  | [(key, value)] => newLine indent ++ quoted key ++ [':', ' '] ++ prettyText indent value
  | (key, value) :: members =>
    newLine indent ++ quoted key ++ [':', ' '] ++ prettyText indent value ++
      ',' :: prettyMembers indent members
end

/-- The text of a value over many lines. -/
def pretty (value : Json) : String := String.ofList (prettyText 0 value)

end QueryGate.Json
