import QueryGate.Json.Written

/-!
# Reading JSON

The grammar of JSON texts. A reader takes what it reads off the front of a text
and answers with what remains. Lists and objects are read with a count of the
values that may still be begun, which starts at the length of the text, as every
value takes a character at least.

* `Written.ofText?`: the structure of a text;
* `Json.ofText?`: the value it stands for, members as written, for a nesting of at
  most `maxDepth`;
* `Json.parse?`: the same in canonical form.
-/

namespace QueryGate.Json

/-- The spaces that may stand between the parts of a text. -/
def isSpace (c : Char) : Bool := c == ' ' || c == '\n' || c == '\t' || c == '\r'

/-- What follows the spaces a text starts with. -/
def skipSpace (cs : List Char) : List Char := cs.dropWhile isSpace

/-- The value of a hexadecimal digit. -/
def hexValue? (c : Char) : Option Nat :=
  if c.isDigit then some (c.toNat - '0'.toNat)
  else if 'a' ≤ c ∧ c ≤ 'f' then some (c.toNat - 'a'.toNat + 10)
  else if 'A' ≤ c ∧ c ≤ 'F' then some (c.toNat - 'A'.toNat + 10)
  else none

/-- The value of hexadecimal digits. -/
def hexNumber? (digits : List Char) : Option Nat :=
  digits.foldl (fun n c => n.bind fun n => (hexValue? c).map (16 * n + ·)) (some 0)

/-- The character a short escape stands for. -/
def shortEscape? (c : Char) : Option Char :=
  if c = '"' ∨ c = '\\' ∨ c = '/' then some c
  else if c = 'b' then some (Char.ofNat 0x08)
  else if c = 'f' then some (Char.ofNat 0x0C)
  else if c = 'n' then some '\n'
  else if c = 'r' then some '\r'
  else if c = 't' then some '\t'
  else none

/-- Reads a string, from behind its opening quote. -/
def readString : List Char → Option (List StringUnit × List Char)
  | [] => none
  | '"' :: rest => some ([], rest)
  | '\\' :: 'u' :: a :: b :: c :: d :: rest =>
    (hexNumber? [a, b, c, d]).bind fun u =>
      (readString rest).map fun (units, rest) => (.code u :: units, rest)
  | '\\' :: e :: rest =>
    (shortEscape? e).bind fun c =>
      (readString rest).map fun (units, rest) => (.char c :: units, rest)
  | c :: rest =>
    if c.toNat < 0x20 ∨ c = '\\' then none
    else (readString rest).map fun (units, rest) => (.char c :: units, rest)

/-- Reads one digit or more. -/
def readDigits (cs : List Char) : Option (List Char × List Char) :=
  let (digits, rest) := spanDigits cs
  if digits.isEmpty then none else some (digits, rest)

/-- Reads the digits before the point: a zero stands alone. -/
def readWhole (cs : List Char) : Option (List Char × List Char) :=
  (readDigits cs).bind fun (digits, rest) =>
    if digits.head? = some '0' ∧ 1 < digits.length then none else some (digits, rest)

/-- Reads the point and the digits behind it, if there are any. -/
def readFraction : List Char → Option (Option (List Char) × List Char)
  | '.' :: cs => (readDigits cs).map fun (digits, rest) => (some digits, rest)
  | cs => some (none, cs)

/-- Reads an exponent, if there is one. -/
def readExponent : List Char → Option (Option (Bool × List Char) × List Char)
  | [] => some (none, [])
  | c :: cs =>
    if c = 'e' ∨ c = 'E' then
      let (negative, cs) := Real64.sign cs
      (readDigits cs).map fun (digits, rest) => (some (negative, digits), rest)
    else some (none, c :: cs)

/-- Reads a number without its sign. -/
def readNumeral (negative : Bool) (cs : List Char) : Option (Numeral × List Char) :=
  (readWhole cs).bind fun (whole, cs) =>
    (readFraction cs).bind fun (fraction, cs) =>
      (readExponent cs).map fun (exponent, cs) => (⟨negative, whole, fraction, exponent⟩, cs)

/-- Reads a value that is neither a list nor an object. -/
def readScalar : List Char → Option (Written × List Char)
  | '"' :: cs => (readString cs).map fun (units, rest) => (.string units, rest)
  | 'n' :: 'u' :: 'l' :: 'l' :: rest => some (.null, rest)
  | 't' :: 'r' :: 'u' :: 'e' :: rest => some (.bool true, rest)
  | 'f' :: 'a' :: 'l' :: 's' :: 'e' :: rest => some (.bool false, rest)
  | '-' :: cs => (readNumeral true cs).map fun (n, rest) => (.number n, rest)
  | cs => (readNumeral false cs).map fun (n, rest) => (.number n, rest)

/-- Reads a key and the colon behind it. -/
def readKey (cs : List Char) : Option (List StringUnit × List Char) :=
  match skipSpace cs with
  | '"' :: cs =>
    match readString cs with
    | some (units, rest) =>
      match skipSpace rest with
      | ':' :: rest => some (units, rest)
      | _ => none
    | none => none
  | _ => none

mutual
/-- Reads a value. -/
def readValue : Nat → List Char → Option (Written × List Char)
  | 0, _ => none
  | count + 1, cs =>
    match skipSpace cs with
    | '[' :: cs =>
      match skipSpace cs with
      | ']' :: rest => some (.array [], rest)
      | cs => (readItems count cs).map fun (items, rest) => (.array items, rest)
    | '\x7b' :: cs =>
      match skipSpace cs with
      | '\x7d' :: rest => some (.object [], rest)
      | cs => (readMembers count cs).map fun (members, rest) => (.object members, rest)
    | cs => readScalar cs

/-- Reads the items of a list, and its closing bracket. -/
def readItems : Nat → List Char → Option (List Written × List Char)
  | 0, _ => none
  | count + 1, cs =>
    match readValue count cs with
    | none => none
    | some (item, rest) =>
      match skipSpace rest with
      | ']' :: rest => some ([item], rest)
      | ',' :: rest => (readItems count rest).map fun (items, rest) => (item :: items, rest)
      | _ => none

/-- Reads the members of an object, and its closing brace. -/
def readMembers : Nat → List Char → Option (List (List StringUnit × Written) × List Char)
  | 0, _ => none
  | count + 1, cs =>
    match readKey cs with
    | none => none
    | some (key, rest) =>
      match readValue count rest with
      | none => none
      | some (item, rest) =>
        match skipSpace rest with
        | '\x7d' :: rest => some ([(key, item)], rest)
        | ',' :: rest =>
          (readMembers count rest).map fun (members, rest) => ((key, item) :: members, rest)
        | _ => none
end

/-- The structure of a text. -/
def Written.ofText? (cs : List Char) : Option Written :=
  (readValue (2 * cs.length + 1) cs).bind fun (value, rest) =>
    if (skipSpace rest).isEmpty then some value else none

/-- The deepest nesting of lists and objects that is read. -/
def maxDepth : Nat := 127

/-- The value a text stands for, the members of objects as written. -/
def ofText? (s : String) : Option Json :=
  ((Written.ofText? s.toList).bind Written.value?).filter fun value => value.depth ≤ maxDepth

/-- The value a text stands for, in canonical form. -/
def parse? (s : String) : Option Json := (ofText? s).map canonical

end QueryGate.Json
