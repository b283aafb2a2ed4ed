import QueryGate.Json.Reader
import QueryGate.Text.Blank
import QueryGate.Yaml.Cursor
import QueryGate.Yaml.Node

/-!
# Names in YAML

The names of anchors and the names of types. A type is named by a *tag*: a handle, for
which the directives of a document may say what it stands for, and a suffix, in which a
percent sign and two digits write a byte. A byte of zero ends whatever it is written in.

* `readName`: the name of an anchor;
* `TagName.ofChars?`: a tag;
* `Directive.ofLine?`: a directive.
-/

namespace QueryGate.Yaml

/-! ## Names -/

/-- A character of the name of an anchor. -/
def isNamePart (c : Char) : Bool := c.isAlphanum || c == '_' || c == '-'

/-- The name that a text begins with. Behind it the text must go on with something else. -/
def readName (cs : List Char) : Option (List Char) :=
  let name := cs.takeWhile isNamePart
  let rest := cs.drop name.length
  if name.isEmpty then none
  else if endsWord rest || rest.head?.any (· ∈ "?:,]%@\x7d\x60".toList) then some name
  else none

/-! ## Bytes -/

/-- A character of a tag. -/
def isTagPart (c : Char) : Bool := isNamePart c || c ∈ ";/?:@&=+$.%!~*'()".toList

/-- A character of a tag that stands between angle brackets, or of what a handle stands for. -/
def isUriPart (c : Char) : Bool := isTagPart c || c ∈ [',', '[', ']']

/-- The number of bytes that follow the first one of a character. -/
def following? (first : Nat) : Option Nat :=
  if first < 0x80 then some 0
  else if 0xC0 ≤ first ∧ first < 0xE0 then some 1
  else if 0xE0 ≤ first ∧ first < 0xF0 then some 2
  else if 0xF0 ≤ first ∧ first < 0xF8 then some 3
  else none

/-- The bytes that characters write, of which the first `missing` belong to a character begun
    before. Only the number of the bytes of a character is looked at, not what they stand for. -/
def bytesFrom : (missing : Nat) → List Char → Option (List Nat)
  | 0, [] => some []
  | _ + 1, [] => none
  | 0, '%' :: a :: b :: rest => do
    let byte ← Json.hexNumber? [a, b]
    return byte :: (← bytesFrom (← following? byte) rest)
  | missing + 1, '%' :: a :: b :: rest => do
    let byte ← Json.hexNumber? [a, b]
    if 0x80 ≤ byte ∧ byte < 0xC0 then return byte :: (← bytesFrom missing rest) else none
  | 0, c :: rest => if c = '%' then none else (bytesFrom 0 rest).map (c.toNat :: ·)
  | _ + 1, _ :: _ => none

/-- The tag, or the part of one, that characters write. -/
def tagOf? (cs : List Char) : Option Tag :=
  (bytesFrom 0 cs).map fun bytes => (bytes.takeWhile (· ≠ 0)).map UInt8.ofNat

/-! ## Tags -/

/-- A tag as it is written. -/
structure TagName where
  /-- The handle, if there is one. -/
  handle : Option String
  /-- What follows the handle. -/
  suffix : Tag
  deriving DecidableEq

namespace TagName

/-- The tag of nothing but a mark, which says that a scalar is of no type. -/
def bare : Tag := "!".toUTF8.toList

/-- The tag with no handle. -/
def verbatim (suffix : Tag) : TagName := ⟨none, suffix⟩

/-- Reads the tag that a text begins with; answers with its length too. -/
def ofChars? : List Char → Option (TagName × Nat)
  | '!' :: '<' :: rest =>
    let written := rest.takeWhile isUriPart
    if written.isEmpty || (rest.drop written.length).head? ≠ some '>' then none
    else (tagOf? written).map fun tag => (verbatim tag, written.length + 3)
  | '!' :: rest =>
    let word := rest.takeWhile isNamePart
    if (rest.drop word.length).head? = some '!' then
      let written := (rest.drop (word.length + 1)).takeWhile isTagPart
      if written.isEmpty then none
      else (tagOf? written).map fun suffix =>
        (⟨some (String.ofList ('!' :: word ++ ['!'])), suffix⟩, word.length + 2 + written.length)
    else
      let written := rest.takeWhile isTagPart
      (tagOf? written).map fun suffix =>
        (if suffix.isEmpty then verbatim bare else ⟨some "!", suffix⟩, written.length + 1)
  | _ => none

/-- What handles stand for unless the directives say something else. -/
def standardHandles : List (String × Tag) :=
  [("!", bare), ("!!", "tag:yaml.org,2002:".toUTF8.toList)]

/-- The tag that a name stands for; the handle must stand for something. -/
def resolve? (handles : List (String × Tag)) (t : TagName) : Option Tag :=
  match t.handle with
  | none => some t.suffix
  | some handle => (handles.lookup handle).map (· ++ t.suffix)

end TagName

/-! ## Directives -/

/-- A line before a document that says how to read it. -/
inductive Directive where
  /-- The version of the language. -/
  | version (major minor : Nat)
  /-- What a handle stands for. -/
  | handle (name : String) (meant : Tag)
  deriving DecidableEq

namespace Directive

/-- The words of a directive behind its name, up to a comment. -/
def words (rest : List Char) : List (List Char) :=
  ((Text.splitWhere isBlank rest).filter (!·.isEmpty)).takeWhile fun word => word.head? ≠ some '#'

/-- The number that digits write, of at most nine of them. -/
def versionNumber? (digits : List Char) : Option Nat :=
  if 1 ≤ digits.length ∧ digits.length ≤ 9 ∧ digits.all Char.isDigit then
    some (digitsValue 0 digits)
  else none

/-- Reads a version: two numbers with a point between them. -/
def version? (rest : List Char) : Option Directive :=
  match words (rest.takeWhile (· ≠ '#')) with
  | [word] =>
    match Text.splitWhere (· == '.') word with
    | [major, minor] => do return .version (← versionNumber? major) (← versionNumber? minor)
    | _ => none
  | _ => none

/-- Whether a word is a handle. -/
def isHandle (word : List Char) : Bool :=
  word.head? = some '!' && word.getLast? = some '!' && (word.drop 1).dropLast.all isNamePart

/-- Reads what a handle stands for. -/
def handle? (rest : List Char) : Option Directive :=
  match words rest with
  | [word, written] =>
    if isHandle word && written.all isUriPart then
      (tagOf? written).map fun meant => .handle (String.ofList word) meant
    else none
  | _ => none

/-- Reads a directive, from its percent sign to the end of the line. -/
def ofLine? (line : List Char) : Option Directive :=
  let name := line.takeWhile fun c => !isBlank c
  let rest := line.drop name.length
  if name = "%YAML".toList then version? rest
  else if name = "%TAG".toList then handle? rest
  else none

end Directive

end QueryGate.Yaml
