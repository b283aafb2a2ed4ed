import QueryGate.Yaml.Scalar
import QueryGate.Yaml.Tag

/-!
# YAML tokens

A text is cut into tokens first, among them some that are not written. Outside of brackets
the structure of a text is in its columns: a collection begins where a mark of an entry or a
key stands further to the right than the collection around it, and ends where something
stands further to the left. And that a text was a key shows only when its colon is met, so
that the mark of a key is put in place behindhand.

* `Layout`: what has been seen of a text;
* `Layout.token?`: the next token;
* `Token.ofText?`: all tokens of a text.
-/

namespace QueryGate.Yaml

/-- A token. -/
inductive Token where
  /-- A directive. -/
  | directive (d : Directive)
  /-- The mark before a document. -/
  | documentStart
  /-- The mark behind a document. -/
  | documentEnd
  /-- The start of a sequence outside of brackets. -/
  | blockSequence
  /-- The start of a mapping outside of brackets. -/
  | blockMapping
  /-- The end of a collection outside of brackets. -/
  | blockEnd
  /-- The opening bracket of a sequence. -/
  | openSequence
  /-- The closing bracket of a sequence. -/
  | closeSequence
  /-- The opening brace of a mapping. -/
  | openMapping
  /-- The closing brace of a mapping. -/
  | closeMapping
  /-- The comma between the entries within brackets. -/
  | separator
  /-- The mark before an entry of a sequence outside of brackets. -/
  | entry
  /-- The mark before a key. -/
  | key
  /-- The mark before a value. -/
  | value
  /-- A name in place of a node. -/
  | alias (name : String)
  /-- The name given to a node. -/
  | anchor (name : String)
  /-- The type given to a node. -/
  | tag (t : TagName)
  /-- A scalar. -/
  | scalar (s : Scalar)
  deriving DecidableEq

/-! ## Layout -/

/-- A place where a key may have begun. -/
structure KeyPlace where
  /-- Whether it must have begun there, as an entry of a mapping is due. -/
  required : Bool
  /-- The number of the tokens before it. -/
  index : Nat
  /-- The position. -/
  start : Cursor

/-- The most bytes of a key that is not marked as one. -/
def KeyPlace.maxBytes : Nat := 1024

/-- Whether a key that began at the place can end at a position: it is short, and on one line. -/
def KeyPlace.reaches (k : KeyPlace) (c : Cursor) : Bool :=
  k.start.line == c.line && c.offset ≤ k.start.offset + maxBytes

/-- What has been seen of a text. -/
structure Layout where
  /-- The position reached. -/
  cursor : Cursor
  /-- The tokens, the latest one first. -/
  tokens : List Token := []
  /-- The number of the tokens. -/
  count : Nat := 0
  /-- The columns of the open collections outside of brackets, the innermost one first. -/
  blocks : List Nat := []
  /-- Where a key may have begun that has not ended yet. -/
  key : Option KeyPlace := none
  /-- The same for the text around each open bracket, the innermost one first. -/
  outerKeys : List (Option KeyPlace) := []

namespace Layout

/-- Whether the position is within brackets. -/
def inFlow (l : Layout) : Bool := !l.outerKeys.isEmpty

/-- The column of the innermost collection outside of brackets. -/
def indent (l : Layout) : Int := (l.blocks.head?.map Int.ofNat).getD (-1)

/-- Adds a token. -/
def push (t : Token) (l : Layout) : Layout :=
  { l with tokens := t :: l.tokens, count := l.count + 1 }

/-- Adds the token that a character is. -/
def pass (t : Token) (fresh : Bool) (l : Layout) : Layout :=
  { l.push t with cursor := l.cursor.behindMark fresh }

/-- Ends the collections that begin further to the right than a column. -/
def closeBlocks (column : Int) (l : Layout) : Layout :=
  if l.inFlow then l
  else
    let closed := l.blocks.takeWhile fun (block : Nat) => column < block
    { l with
      tokens := closed.map (fun _ => .blockEnd) ++ l.tokens
      count := l.count + closed.length
      blocks := l.blocks.drop closed.length }

/-- Begins a collection in the column of the position, unless one begins there already. -/
def openBlock (t : Token) (l : Layout) : Layout :=
  if l.inFlow ∨ l.cursor.column ≤ l.indent then l
  else { l.push t with blocks := l.cursor.column :: l.blocks }

/-- Gives up the key that may have begun. -/
def dropKey? (l : Layout) : Option Layout :=
  if l.key.any KeyPlace.required then none else some { l with key := none }

/-- Remembers the position as the start of a key, if a key may begin there. -/
def markKey? (l : Layout) : Option Layout :=
  if l.cursor.fresh then
    l.dropKey?.map fun l =>
      let required := !l.inFlow && l.indent == l.cursor.column
      { l with key := some ⟨required, l.count, l.cursor⟩ }
  else some l

/-- Puts the mark of a key before the tokens from its place on, and before that the start of a
    mapping unless the key is one of the mapping around it. -/
def insertKey (k : KeyPlace) (l : Layout) : Layout :=
  let behind := l.tokens.take (l.count - k.index)
  let before := l.tokens.drop (l.count - k.index)
  if l.inFlow ∨ k.start.column ≤ l.indent then
    { l with tokens := behind ++ .key :: before, count := l.count + 1, key := none }
  else
    { l with
      tokens := behind ++ .key :: .blockMapping :: before
      count := l.count + 2
      blocks := k.start.column :: l.blocks
      key := none }

/-! ## Marks -/

/-- Reads an opening bracket. -/
def opening? (t : Token) (l : Layout) : Option Layout :=
  l.markKey?.map fun l => { l.pass t true with key := none, outerKeys := l.key :: l.outerKeys }

/-- Reads a closing bracket. Whether it closes a bracket of its kind is not looked at. -/
def closing? (t : Token) (l : Layout) : Option Layout :=
  l.dropKey?.map fun l =>
    match l.outerKeys with
    | [] => l.pass t false
    | key :: outerKeys => { l.pass t false with key, outerKeys }

/-- Reads a comma. -/
def separator? (l : Layout) : Option Layout := l.dropKey?.map (pass .separator true)

/-- Reads the mark of an entry. -/
def entry? (l : Layout) : Option Layout :=
  if !l.inFlow && !l.cursor.fresh then none
  else (l.openBlock .blockSequence).dropKey?.map (pass .entry true)

/-- Reads the mark of a key. -/
def key? (l : Layout) : Option Layout :=
  if !l.inFlow && !l.cursor.fresh then none
  else (l.openBlock .blockMapping).dropKey?.map (pass .key (!l.inFlow))

/-- Reads the mark of a value, behind a key that is marked or missing. -/
def valueAlone? (l : Layout) : Option Layout :=
  if !l.inFlow && !l.cursor.fresh then none
  else some ((l.openBlock .blockMapping).pass .value (!l.inFlow))

/-- Reads the mark of a value. -/
def value? (l : Layout) : Option Layout :=
  match l.key with
  | none => l.valueAlone?
  | some k =>
    if k.reaches l.cursor then some ((l.insertKey k).pass .value false)
    else l.dropKey?.bind valueAlone?

/-! ## Words -/

/-- Adds a token that a key may begin with, of some length. -/
def word? (t : Token) (length : Nat) (l : Layout) : Option Layout :=
  l.markKey?.map fun l =>
    { l.push t with cursor := { l.cursor.advance length with fresh := false } }

/-- Adds a scalar that a key may begin with. -/
def scalar? (read : Cursor → Option (Scalar × Cursor)) (l : Layout) : Option Layout := do
  let l ← l.markKey?
  let (s, cursor) ← read l.cursor
  return { l.push (.scalar s) with cursor }

/-- Reads a block of lines. -/
def block? (style : Style) (count : Nat) (l : Layout) : Option Layout := do
  let l ← l.dropKey?
  let (s, cursor) ← readBlock style l.indent count l.cursor
  return { l.push (.scalar s) with cursor }

/-- Adds what stands at the margin: all collections end before it, and no key may follow. -/
def margin? (t : Token) (cursor : Cursor) (l : Layout) : Option Layout :=
  (l.closeBlocks (-1)).dropKey?.map fun l =>
    { l.push t with cursor := { cursor with fresh := false } }

/-- Reads the token that begins with a character, at the position. The count is for reading
    scalars. -/
def token? (count : Nat) (first : Char) (rest : List Char) (l : Layout) : Option Layout :=
  let c := l.cursor
  if c.column = 0 ∧ first = '%' then
    let line := c.rest.takeWhile fun d => !isBreak d
    -- the end of the line belongs to the directive, so that no key may begin on the next one
    (Directive.ofLine? line).bind fun d => l.margin? (.directive d) (c.advance line.length).next
  else if c.atDocumentMark '-' then l.margin? .documentStart (c.advance 3)
  else if c.atDocumentMark '.' then l.margin? .documentEnd (c.advance 3)
  else if first = '[' then l.opening? .openSequence
  else if first = '\x7b' then l.opening? .openMapping
  else if first = ']' then l.closing? .closeSequence
  else if first = '\x7d' then l.closing? .closeMapping
  else if first = ',' then l.separator?
  else if c.atMark '-' then l.entry?
  else if first = '?' ∧ (l.inFlow ∨ endsWord rest) then l.key?
  else if first = ':' ∧ (l.inFlow ∨ endsWord rest) then l.value?
  else if first = '*' then
    (readName rest).bind fun name => l.word? (.alias (String.ofList name)) (name.length + 1)
  else if first = '&' then
    (readName rest).bind fun name => l.word? (.anchor (String.ofList name)) (name.length + 1)
  else if first = '!' then
    (TagName.ofChars? c.rest).bind fun (tag, length) =>
      let behind := rest.drop (length - 1)
      if endsWord behind || l.inFlow && behind.head? = some ',' then l.word? (.tag tag) length
      else none
  else if first = '\'' ∨ first = '"' then l.scalar? (readQuoted first count)
  else if canStartPlain l.inFlow c.rest then
    l.scalar? (readPlain l.inFlow (l.indent + 1).toNat count)
  else
    match if l.inFlow then none else blockStyle? c.rest with
    | some style => l.block? style count
    | none => none

/-- The tokens of a text, from the position on. -/
def tokensFrom : (count : Nat) → Layout → Option (List Token)
  | 0, _ => none
  | count + 1, l =>
    let cursor := l.cursor.separate l.inFlow count
    let l := ({ l with cursor } : Layout).closeBlocks cursor.column
    match cursor.rest with
    | [] => (l.closeBlocks (-1)).dropKey?.map fun l => l.tokens.reverse
    | first :: rest => (l.token? count first rest).bind (tokensFrom count)

end Layout

/-! ## Texts -/

/-- A character that may stand in a text. -/
def isPrintable (c : Char) : Bool :=
  let n := c.toNat
  n = 0x09 || n = 0x0A || n = 0x0D || 0x20 ≤ n && n ≤ 0x7E || n = 0x85 ||
    0xA0 ≤ n && n ≤ 0xFFFD || 0x10000 ≤ n

/-- The text with a line feed for all that counts as one. -/
def unifyBreaks : List Char → List Char
  | [] => []
  | '\r' :: '\n' :: rest => '\n' :: unifyBreaks rest
  | c :: rest => (if c = '\r' ∨ c = '\u0085' then '\n' else c) :: unifyBreaks rest

/-- The position at the start of a text. A byte order mark takes up a column. -/
def Cursor.ofText (cs : List Char) : Cursor :=
  match cs with
  | '\uFEFF' :: rest => { rest := unifyBreaks rest, column := 1 }
  | cs => { rest := unifyBreaks cs }

/-- The tokens of a text. -/
def Token.ofText? (cs : List Char) : Option (List Token) :=
  if cs.all isPrintable then Layout.tokensFrom (cs.length + 1) { cursor := .ofText cs } else none

end QueryGate.Yaml
