import QueryGate.Json.Reader
import QueryGate.Yaml.Cursor
import QueryGate.Yaml.Node

/-!
# YAML scalars

The four ways of writing a scalar. Where a scalar goes on over several lines its line
ends are *folded*: a single line feed counts as a space, and of several all but the
first are kept. Blocks of lines keep them all, if they are not folded, and end with as
many line ends as their header asks for.

All readers answer with nothing if the text is not YAML.
-/

namespace QueryGate.Yaml

/-! ## Gaps -/

/-- A stretch of blanks and line ends within a scalar. -/
structure Gap where
  /-- The blanks before the first line end. -/
  blanks : List Char := []
  /-- The line ends. -/
  breaks : List Char := []

/-- What a gap counts as. -/
def Gap.text (g : Gap) : List Char :=
  match g.breaks with
  | [] => g.blanks
  | ['\n'] => [' ']
  | '\n' :: more => more
  | breaks => breaks

/-- Whether a gap is none. -/
def Gap.isEmpty (g : Gap) : Bool := g.breaks.isEmpty && g.blanks.isEmpty

/-- Reads a gap, or the rest of one that has gone over a line end. Behind a line end no tab may
    stand in place of an indentation. -/
def readGap (indent : Nat) : (broken : Bool) → (count : Nat) → Cursor → Option (Gap × Cursor)
  | _, 0, c => some ({}, c)
  | broken, count + 1, c =>
    match c.rest with
    | [] => some ({}, c)
    | b :: _ =>
      if isBreak b then
        (readGap indent true count c.next).map fun (g, c) => ({ g with breaks := b :: g.breaks }, c)
      else if !isBlank b then some ({}, c)
      else if !broken then
        (readGap indent false count c.next).map fun (g, c) =>
          ({ g with blanks := b :: g.blanks }, c)
      else if b = '\t' ∧ c.column < indent then none
      else readGap indent true count c.next

/-! ## Plain scalars -/

/-- A mark that parts the entries of bracketed collections, or encloses them. -/
def isFlowMark (c : Char) : Bool := c ∈ [',', '[', ']', '\x7b', '\x7d']

/-- Whether a plain scalar can begin with a text. -/
def canStartPlain (flow : Bool) : List Char → Bool
  | [] => false
  | c :: cs =>
    if c = '-' then !endsWord cs
    else if c = '?' ∨ c = ':' then !flow && !endsWord cs
    else !isGap c && !(isFlowMark c) &&
      c ∉ ['#', '&', '*', '!', '|', '>', '\'', '"', '%', '@', '\x60']

/-- The characters of a plain scalar up to the next gap. -/
def plainRun (flow : Bool) : List Char → Option (List Char)
  | [] => some []
  | c :: cs =>
    if isGap c then some []
    else if flow && c == ':' && cs.head?.any fun d => d == '?' || isFlowMark d then none
    else if c == ':' && endsWord cs then some []
    else if flow && isFlowMark c then some []
    else (plainRun flow cs).map (c :: ·)

/-- Reads the rest of a plain scalar behind a gap, the text of the gap included if the scalar goes
    on. A key may begin behind a scalar that the end of a line has ended. -/
def plainFrom (flow : Bool) (indent : Nat) : (count : Nat) → Gap → Cursor →
    Option (List Char × Cursor)
  | 0, _, _ => none
  | count + 1, gap, c =>
    let stop (gap : Gap) (c : Cursor) : Option (List Char × Cursor) :=
      some ([], { c with fresh := !gap.breaks.isEmpty })
    if c.atBoundary || c.rest.head? = some '#' then stop gap c
    else
      match plainRun flow c.rest with
      | none => none
      | some [] => stop gap c
      | some run => do
        let (behind, c) ← readGap indent false count (c.advance run.length)
        let (text, c) ← if behind.isEmpty ∨ !flow ∧ c.column < indent then stop behind c
          else plainFrom flow indent count behind c
        return (gap.text ++ run ++ text, c)

/-- Reads a plain scalar. -/
def readPlain (flow : Bool) (indent : Nat) (count : Nat) (c : Cursor) :
    Option (Scalar × Cursor) :=
  (plainFrom flow indent count {} c).map fun (text, c) => ({ text := String.ofList text }, c)

/-! ## Quoted scalars -/

/-- The character that a letter behind a backslash stands for. -/
def namedEscape? (c : Char) : Option Char :=
  [('0', 0x00), ('a', 0x07), ('b', 0x08), ('t', 0x09), ('\t', 0x09), ('n', 0x0A), ('v', 0x0B),
   ('f', 0x0C), ('r', 0x0D), ('e', 0x1B), (' ', 0x20), ('"', 0x22), ('/', 0x2F), ('\\', 0x5C),
   ('N', 0x85), ('_', 0xA0), ('L', 0x2028), ('P', 0x2029)].lookup c |>.map Char.ofNat

/-- The number of digits behind a letter that gives a character by its number. -/
def numberedEscape? (c : Char) : Option Nat := [('x', 2), ('u', 4), ('U', 8)].lookup c

/-- The character that an escape stands for, and the length of the escape behind the backslash. -/
def readEscape : List Char → Option (Char × Nat)
  | [] => none
  | c :: cs =>
    match namedEscape? c with
    | some meant => some (meant, 1)
    | none =>
      match numberedEscape? c with
      | none => none
      | some digits =>
        let written := cs.take digits
        if written.length < digits then none
        else (Json.hexNumber? written).bind fun n =>
          if n.isValidChar then some (Char.ofNat n, digits + 1) else none

/-- Reads the rest of a quoted scalar, up to its closing quote. -/
def quotedFrom (quote : Char) : (count : Nat) → Cursor → Option (List Char × Cursor)
  | 0, _ => none
  | count + 1, c =>
    let goOn (text : List Char) (c : Cursor) :=
      (quotedFrom quote count c).map fun (more, c) => (text ++ more, c)
    if c.atBoundary then none
    else
      match c.rest with
      | [] => none
      | ch :: rest =>
        if ch = quote then
          if quote = '\'' ∧ rest.head? = some '\'' then goOn ['\''] (c.advance 2)
          else some ([], c.behindMark false)
        else if isGap ch then (readGap 0 false count c).bind fun (gap, c) => goOn gap.text c
        else if ch = '\\' ∧ quote = '"' then
          -- an escaped line end counts as nothing, and so does the indentation behind it
          if rest.head?.any isBreak then
            (readGap 0 true count (c.advance 2)).bind fun (gap, c) => goOn gap.breaks c
          else
            (readEscape rest).bind fun (meant, length) => goOn [meant] (c.advance (length + 1))
        else goOn [ch] c.next

/-- Reads a quoted scalar, from its opening quote on. -/
def readQuoted (quote : Char) (count : Nat) (c : Cursor) : Option (Scalar × Cursor) :=
  (quotedFrom quote count c.next).map fun (text, c) =>
    ({ text := String.ofList text, style := .quoted }, c)

/-! ## Blocks of lines -/

/-- What is done with the line ends that end a block. -/
inductive Chomping where
  /-- None is kept. -/
  | strip
  /-- One is kept. -/
  | clip
  /-- All are kept. -/
  | keep
  deriving DecidableEq

/-- The chomping that a sign asks for. -/
def chomping? (c : Char) : Option Chomping :=
  if c = '-' then some .strip else if c = '+' then some .keep else none

/-- What is kept of the end of the last line and of those of the empty lines behind it. -/
def Chomping.kept (chomping : Chomping) (last : Option Char) (more : List Char) : List Char :=
  match chomping with
  | .strip => []
  | .clip => last.toList
  | .keep => last.toList ++ more

/-- What the header of a block asks for. -/
structure Header where
  /-- What is done with the last line ends. -/
  chomping : Chomping := .clip
  /-- How far the block is indented, if that is said. -/
  indent : Option Nat := none
  /-- The number of characters read. -/
  length : Nat := 0

/-- The header with the sign that may come next. -/
def Header.readSign (h : Header) (cs : List Char) : Header :=
  match (cs.drop h.length).head?.bind chomping? with
  | some chomping => { h with chomping, length := h.length + 1 }
  | none => h

/-- The header with the digit that may come next. -/
def Header.readDigit (h : Header) (cs : List Char) : Header :=
  match (cs.drop h.length).head?.filter Char.isDigit with
  | some digit => { h with indent := some (digitValue digit), length := h.length + 1 }
  | none => h

/-- Reads the header of a block: a sign and a digit, in either order, each of which may be
    missing. -/
def readHeader (cs : List Char) : Option Header :=
  let signFirst := ({} : Header).readSign cs
  let h := if signFirst.length = 0 then (signFirst.readDigit cs).readSign cs
    else signFirst.readDigit cs
  if h.indent = some 0 then none else some h

/-- What stands before a line of a block. -/
structure Lead where
  /-- The ends of empty lines. -/
  breaks : List Char := []
  /-- The deepest indentation of those lines and of the line behind them. -/
  deepest : Nat := 0

/-- Passes over empty lines and the indentation of the line behind them, of `indent` columns or,
    if that is not known yet, of any number. -/
def readLead (indent : Option Nat) : (count : Nat) → Cursor → Option (Lead × Cursor)
  | 0, c => some ({}, c)
  | count + 1, c =>
    let within := indent.all fun indent => c.column < indent
    match c.rest with
    | [] => some ({}, c)
    | b :: _ =>
      if isBreak b then
        (readLead indent count c.next).map fun (lead, c) =>
          ({ lead with breaks := b :: lead.breaks }, c)
      else if !within then some ({}, c)
      else if b = ' ' then
        (readLead indent count c.next).map fun (lead, behind) =>
          ({ lead with deepest := max lead.deepest (c.column + 1) }, behind)
      else if b = '\t' then none
      else some ({}, c)

/-- Reads the lines of a block that are indented by `indent` columns, behind a line that ended
    with `last`, if there was one, and began with a blank if it was `indented`. -/
def readLines (style : Style) (chomping : Chomping) (indent : Nat) : (count : Nat) →
    (last : Option Char) → (indented : Bool) → Lead → Cursor → Option (List Char × Cursor)
  | 0, _, _, _, _ => none
  | count + 1, last, wasIndented, lead, c =>
    if c.column ≠ indent ∨ c.rest.isEmpty then some (chomping.kept last lead.breaks, c)
    else do
      let line := c.rest.takeWhile fun d => !isBreak d
      let indented := line.head?.any isBlank
      -- two lines that are folded have a space between them unless there are empty lines
      let joint :=
        if style = .folded ∧ last = some '\n' ∧ !wasIndented ∧ !indented then
          if lead.breaks.isEmpty then [' '] else []
        else last.toList
      let behind := c.advance line.length
      let (next, c) ← readLead (some indent) count behind.next
      let (text, c) ← readLines style chomping indent count behind.rest.head? indented next c
      return (joint ++ lead.breaks ++ line ++ text, c)

/-- The style of the block that begins with a text. -/
def blockStyle? : List Char → Option Style
  | '|' :: _ => some .literal
  | '>' :: _ => some .folded
  | _ => none

/-- Reads a block of lines, from its header on; the mapping or sequence that it stands in begins
    at the column `outer`. -/
def readBlock (style : Style) (outer : Int) (count : Nat) (c : Cursor) :
    Option (Scalar × Cursor) := do
  let header ← readHeader (c.rest.drop 1)
  let c := (c.advance (header.length + 1)).skipWhile isBlank
  let c := if c.rest.head? = some '#' then c.skipLine else c
  if !c.atLineEnd then none
  else
    let given := header.indent.map fun indent => if 0 ≤ outer then outer.toNat + indent else indent
    let (lead, c) ← readLead given count c.next
    let indent := given.getD (max lead.deepest (max (outer + 1).toNat 1))
    let (text, c) ← readLines style header.chomping indent count none false lead c
    return ({ text := String.ofList text, style }, { c with fresh := true })

end QueryGate.Yaml
