import QueryGate.Proofs.Number.Printing
import QueryGate.Query.Basic

/-!
# Reading queries

A reader of the texts that queries have,

`SELECT f, .. FROM o[ WHERE c AND ..][ ORDER BY f ASC|DESC, ..] LIMIT n`

which knows of the grammar alone: names and unquoted literals end at a delimiter, and
a quoted string at the first quote that is not doubled.

* `readName`, `readLiteral`, `readComparison`, …: read one part off the front of a
  text, and answer with what follows it;
* `Query.ofText?`: reads a whole text.
-/

namespace QueryGate

/-- Reads something off the front of a text, and answers with what follows it. -/
abbrev Reader (α : Type) := List Char → Option (α × List Char)

/-! ## The reader -/

/-- A character that neither a name nor an unquoted literal holds. -/
def isDelimiter (c : Char) : Bool :=
  Text.isBlank c || c == ',' || c == '\'' || c == '(' || c == ')'

/-- The characters before the first delimiter, and what follows them. -/
def spanToken (cs : List Char) : List Char × List Char :=
  (cs.takeWhile (!isDelimiter ·), cs.dropWhile (!isDelimiter ·))

/-- Reads a name. -/
def readName : Reader String := fun cs =>
  let (name, rest) := spanToken cs
  if name.isEmpty then none else some (String.ofList name, rest)

/-- Reads a string from behind its opening quote: a quote and a backslash stand for themselves
    where they are doubled, and a single quote ends the string. -/
def readQuoted : Reader (List Char)
  | [] => none
  | '\'' :: '\'' :: cs => (readQuoted cs).map fun (s, rest) => ('\'' :: s, rest)
  | '\\' :: '\\' :: cs => (readQuoted cs).map fun (s, rest) => ('\\' :: s, rest)
  | '\'' :: cs => some ([], cs)
  | '\\' :: _ => none
  | c :: cs => (readQuoted cs).map fun (s, rest) => (c :: s, rest)

/-- The literal that an unquoted text is. -/
def Literal.ofToken? (token : List Char) : Option Literal :=
  if token = "NULL".toList then some .null
  else if token = "TRUE".toList then some (.bool true)
  else if token = "FALSE".toList then some (.bool false)
  else if isDateText token then some (.date (String.ofList token))
  else (JsonNumber.ofText? token).map .number

/-- Reads a literal. -/
def readLiteral : Reader Literal
  | '\'' :: cs => (readQuoted cs).map fun (s, rest) => (.string (String.ofList s), rest)
  | cs =>
    let (token, rest) := spanToken cs
    (Literal.ofToken? token).map fun literal => (literal, rest)

/-- Reads items with a separator between them, `count` items at most. -/
def readList {α : Type} (separator : List Char) (read : Reader α) : ℕ → Reader (List α)
  | 0, _ => none
  | count + 1, cs =>
    (read cs).bind fun (item, rest) =>
      match Text.after separator rest with
      | some rest =>
        (readList separator read count rest).map fun (items, rest) => (item :: items, rest)
      | none => some ([item], rest)

/-- Reads an operator and the space behind it. -/
def readOperator : Reader Operator := fun cs =>
  Operator.all.findSome? fun op =>
    (Text.after (op.spelling.toList ++ [' ']) cs).map fun rest => (op, rest)

/-- Reads the operand of an operator. -/
def readOperand (op : Operator) : Reader Operand := fun cs =>
  if op.takesList then
    (Text.after ['('] cs).bind fun cs =>
      (readList ", ".toList readLiteral (cs.length + 1) cs).bind fun (literals, cs) =>
        (Text.after [')'] cs).map fun cs => (.list literals, cs)
  else (readLiteral cs).map fun (literal, cs) => (.one literal, cs)

/-- Reads a condition. -/
def readComparison : Reader Comparison := fun cs =>
  (readName cs).bind fun (field, cs) =>
    (Text.after [' '] cs).bind fun cs =>
      (readOperator cs).bind fun (op, cs) =>
        (readOperand op cs).map fun (operand, cs) => (⟨field, op, operand⟩, cs)

/-- Reads a direction. -/
def readDirection : Reader Direction := fun cs =>
  [.ascending, .descending].findSome? fun (direction : Direction) =>
    (Text.after direction.spelling.toList cs).map fun rest => (direction, rest)

/-- Reads a term of an order. -/
def readOrderTerm : Reader (String × Direction) := fun cs =>
  (readName cs).bind fun (field, cs) =>
    (Text.after [' '] cs).bind fun cs =>
      (readDirection cs).map fun (direction, cs) => ((field, direction), cs)

/-- Reads the items behind a keyword, or none if it does not stand there. -/
def readPart {α : Type} (keyword separator : List Char) (read : Reader α) : Reader (List α) :=
  fun cs =>
    match Text.after keyword cs with
    | some cs => readList separator read (cs.length + 1) cs
    | none => some ([], cs)

/-- Reads the limit that ends a text. -/
def readLimit? (cs : List Char) : Option ℕ :=
  if cs.isEmpty || !cs.all Char.isDigit then none else some (digitsValue 0 cs)

/-- Reads the text of a query. -/
def Query.ofText? (s : String) : Option Query :=
  (Text.after "SELECT ".toList s.toList).bind fun cs =>
    (readList ", ".toList readName (cs.length + 1) cs).bind fun (fields, cs) =>
      (Text.after " FROM ".toList cs).bind fun cs =>
        (readName cs).bind fun (object, cs) =>
          (readPart " WHERE ".toList " AND ".toList readComparison cs).bind
            fun (conditions, cs) =>
              (readPart " ORDER BY ".toList ", ".toList readOrderTerm cs).bind
                fun (orderBy, cs) =>
                  (Text.after " LIMIT ".toList cs).bind fun cs =>
                    (readLimit? cs).map fun limit =>
                      { fields, object, conditions, orderBy, limit }

/-! ## Tokens -/

theorem after_append (word rest : List Char) : Text.after word (word ++ rest) = some rest := by
  induction word with
  | nil => rfl
  | cons w word ih => simpa [Text.after, Text.afterBy] using ih

/-- What may follow a token. -/
def Ends (rest : List Char) : Prop := ∀ c ∈ rest.head?, c = ' ' ∨ c = ',' ∨ c = ')'

theorem ends_space (cs : List Char) : Ends (' ' :: cs) := by rintro _ ⟨⟩; exact .inl rfl

theorem ends_comma (cs : List Char) : Ends (',' :: cs) := by rintro _ ⟨⟩; exact .inr (.inl rfl)

theorem ends_closing (cs : List Char) : Ends (')' :: cs) := by rintro _ ⟨⟩; exact .inr (.inr rfl)

theorem Ends.head_ne_quote {rest : List Char} (h : Ends rest) : rest.head? ≠ some '\'' := by
  intro hq
  rcases h '\'' hq with h | h | h <;> cases h

/-- Whether a text can be read as a token: it holds no delimiter. -/
def IsToken (cs : List Char) : Prop := ∀ c ∈ cs, isDelimiter c = false

instance (cs : List Char) : Decidable (IsToken cs) :=
  decidable_of_iff (cs.all (!isDelimiter ·) = true) (by simp [IsToken])

theorem spanToken_append {token rest : List Char} (ht : IsToken token) (hr : Ends rest) :
    spanToken (token ++ rest) = (token, rest) := by
  have hpos : ∀ c ∈ token, (!isDelimiter c) = true := fun c hc => by rw [ht c hc]; rfl
  have hstop : rest.takeWhile (!isDelimiter ·) = [] ∧ rest.dropWhile (!isDelimiter ·) = rest := by
    cases rest with
    | nil => exact ⟨rfl, rfl⟩
    | cons c cs =>
      have hc : isDelimiter c = true := by rcases hr c rfl with rfl | rfl | rfl <;> decide
      simp [hc]
  simp only [spanToken]
  rw [List.takeWhile_append_of_pos hpos, List.dropWhile_append_of_pos hpos, hstop.1, hstop.2,
    List.append_nil]

/-- A name of an object or a field in a query: not empty, without delimiters. -/
structure Name.IsPlain (s : String) : Prop where
  ne_empty : s ≠ ""
  token : IsToken s.toList

theorem readName_append {s : String} (hs : Name.IsPlain s) {rest : List Char} (hr : Ends rest) :
    readName (s.toList ++ rest) = some (s, rest) := by
  have hne : s.toList.isEmpty = false := by simpa using hs.ne_empty
  simp [readName, spanToken_append hs.token hr, hne]

/-! ## Literals -/

/-- A string is read back whatever it holds. -/
theorem readQuoted_escape (s : List Char) {rest : List Char} (hr : rest.head? ≠ some '\'') :
    readQuoted (s.flatMap Literal.escape ++ '\'' :: rest) = some (s, rest) := by
  induction s with
  | nil =>
    cases rest with
    | nil => rfl
    | cons c cs =>
      have hc : c ≠ '\'' := by simpa using hr
      simp [readQuoted, hc]
  | cons c cs ih =>
    by_cases hq : c = '\''
    · subst hq
      simp [Literal.escape, readQuoted, ih]
    by_cases hb : c = '\\'
    · subst hb
      simp [Literal.escape, readQuoted, ih]
    simp [Literal.escape, readQuoted, ih, hq, hb]

end QueryGate
