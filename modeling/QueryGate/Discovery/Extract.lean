import QueryGate.Discovery.Narrative
import QueryGate.Discovery.WhereClause
import QueryGate.Json.Reader

/-!
# Extraction

What is learned from a document, by four extractors, each of which reads the kinds of
documents it is meant for.

* `tabular`: the fields of select lists. The first list that reads from the object
  of the document is also its default selection.
* `payload`: the fields and conditions of requests in fenced blocks. If none of
  them has anything to say, the text is read for select lists and conditions.
* `narrative`: the field names in lists of prose.
* `whereOperators`: the operators of conditions, unit by unit; a unit that reads
  from another object is passed over.
-/

namespace QueryGate

open Text

/-! ## Select lists -/

namespace Findings

/-- Adds what a select list says of an object. -/
def addFragment (object : String) (f : Findings) (fragment : Fragment) : Findings :=
  if fragment.source ≠ object then f.report (.foreignSelect fragment.source object)
  else
    let fields := fragment.fields
    if fields.isEmpty then f
    else
      let entry := if f.entry.defaults.isEmpty then f.entry.withDefaults fields else f.entry
      { f with entry := entry.addFields fields }

/-- Adds what the select lists of a document say. -/
def addSelectLists (document : Document) (f : Findings) : Findings :=
  (SelectList.fragments document.text).foldl (addFragment document.object) f

/-! ## Conditions -/

/-- Adds fields with the operators used on them. -/
def addUsages (f : Findings) (usages : List (String × Operator)) : Findings :=
  { f with entry := usages.foldl (fun e (field, op) => e.addOperator field op) f.entry }

/-- Adds what the conditions in a unit say of an object. -/
def addUnit (object : String) (f : Findings) (unit : List Char) : Findings :=
  if !WhereClause.mentionsWhere unit then f
  else
    match (WhereClause.sourceOf? unit).filter (· ≠ object) with
    | some other => f.report (.foreignWhere other object)
    | none => f.addUsages (WhereClause.usages unit)

/-- Adds what the conditions of a document say. -/
def addConditions (document : Document) (f : Findings) : Findings :=
  (WhereClause.units document.text).foldl (addUnit document.object) f

end Findings

/-! ## Payloads -/

namespace Payload

/-- A fenced block. -/
structure Block where
  /-- The word behind the opening fence. -/
  language : List Char
  /-- The lines of the block. -/
  body : List Char

/-- A character of the word behind a fence. -/
def isLanguagePart (c : Char) : Bool := c.isAlphanum || c == '_' || c == '-'

/-- Recognizes a fenced block: it begins on the line behind its opening fence and ends at the
    next fence. -/
def blockMatcher : Matcher Block := fun _ cs =>
  (after WhereClause.fence cs).bind fun rest =>
    let opening := rest.dropWhile fun c => c == ' ' || c == '\t'
    let language := opening.takeWhile isLanguagePart
    match rest.dropWhile (· != '\n') with
    | [] => none
    | _ :: lines =>
      (cutFirst (literal WhereClause.fence) none lines).map fun (body, _, rest) =>
        (⟨language, body⟩, rest)

/-- The text of a block that is to be read as JSON: it is not marked as anything else, and looks
    like an object or a list. -/
def Block.json? (b : Block) : Option (List Char) :=
  if b.language.isEmpty || sameLetters b.language "json".toList then
    let body := trim b.body
    if body.head? = some '\x7b' ∨ body.head? = some '[' then some body else none
  else none

/-- What payloads have said so far: the findings, and whether any payload added to them. -/
structure Harvest where
  /-- The findings. -/
  findings : Findings := .empty
  /-- Whether a payload has said anything. -/
  contributed : Bool := false

namespace Harvest

/-- Adds a change of the entry. -/
def contribute (h : Harvest) (change : Entry → Entry) : Harvest where
  findings := { h.findings with entry := change h.findings.entry }
  contributed := true

/-- Adds an issue. -/
def report (h : Harvest) (issue : Issue) : Harvest := { h with findings := h.findings.report issue }

/-- Adds a field that is selected. -/
def addField (h : Harvest) (value : Json) : Harvest :=
  match value.string?.filter Name.isField with
  | some field => h.contribute fun e => e.addField field
  | none => h

/-- Adds a condition. -/
def addCondition (h : Harvest) (condition : Json) : Harvest :=
  match ((condition.get? "field").bind Json.string?).filter Name.isField with
  | some field =>
    let text := ((condition.get? "op").bind Json.string?).getD "="
    match Operator.parse? text with
    | some op => h.contribute fun e => e.addOperator field op
    | none => h.report (.unknownOperator field text)
  | none => h

/-- Adds a field that is to be equal to something. -/
def addEquality (h : Harvest) (member : String × Json) : Harvest :=
  if Name.isField member.1 then h.contribute fun e => e.addOperator member.1 .equal else h

/-- Adds the conditions of a payload. -/
def addWhere (h : Harvest) : Option Json → Harvest
  | some (.array conditions) => conditions.foldl addCondition h
  | some (.object members) => members.foldl addEquality h
  | _ => h

/-- Adds a payload, if it is a request for the object. -/
def addPayload (object : String) (h : Harvest) (payload : Json) : Harvest :=
  if (payload.get? "fields").isNone && (payload.get? "where").isNone then h
  else
    match ((payload.get? "object").bind Json.string?).filter (· ≠ object) with
    | some target => h.report (.foreignPayload target object)
    | none =>
      let fields := ((payload.get? "fields").bind Json.array?).getD []
      (fields.foldl addField h).addWhere (payload.get? "where")

/-- Adds the payloads of the fenced block with a number. -/
def addBlock (object : String) (h : Harvest) (block : Block × Nat) : Harvest :=
  match block.1.json? with
  | none => h
  | some body =>
    match Json.parse? (String.ofList body) with
    | none => h.report (.invalidJson block.2)
    | some (.array payloads) => payloads.foldl (addPayload object) h
    | some payload => h.addPayload object payload

end Harvest

/-- The fenced blocks of a text, from left to right. -/
def blocks (cs : List Char) : List Block := findAll blockMatcher cs

/-- What the payloads of a document say. -/
def harvest (document : Document) : Harvest :=
  ((blocks document.text).zipIdx 1).foldl (Harvest.addBlock document.object) {}

/-- What is learned from a document with payloads. -/
def extract (document : Document) : Findings :=
  let h := harvest document
  if h.contributed then h.findings
  else (h.findings.addSelectLists document).addConditions document

end Payload

/-! ## Extractors -/

/-- A way of reading documents. -/
inductive Extractor where
  /-- Select lists. -/
  | tabular
  /-- Requests in fenced blocks. -/
  | payload
  /-- Lists in prose. -/
  | narrative
  /-- Conditions. -/
  | whereOperators
  deriving DecidableEq, Repr

namespace Extractor

/-- All extractors, in the order in which they are used. -/
def all : List Extractor := [tabular, payload, narrative, whereOperators]

/-- The name of an extractor. -/
def name : Extractor → String
  | tabular => "tabular"
  | payload => "payload"
  | narrative => "narrative"
  | whereOperators => "where_operators"

/-- Whether an extractor is meant for a kind of documents. -/
def accepts : Extractor → DocumentKind → Bool
  | tabular, .tabular => true
  | payload, .queryLibrary => true
  | narrative, .usage => true
  | whereOperators, .tabular => true
  | whereOperators, .usage => true
  | _, _ => false

/-- What an extractor learns from a document. -/
def extract : Extractor → Document → Findings
  | tabular, document => Findings.empty.addSelectLists document
  | payload, document => Payload.extract document
  | narrative, document => Narrative.extract document
  | whereOperators, document => Findings.empty.addConditions document

end Extractor

/-- What all extractors that are meant for a document learn from it. -/
def Document.findings (document : Document) : Findings :=
  (Extractor.all.filter fun x => x.accepts document.kind).foldl
    (fun f x => f.merge (x.extract document)) .empty

end QueryGate
