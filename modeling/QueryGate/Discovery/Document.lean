import QueryGate.Capability.Entry
import QueryGate.Text.Scan

/-!
# Documents

The documents that exports leave behind, each about one object, and what is learned
from them. There are three kinds, told apart by the names of the files: tables of list
views and reports, libraries of queries, and accounts of how fields are used.

What is learned from a document is an entry, and the issues with the parts of it that
could not be used (`Findings`).
-/

namespace QueryGate

/-- The kind of a document. -/
inductive DocumentKind where
  /-- List views and reports, with the queries they run. -/
  | tabular
  /-- Saved queries, with requests in fenced blocks. -/
  | queryLibrary
  /-- Prose and lists on the use of fields. -/
  | usage
  deriving DecidableEq, Repr

namespace DocumentKind

/-- The name of a kind. -/
def name : DocumentKind → String
  | tabular => "tabular"
  | queryLibrary => "query_library"
  | usage => "usage"

/-- The kind with a name. -/
def ofName? (s : String) : Option DocumentKind :=
  [tabular, queryLibrary, usage].find? fun kind => kind.name == s

/-- Whether a text ends with another. -/
def endsWith (cs ending : List Char) : Bool := ending.isSuffixOf cs

/-- The kind of a file, by its name; files that are no documents have none. -/
def ofFileName? (s : String) : Option DocumentKind :=
  let name := Text.lowered s.toList
  let holds (word : String) := Text.occurs word.toList name
  let endings := [".md", ".markdown", ".txt"]
  if !endings.any fun ending => endsWith name ending.toList then none
  else if holds "quer" || holds "library" then some queryLibrary
  else if holds "usage" || holds "snapshot" then some usage
  else if holds "list" || holds "report" || holds "column" then some tabular
  else none

end DocumentKind

/-- A document. -/
structure Document where
  /-- The object that the document is about. -/
  object : String
  /-- The kind of the document. -/
  kind : DocumentKind
  /-- Its text, with line feeds alone at the ends of lines. -/
  text : List Char

/-- The document with a text, whatever its lines end with. -/
def Document.ofText (object : String) (kind : DocumentKind) (text : String) : Document :=
  { object, kind, text := Text.unifyLineEnds text.toList }

/-- A part of a document that could not be used. -/
inductive Issue where
  /-- A select list reads from another object. -/
  | foreignSelect (source object : String)
  /-- A clause of conditions reads from another object. -/
  | foreignWhere (source object : String)
  /-- A request is for another object. -/
  | foreignPayload (target object : String)
  /-- A condition of a request has no known operator. -/
  | unknownOperator (field op : String)
  /-- The fenced block with a number is not JSON. -/
  | invalidJson (number : Nat)
  deriving DecidableEq, Repr

/-- The wording of an issue. -/
def Issue.message : Issue → String
  | .foreignSelect source object => s!"select list reads from '{source}', not '{object}'"
  | .foreignWhere source object => s!"WHERE clause reads from '{source}', not '{object}'"
  | .foreignPayload target object => s!"payload targets '{target}', not '{object}'"
  | .unknownOperator field op => s!"{field}: {Operator.unknownMessage op}"
  | .invalidJson number =>
    s!"fenced block {number}: invalid JSON: the text is not a JSON value"

/-- What is learned from a document. -/
structure Findings where
  /-- The fields and operators. -/
  entry : Entry := .empty
  /-- The issues, in the order of the document. -/
  issues : List Issue := []
  deriving DecidableEq, Repr

namespace Findings

/-- Nothing learned. -/
def empty : Findings := {}

/-- Whether there is neither a field nor an operator. -/
def isEmpty (f : Findings) : Bool := f.entry.isEmpty

/-- What is learned from either. -/
def merge (f g : Findings) : Findings where
  entry := f.entry.merge g.entry
  issues := f.issues ++ g.issues

/-- The findings with one more issue. -/
def report (f : Findings) (issue : Issue) : Findings := { f with issues := f.issues ++ [issue] }

end Findings

end QueryGate
