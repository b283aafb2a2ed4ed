import QueryGate.Operator
import QueryGate.Sorted.Map

/-!
# Capabilities

What may be selected and filtered on the objects of a data store. An *entry* holds
what is known of one object: the fields that may be selected, those that are
selected when a request names none, and for some fields the operators they accept.
A field without operators of its own accepts `=` alone.

Entries only ever grow: `Entry.merge` joins what two sources say of an object.
-/

namespace QueryGate

/-- A set of names. -/
abbrev Names := SortedSet String

/-- What may be selected and filtered on one object. -/
structure Entry where
  /-- The fields that may be selected. -/
  fields : Names := .empty
  /-- The fields selected when a request names none. -/
  defaults : List String := []
  /-- The operators of the fields that have some of their own. -/
  operators : SortedMap String Operators := .empty
  deriving DecidableEq, Repr

namespace Entry

/-- The entry that says nothing. -/
def empty : Entry := {}

instance : Inhabited Entry := ⟨empty⟩

/-- Whether there is neither a field nor an operator. -/
def isEmpty (e : Entry) : Bool := e.fields.isEmpty && e.operators.isEmpty

/-- Whether the entry says anything of a field. -/
def mentions (e : Entry) (field : String) : Bool :=
  field ∈ e.fields || e.operators.contains field

/-- The operators of a field: its own, or `=` alone. -/
def operatorsOf (e : Entry) (field : String) : Operators :=
  (e.operators.get? field).getD (.ofList [.equal])

/-- The entry with one more field. -/
def addField (e : Entry) (field : String) : Entry := { e with fields := e.fields.insert field }

/-- The entry with all the fields of a list. -/
def addFields (e : Entry) (fields : List String) : Entry := fields.foldl addField e

/-- The entry in which a field accepts one more operator; it may be selected as well. -/
def addOperator (e : Entry) (field : String) (op : Operator) : Entry :=
  { e with
    fields := e.fields.insert field
    operators := e.operators.alter field fun ops => (ops.getD .empty).insert op }

/-- The entry in which a field accepts all the operators of a list. -/
def addOperators (e : Entry) (field : String) (ops : List Operator) : Entry :=
  ops.foldl (fun e op => e.addOperator field op) e

/-- The entry with other default fields. -/
def withDefaults (e : Entry) (fields : List String) : Entry := { e with defaults := fields }

/-- The list with a name at its end, unless it is there already. -/
def appendNew (names : List String) (name : String) : List String :=
  if name ∈ names then names else names ++ [name]

/-- What either entry says. The default fields of the first one come first. -/
def merge (e other : Entry) : Entry where
  fields := e.fields ∪ other.fields
  defaults := other.defaults.foldl appendNew e.defaults
  operators := other.operators.entries.foldl (fun ops (field, more) =>
    ops.alter field fun old => old.getD .empty ∪ more) e.operators

end Entry

/-- The entries of objects, by name. -/
abbrev Capabilities := SortedMap String Entry

namespace Capabilities

/-- The fields of an object that may be selected, none if it is unknown. -/
def fields (c : Capabilities) (object : String) : Names :=
  ((c.get? object).map Entry.fields).getD .empty

/-- The default fields of an object, none if it is unknown. -/
def defaults (c : Capabilities) (object : String) : List String :=
  ((c.get? object).map Entry.defaults).getD []

/-- The operators of a field, none if its object is unknown. -/
def operators (c : Capabilities) (object field : String) : Operators :=
  ((c.get? object).map fun e => e.operatorsOf field).getD .empty

/-- The capabilities with an entry merged into that of an object. -/
def mergeEntry (c : Capabilities) (object : String) (e : Entry) : Capabilities :=
  c.alter object fun old => (old.getD .empty).merge e

end Capabilities

end QueryGate
