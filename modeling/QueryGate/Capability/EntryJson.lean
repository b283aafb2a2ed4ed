import QueryGate.Capability.Entry
import QueryGate.Json.Basic

/-!
# Entries in JSON

An entry is written as an object with the keys `fields`, `defaultFields` and
`operators`, all of them always. When it is read each may be missing, further keys
are of no account, and a list is taken to hold the three values in this order.
-/

namespace QueryGate

/-- The strings of a list. -/
def Json.strings? (value : Json) : Option (List String) :=
  value.array?.bind fun items => items.mapM Json.string?

/-- A list of strings. -/
def Json.ofStrings (names : List String) : Json := .array (names.map .string)

namespace Entry

/-- Reads the operators of a field. -/
def operatorsOfJson? (value : Json) : Option Operators :=
  value.strings?.bind fun names => (names.mapM Operator.parse?).map .ofList

/-- Reads the operators of fields. -/
def operatorMapOfJson? (value : Json) : Option (SortedMap String Operators) :=
  value.object?.bind fun members =>
    (members.mapM fun (member : String × Json) =>
      (operatorsOfJson? member.2).map fun ops => (member.1, ops)).map .ofList

/-- Reads an entry from its parts, each of which may be missing. -/
def ofParts? (fields defaults operators : Option Json) : Option Entry := do
  let fields ← match fields with
    | some value => value.strings?
    | none => some []
  let defaults ← match defaults with
    | some value => value.strings?
    | none => some []
  let operators ← match operators with
    | some value => operatorMapOfJson? value
    | none => some .empty
  return { fields := .ofList fields, defaults, operators }

/-- Reads an entry. -/
def ofJson? : Json → Option Entry
  | .object members =>
    ofParts? (members.lookup "fields") (members.lookup "defaultFields") (members.lookup "operators")
  | .array items => if 3 < items.length then none else ofParts? items[0]? items[1]? items[2]?
  | _ => none

/-- The operators of fields, written. -/
def operatorsJson (operators : SortedMap String Operators) : Json :=
  .object (operators.entries.map fun (field, ops) =>
    (field, .ofStrings (ops.toList.map Operator.spelling)))

/-- Writes an entry. -/
def toJson (e : Entry) : Json :=
  .object [("fields", .ofStrings e.fields.toList), ("defaultFields", .ofStrings e.defaults),
    ("operators", operatorsJson e.operators)]

end Entry

namespace Capabilities

/-- Reads entries by object. -/
def ofJson? (value : Json) : Option Capabilities :=
  value.object?.bind fun members =>
    (members.mapM fun (member : String × Json) =>
      (Entry.ofJson? member.2).map fun e => (member.1, e)).map .ofList

/-- Writes entries by object. -/
def toJson (c : Capabilities) : Json :=
  .object (c.entries.map fun (object, e) => (object, e.toJson))

end Capabilities

end QueryGate
