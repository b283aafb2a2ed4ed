import QueryGate.Request.Basic
import QueryGate.Json.Reader

/-!
# Reading requests

A request is read from a JSON object by the keys `object`, `fields`, `where`,
`orderBy` and `limit`, or from a list of their values in this order. In an object a
key may be `null`, unless it is the name of the object, or missing; other keys are
of no account, to the point that their values are skipped unread. A key that stands
twice makes the object unreadable.

Conditions and terms of an order are read likewise, by the keys `field`, `op` and
`value` and by `field` and `direction`. An item of a list of conditions that cannot
be read as one is kept as it is, and refused when the query is compiled.
-/

namespace QueryGate

/-- The value at a key of an object as written: none if the key is missing, and no answer if it
    stands there more than once. -/
def Json.member? (key : String) (members : List (String × Json)) : Option (Option Json) :=
  match Json.allAt key members with
  | [] => some none
  | [value] => some (some value)
  | _ => none

/-- The value unless it is `null` or missing. -/
def Json.present? : Option Json → Option Json
  | some .null => none
  | value => value

/-- Reads a string that may be `null` or missing. -/
def Json.optionalString? (value : Option Json) : Option (Option String) :=
  match Json.present? value with
  | none => some none
  | some value => value.string?.map some

namespace Condition

/-- Reads a condition from its parts. -/
def ofParts? (field op value : Option Json) : Option Condition := do
  let field ← field.bind Json.string?
  let op ← Json.optionalString? op
  return { field, op, value := value.map Json.canonical }

/-- Reads a condition. -/
def ofJson? : Json → Option Condition
  | .object members => do
    ofParts? (← Json.member? "field" members) (← Json.member? "op" members)
      (← Json.member? "value" members)
  | .array items => if 3 < items.length then none else ofParts? items[0]? items[1]? items[2]?
  | _ => none

end Condition

/-- Reads an item of a list of conditions. -/
def ConditionItem.ofJson (value : Json) : ConditionItem :=
  match Condition.ofJson? value with
  | some c => .condition c
  | none => .other value.canonical

/-- Reads conditions. -/
def Conditions.ofJson? : Json → Option Conditions
  | .array items => some (.list (items.map ConditionItem.ofJson))
  | .object members => some (.equalities (Json.canonicalMembers members []))
  | _ => none

namespace OrderTerm

/-- Reads a term of an order from its parts. -/
def ofParts? (field direction : Option Json) : Option OrderTerm := do
  let field ← field.bind Json.string?
  let direction ← Json.optionalString? direction
  return { field, direction }

/-- Reads a term of an order. -/
def ofJson? : Json → Option OrderTerm
  | .object members => do
    ofParts? (← Json.member? "field" members) (← Json.member? "direction" members)
  | .array items => if 2 < items.length then none else ofParts? items[0]? items[1]?
  | _ => none

end OrderTerm

/-- Reads an order: as a single term if it can be one, else as a list of terms. -/
def OrderTerms.ofJson? (value : Json) : Option OrderTerms :=
  match OrderTerm.ofJson? value with
  | some term => some (.one term)
  | none => value.array?.bind fun items => (items.mapM OrderTerm.ofJson?).map .many

namespace Request

/-- Reads a part of a request that may be `null` or missing. -/
def optional? {α : Type} (read : Json → Option α) (value : Option Json) : Option (Option α) :=
  match Json.present? value with
  | none => some none
  | some value => (read value).map some

/-- Reads a request from its parts. -/
def ofParts? (object fields conditions orderBy limit : Option Json) : Option Request := do
  let object ← object.bind Json.string?
  let fields ← optional? (fun value => value.array?.bind (·.mapM Json.string?)) fields
  let conditions ← optional? Conditions.ofJson? conditions
  let orderBy ← optional? OrderTerms.ofJson? orderBy
  return { object, fields, conditions, orderBy, limit := (Json.present? limit).map Json.canonical }

/-- Reads a request. -/
def ofJson? : Json → Option Request
  | .object members => do
    ofParts? (← Json.member? "object" members) (← Json.member? "fields" members)
      (← Json.member? "where" members) (← Json.member? "orderBy" members)
      (← Json.member? "limit" members)
  | .array items =>
    if 5 < items.length then none
    else ofParts? items[0]? items[1]? items[2]? items[3]? items[4]?
  | _ => none

/-- The keys of a request. -/
def keys : List String := ["object", "fields", "where", "orderBy", "limit"]

/-- The members of a written object that have the keys of a request; the others are skipped. -/
def knownMembers? : List (List Json.StringUnit × Json.Written) → Option (List (String × Json))
  | [] => some []
  | (key, item) :: members =>
    match Json.unitsString? key, knownMembers? members with
    | some key, some rest =>
      if key ∈ keys then item.value?.map fun value => (key, value) :: rest else some rest
    | _, _ => none

/-- The value of a text, without the members that are no part of a request. -/
def jsonOfText? (s : String) : Option Json :=
  match Json.Written.ofText? s.toList with
  | some (.object members) => (knownMembers? members).map .object
  | some written => written.value?
  | none => none

/-- Reads the text of a request. -/
def ofText? (s : String) : Option Request :=
  ((jsonOfText? s).filter fun value => value.depth ≤ Json.maxDepth).bind ofJson?

end Request

end QueryGate
