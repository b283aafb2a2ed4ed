import QueryGate.Request.Basic
import QueryGate.Json.Printer

/-!
# Writing requests

A request is written as an object again, with the keys that its reader knows, and
without those for which it has nothing. Conditions and terms of an order are always
objects, whatever shape they were read from; items that are no conditions are
written as they are.
-/

namespace QueryGate

/-- The member with a key, if there is a value for it. -/
def Json.optionalMember (key : String) (value : Option Json) : List (String × Json) :=
  (value.map fun value => (key, value)).toList

/-- Writes a condition. -/
def Condition.toJson (c : Condition) : Json :=
  .object <| ("field", .string c.field) :: Json.optionalMember "op" (c.op.map .string) ++
    Json.optionalMember "value" c.value

/-- Writes an item of a list of conditions. -/
def ConditionItem.toJson : ConditionItem → Json
  | .condition c => c.toJson
  | .other value => value

/-- Writes conditions. -/
def Conditions.toJson : Conditions → Json
  | .list items => .array (items.map ConditionItem.toJson)
  | .equalities members => .object members

/-- Writes a term of an order. -/
def OrderTerm.toJson (t : OrderTerm) : Json :=
  .object <| ("field", .string t.field) ::
    Json.optionalMember "direction" (t.direction.map .string)

/-- Writes an order. -/
def OrderTerms.toJson : OrderTerms → Json
  | .one term => term.toJson
  | .many terms => .array (terms.map OrderTerm.toJson)

/-- Writes a request. -/
def Request.toJson (r : Request) : Json :=
  .object <| ("object", .string r.object) ::
    Json.optionalMember "fields" (r.fields.map fun fields => .array (fields.map .string)) ++
    Json.optionalMember "where" (r.conditions.map Conditions.toJson) ++
    Json.optionalMember "orderBy" (r.orderBy.map OrderTerms.toJson) ++
    Json.optionalMember "limit" r.limit

/-- The text of a request. -/
def Request.text (r : Request) : String := r.toJson.compact

end QueryGate
