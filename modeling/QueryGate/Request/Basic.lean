import QueryGate.Json.Basic
import QueryGate.Text.Blank
import QueryGate.Text.Letter

/-!
# Requests

A request asks for a query: it names an object, and perhaps fields, conditions, an
order and a limit. Requests come in several shapes. Conditions are a list, or an
object that gives for some fields the value to be equal to; an order is one term or
a list of terms. Nothing of this is decided here: a request keeps its shape, and
`Request.normalize` makes one shape of all.

Requests are also built step by step (`Request.filter`, `Request.thenBy`, …).
-/

namespace QueryGate

/-- A condition as it is asked for. Without an operator it means `=`; a value that is missing is
    something else than the value `null`. -/
structure Condition where
  /-- The field. -/
  field : String
  /-- The text of the operator. -/
  op : Option String := none
  /-- The value to compare with. -/
  value : Option Json := none

/-- An item of a list of conditions. -/
inductive ConditionItem where
  /-- A condition. -/
  | condition (c : Condition)
  /-- A value that is no condition, kept to be reported. -/
  | other (value : Json)

/-- The conditions of a request. -/
inductive Conditions where
  /-- A list of conditions. -/
  | list (items : List ConditionItem)
  /-- The values that fields are to be equal to, in the order of the fields. -/
  | equalities (members : List (String × Json))

/-- A term of an order: a field and the text of a direction. -/
structure OrderTerm where
  /-- The field. -/
  field : String
  /-- The text of the direction. -/
  direction : Option String := none

/-- The order of a request. -/
inductive OrderTerms where
  /-- A single term. -/
  | one (term : OrderTerm)
  /-- A list of terms. -/
  | many (terms : List OrderTerm)

/-- A request for a query. -/
structure Request where
  /-- The object to read from. -/
  object : String
  /-- The fields to select. -/
  fields : Option (List String) := none
  /-- The conditions on the records. -/
  conditions : Option Conditions := none
  /-- The order of the records. -/
  orderBy : Option OrderTerms := none
  /-- How many records there may be, as any value at all. -/
  limit : Option Json := none

/-- A direction to sort in. -/
inductive Direction where
  /-- From small to large. -/
  | ascending
  /-- From large to small. -/
  | descending
  deriving DecidableEq, Repr

namespace Direction

/-- The spelling of a direction in a query. -/
def spelling : Direction → String
  | ascending => "ASC"
  | descending => "DESC"

/-- Reads a direction: whatever does not say `DESC`, in any case, is ascending. -/
def ofText (s : Option String) : Direction :=
  match s with
  | some s =>
    if Text.sameLetters (Text.trim s.toList) "desc".toList then descending else ascending
  | none => ascending

end Direction

/-- The condition that a field be equal to a value, in the shape of a list item. -/
def ConditionItem.equality (member : String × Json) : ConditionItem :=
  .condition { field := member.1, op := some "=", value := some member.2 }

/-- The conditions as a list. -/
def Conditions.items : Conditions → List ConditionItem
  | .list items => items
  | .equalities members => members.map .equality

/-- The order as a list of terms. -/
def OrderTerms.terms : OrderTerms → List OrderTerm
  | .one term => [term]
  | .many terms => terms

namespace Request

/-! ## Building requests -/

/-- The request for an object, with the fields left open. -/
def ofObject (object : String) : Request := { object }

/-- The request with other fields. -/
def select (r : Request) (fields : List String) : Request := { r with fields := some fields }

/-- The request with one more condition. -/
def filter (r : Request) (c : Condition) : Request :=
  let items := (r.conditions.map Conditions.items).getD []
  { r with conditions := some (.list (items ++ [.condition c])) }

/-- The request with the conditions that fields be equal to values, and no others. -/
def whereEqual (r : Request) (members : List (String × Json)) : Request :=
  { r with conditions := some (.equalities members) }

/-- The request with one more term in its order. -/
def thenBy (r : Request) (field : String) (direction : Direction) : Request :=
  let term : OrderTerm := { field, direction := some direction.spelling }
  { r with
    orderBy := some <|
      match r.orderBy with
      | none => .one term
      | some order => .many (order.terms ++ [term]) }

/-- The request with another limit. -/
def limitTo (r : Request) (limit : Json) : Request := { r with limit := some limit }

end Request

end QueryGate
