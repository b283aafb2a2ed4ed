import QueryGate.Request.Basic
import QueryGate.Number.Reading

/-!
# The normal form of requests

All shapes of requests say the same things, and their normal form says each of them
in one way: lists of fields, of clauses and of terms to sort by, and a limit that is
a number. The names of the object, of the fields to select and of those to sort by
are trimmed; the fields of conditions are trimmed when they are compiled.
-/

namespace QueryGate

/-- A clause of the conditions of a request. -/
inductive Clause where
  /-- The condition that a field compare with a value. -/
  | condition (field op : String) (value : Option Json)
  /-- An item that is no condition. -/
  | malformed (item : Json)

/-- A request in normal form. -/
structure NormalRequest where
  /-- The object to read from. -/
  object : String
  /-- The fields to select; none if the request leaves them open. -/
  fields : List String
  /-- The clauses that records must satisfy. -/
  clauses : List Clause
  /-- The fields to sort by, the first one first. -/
  orderBy : List (String × Direction)
  /-- The limit, unless it is missing or no number. -/
  limit : Option Binary64

/-- The clause of a condition, whose operator is `=` if it has none. -/
def Condition.clause (c : Condition) : Clause := .condition c.field (c.op.getD "=") c.value

/-- The clause of an item of a list of conditions. -/
def ConditionItem.clause : ConditionItem → Clause
  | .condition c => c.clause
  | .other value => .malformed value

/-- The clauses of conditions. -/
def Conditions.clauses : Conditions → List Clause
  | .list items => items.map ConditionItem.clause
  | .equalities members => members.map fun (field, value) => .condition field "=" (some value)

/-- The field and the direction of a term. -/
def OrderTerm.normalize (t : OrderTerm) : String × Direction :=
  (Text.trimmed t.field, .ofText t.direction)

/-- The finite number that a value stands for: a number or the text of one. -/
def Json.finite? : Json → Option Binary64
  | .number n => n.real?
  | .string s => (Real64.ofText? (Text.trim s.toList)).bind Real64.finite?
  | _ => none

/-- The normal form of a request. -/
def Request.normalize (r : Request) : NormalRequest where
  object := Text.trimmed r.object
  fields := (r.fields.getD []).map Text.trimmed
  clauses := (r.conditions.map Conditions.clauses).getD []
  orderBy := ((r.orderBy.map OrderTerms.terms).getD []).map OrderTerm.normalize
  limit := r.limit.bind Json.finite?

end QueryGate
