import QueryGate.Operator
import QueryGate.Query.Literal
import QueryGate.Request.Basic

/-!
# Queries

A query as a structure: what it selects, from which object, under which conditions,
in which order and how much of it. Its text is

`SELECT f, .. FROM o[ WHERE c AND ..][ ORDER BY f ASC|DESC, ..] LIMIT n`
-/

namespace QueryGate

/-- What a condition compares a field with. -/
inductive Operand where
  /-- One literal. -/
  | one (literal : Literal)
  /-- A list of literals. -/
  | list (literals : List Literal)
  deriving DecidableEq

/-- A condition of a query. -/
structure Comparison where
  /-- The field. -/
  field : String
  /-- The operator. -/
  op : Operator
  /-- What the field is compared with. -/
  operand : Operand
  deriving DecidableEq

/-- A query. -/
structure Query where
  /-- The fields selected. -/
  fields : List String
  /-- The object they are read from. -/
  object : String
  /-- The conditions, all of which must hold. -/
  conditions : List Comparison
  /-- The fields to sort by, the first one first. -/
  orderBy : List (String × Direction)
  /-- The greatest number of records. -/
  limit : Nat
  deriving DecidableEq

/-- The texts of a list with a separator between them. -/
def joined (separator : String) (texts : List (List Char)) : List Char :=
  separator.toList.intercalate texts

/-- The text of an operand. -/
def Operand.text : Operand → List Char
  | .one literal => literal.text
  | .list literals => '(' :: joined ", " (literals.map Literal.text) ++ [')']

/-- The text of a condition. -/
def Comparison.text (c : Comparison) : List Char :=
  c.field.toList ++ ' ' :: c.op.spelling.toList ++ ' ' :: c.operand.text

/-- The text of a term of an order. -/
def orderTermText (term : String × Direction) : List Char :=
  term.1.toList ++ ' ' :: term.2.spelling.toList

namespace Query

/-- The part of the text that gives the conditions, if there are any. -/
def whereText (q : Query) : List Char :=
  if q.conditions.isEmpty then []
  else " WHERE ".toList ++ joined " AND " (q.conditions.map Comparison.text)

/-- The part of the text that gives the order, if there is one. -/
def orderText (q : Query) : List Char :=
  if q.orderBy.isEmpty then []
  else " ORDER BY ".toList ++ joined ", " (q.orderBy.map orderTermText)

/-- The text of a query. -/
def text (q : Query) : List Char :=
  "SELECT ".toList ++ joined ", " (q.fields.map String.toList) ++ " FROM ".toList ++
    q.object.toList ++ q.whereText ++ q.orderText ++ " LIMIT ".toList ++ (toString q.limit).toList

end Query

end QueryGate
