import QueryGate.Number.Shortest

/-!
# JSON values

A JSON value as a text writes it: the members of an object stand in the order of
the text, repeated keys included. What the value *means* is its `canonical` form,
in which members are in the order of their keys and the last of several members
with the same key is the one that counts.

A number is an integer as long as it is written as one and fits in 64 bits; all
others are numbers of binary64.
-/

namespace QueryGate

/-- A JSON number. -/
inductive JsonNumber where
  /-- An integer that fits in 64 bits, with or without a sign. -/
  | integer (n : Int)
  /-- Any other number. -/
  | real (x : Binary64)
  deriving DecidableEq

/-- A JSON value, the members of an object as written. -/
inductive Json where
  /-- `null`. -/
  | null
  /-- `true` or `false`. -/
  | bool (b : Bool)
  /-- A number. -/
  | number (n : JsonNumber)
  /-- A string. -/
  | string (s : String)
  /-- A list of values. -/
  | array (items : List Json)
  /-- Values by key. -/
  | object (members : List (String × Json))
  deriving Inhabited

namespace JsonNumber

/-- The text of a number. -/
def text : JsonNumber → List Char
  | .integer n => (toString n).toList
  | .real x => x.text

/-- The number of binary64 nearest to it. -/
def real? : JsonNumber → Option Binary64
  | .integer n => Binary64.ofInt? n
  | .real x => some x

end JsonNumber

namespace Json

/-- Puts a member in its place among members in the order of their keys; one with the same key
    gives way to it. -/
def insertMember (key : String) (value : Json) : List (String × Json) → List (String × Json)
  | [] => [(key, value)]
  | (k, v) :: members =>
    match compare key k with
    | .lt => (key, value) :: (k, v) :: members
    | .eq => (key, value) :: members
    | .gt => (k, v) :: insertMember key value members

mutual
/-- The value with the members of its objects in the order of their keys, the last of several
    members with the same key alone being kept. -/
def canonical : Json → Json
  | .array items => .array (canonicalItems items)
  | .object members => .object (canonicalMembers members [])
  | value => value

/-- The canonical forms of the items of a list. -/
def canonicalItems : List Json → List Json
  | [] => []
  | item :: items => canonical item :: canonicalItems items

/-- The canonical forms of the members of an object, added to those in `sorted`. -/
def canonicalMembers : (members sorted : List (String × Json)) → List (String × Json)
  | [], sorted => sorted
  | (key, value) :: members, sorted =>
    canonicalMembers members (insertMember key (canonical value) sorted)
end

mutual
/-- How deep lists and objects are nested in a value. -/
def depth : Json → Nat
  | .array items => itemsDepth items + 1
  | .object members => membersDepth members + 1
  | _ => 0

/-- The depth of the deepest item. -/
def itemsDepth : List Json → Nat
  | [] => 0
  | item :: items => max (depth item) (itemsDepth items)

/-- The depth of the deepest member. -/
def membersDepth : List (String × Json) → Nat
  | [] => 0
  | (_, value) :: members => max (depth value) (membersDepth members)
end

/-- The name of a value's type. -/
def kind : Json → String
  | .null => "null"
  | .bool _ => "boolean"
  | .number _ => "number"
  | .string _ => "string"
  | .array _ => "array"
  | .object _ => "object"

/-- The string, if the value is one. -/
def string? : Json → Option String
  | .string s => some s
  | _ => none

/-- The items, if the value is a list. -/
def array? : Json → Option (List Json)
  | .array items => some items
  | _ => none

/-- The members, if the value is an object. -/
def object? : Json → Option (List (String × Json))
  | .object members => some members
  | _ => none

/-- The value at a key, if the value is an object that has one there. -/
def get? (value : Json) (key : String) : Option Json :=
  value.object?.bind fun members => members.lookup key

/-- The values of the members with a key. -/
def allAt (key : String) (members : List (String × Json)) : List Json :=
  (members.filter fun (k, _) => k == key).map (·.2)

end Json

end QueryGate
