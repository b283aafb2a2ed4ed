import QueryGate.Json.Reader
import QueryGate.Yaml.Node

/-!
# Values of YAML scalars

What a scalar says depends on how it is written. A plain one is a number, a truth
value or nothing at all if it has the form of one; a block of kept lines may be a number or a
truth value as well, if its tag says so; and what is in quotes is text.
-/

namespace QueryGate.Yaml

/-- The tag of a type that everyone knows. -/
def knownTag (type : String) : Tag := ("tag:yaml.org,2002:" ++ type).toUTF8.toList

/-- Whether a scalar may be of a type that is not text. -/
def Scalar.mayBe (s : Scalar) (type : String) : Bool :=
  s.style = .plain || s.style = .literal && s.tag = some (knownTag type)

/-- The number that digits to a base write; there must be at least one. -/
def digitsTo? (base : Nat) (digits : List Char) : Option Nat :=
  let value? (c : Char) := (Json.hexValue? c).filter (· < base)
  if digits.isEmpty then none
  else digits.foldlM (fun n c => (value? c).map (base * n + ·)) 0

/-- The number that a text writes, in decimal unless it says otherwise. There may be a plus
    before it, but no zeros before a decimal. -/
def natural? (cs : List Char) : Option Nat :=
  let digits := if cs.head? = some '+' then cs.drop 1 else cs
  match digits with
  | '0' :: 'x' :: digits => digitsTo? 16 digits
  | '0' :: 'o' :: digits => digitsTo? 8 digits
  | '0' :: 'b' :: digits => digitsTo? 2 digits
  | '0' :: _ :: _ => none
  | digits => digitsTo? 10 digits

namespace Node

/-- The number that a node writes, if it is below `bound`. -/
def natural? (bound : Nat) : Node → Option Nat
  | .scalar s =>
    if s.mayBe "int" then (Yaml.natural? s.text.toList).filter (· < bound) else none
  | _ => none

/-- The truth value that a node writes. -/
def bool? : Node → Option Bool
  | .scalar s =>
    if !s.mayBe "bool" then none
    else if s.text ∈ ["true", "True", "TRUE"] then some true
    else if s.text ∈ ["false", "False", "FALSE"] then some false
    else none
  | _ => none

/-- The ways to write that there is nothing. -/
def nulls : List String := ["null", "Null", "NULL", "~"]

/-- The text that a node writes, which may say that there is none. A plain scalar without a tag
    may be empty for that; one that is tagged as nothing can say nothing else. -/
def optionalText? : Node → Option (Option String)
  | .scalar s =>
    match s.style, s.tag with
    | .plain, none => some (if s.text = "" ∨ s.text ∈ nulls then none else some s.text)
    | .plain, some tag =>
      if tag ≠ knownTag "null" then some (some s.text)
      else if s.text ∈ nulls then some none
      else none
    | _, _ => some (some s.text)
  | _ => none

end Node

end QueryGate.Yaml
