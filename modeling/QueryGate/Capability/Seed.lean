import QueryGate.Capability.EntryJson
import QueryGate.Json.Printer
import QueryGate.Json.Reader
import QueryGate.Name

/-!
# Seeds

A *seed* is a JSON document that says which capabilities there are: an object that
has, for each object name, an entry with its `fields` and perhaps its
`defaultFields` and `operators`. A seed is checked in two rounds before it is used.

* Its *shape* (`shapeFaults`): every value is of the right type, every operator is
  one of the vocabulary in its own spelling, and there are no other keys. All faults
  are reported.
* Its *names* (`nameFault?`): objects and fields are named by the grammar of names,
  and default fields and the keys of operators are among the fields. The first fault
  is reported.
-/

namespace QueryGate.Seed

/-- A place where a seed has the wrong shape. -/
inductive ShapeFault where
  /-- A value is of another type. -/
  | wrongType (value : Json) (expected : String)
  /-- There is no object in the seed. -/
  | noObjects
  /-- There is no field in an entry. -/
  | noFields
  /-- A name is empty. -/
  | emptyName
  /-- A value is not the spelling of an operator. -/
  | unknownOperator (value : Json)
  /-- An entry has keys it should not have. -/
  | unexpectedKeys (keys : List String)
  /-- An entry does not say its fields. -/
  | missingFields

/-- The list of the operators, as a fault quotes it. -/
def vocabulary : String := (Json.ofStrings (Operator.all.map Operator.spelling)).compact

/-- The wording of a fault. -/
def ShapeFault.message : ShapeFault → String
  | .wrongType value expected => s!"{value.compact} is not of type \"{expected}\""
  | .noObjects => "\x7b\x7d has less than 1 property"
  | .noFields => "[] has less than 1 item"
  | .emptyName => "\"\" is shorter than 1 character"
  | .unknownOperator value => s!"{value.compact} is not one of {vocabulary}"
  | .unexpectedKeys keys =>
    let quoted := ", ".intercalate (keys.map fun key => s!"'{key}'")
    let verb := if keys.length = 1 then "was" else "were"
    s!"Additional properties are not allowed ({quoted} {verb} unexpected)"
  | .missingFields => "\"fields\" is a required property"

/-- A name in a seed that is not in order. -/
inductive NameFault where
  /-- An object is not named by the grammar. -/
  | objectName (object : String)
  /-- A field is not named by the grammar. -/
  | fieldName (object field : String)
  /-- A default field is not among the fields. -/
  | defaultNotListed (object field : String)
  /-- A field with operators is not named by the grammar. -/
  | operatorKeyName (object field : String)
  /-- A field with operators is not among the fields. -/
  | operatorKeyNotListed (object field : String)
  deriving DecidableEq, Repr

/-- The wording of a fault. -/
def NameFault.message : NameFault → String
  | .objectName object => s!"'{object}' is not a valid object name"
  | .fieldName object field => s!"{object}: '{field}' is not a valid field name"
  | .defaultNotListed object field =>
    s!"{object}: default field '{field}' is not listed in fields"
  | .operatorKeyName object field =>
    s!"{object}: operator key '{field}' is not a valid field name"
  | .operatorKeyNotListed object field =>
    s!"{object}: operator key '{field}' is not listed in fields"

/-- Why a seed is refused. -/
inductive Fault where
  /-- It is not JSON. -/
  | notJson
  /-- It has the wrong shape, in at least one place. -/
  | shape (faults : List ShapeFault)
  /-- A name is not in order. -/
  | name (fault : NameFault)
  /-- Its entries cannot be read. -/
  | unreadable

/-- The wording of a fault. -/
def Fault.message : Fault → String
  | .notJson => "Invalid JSON seed: the text is not a JSON value"
  | .shape faults =>
    "JSON Schema validation failed:" ++
      String.join (faults.map fun fault => "\n  - " ++ fault.message)
  | .name fault => fault.message
  | .unreadable => "Invalid seed shape: the entries cannot be read"

/-! ## Shape -/

/-- The faults of the name of a field. -/
def fieldFaults : Json → List ShapeFault
  | .string s => if s.isEmpty then [.emptyName] else []
  | value => [.wrongType value "string"]

/-- The faults of an operator. -/
def operatorFaults : Json → List ShapeFault
  | .string s =>
    if Operator.all.any fun op => op.spelling == s then [] else [.unknownOperator (.string s)]
  | value => [.unknownOperator value, .wrongType value "string"]

/-- The faults of a list, from those of its items. -/
def listFaults (itemFaults : Json → List ShapeFault) : Json → List ShapeFault
  | .array items => items.flatMap itemFaults
  | value => [.wrongType value "array"]

/-- The faults of the fields of an entry. -/
def fieldsFaults : Json → List ShapeFault
  | .array [] => [.noFields]
  | value => listFaults fieldFaults value

/-- The faults of the operators of an entry. -/
def operatorMapFaults : Json → List ShapeFault
  | .object members => members.flatMap fun (_, ops) => listFaults operatorFaults ops
  | value => [.wrongType value "object"]

/-- The faults of the value at a key of an entry. -/
def memberFaults (key : String) (value : Json) : List ShapeFault :=
  if key = "fields" then fieldsFaults value
  else if key = "defaultFields" then listFaults fieldFaults value
  else if key = "operators" then operatorMapFaults value
  else []

/-- The keys that an entry may have. -/
def entryKeys : List String := ["fields", "defaultFields", "operators"]

/-- The faults of an entry. -/
def entryFaults : Json → List ShapeFault
  | .object members =>
    let keys := members.map (·.1)
    let others := keys.filter fun key => key ∉ entryKeys
    members.flatMap (fun (key, value) => memberFaults key value) ++
      (if others.isEmpty then [] else [.unexpectedKeys others]) ++
      (if "fields" ∈ keys then [] else [.missingFields])
  | value => [.wrongType value "object"]

/-- The faults of the shape of a seed. -/
def shapeFaults : Json → List ShapeFault
  | .object [] => [.noObjects]
  | .object members => members.flatMap fun (_, e) => entryFaults e
  | value => [.wrongType value "object"]

/-! ## Names -/

/-- The strings in the list at a key of an entry. -/
def namesAt (e : Json) (key : String) : List String :=
  (((e.get? key).bind Json.array?).getD []).filterMap Json.string?

/-- The first fault among the names in an entry. -/
def entryNameFault? (object : String) (e : Json) : Option NameFault :=
  let fields := namesAt e "fields"
  let keys := (((e.get? "operators").bind Json.object?).getD []).map (·.1)
  (if Name.isObject object then none else some (.objectName object)) <|>
    (fields.findSome? fun field =>
      if Name.isField field then none else some (.fieldName object field)) <|>
    ((namesAt e "defaultFields").findSome? fun field =>
      if field ∈ fields then none else some (.defaultNotListed object field)) <|>
    (keys.findSome? fun field =>
      if !Name.isField field then some (.operatorKeyName object field)
      else if field ∈ fields then none
      else some (.operatorKeyNotListed object field))

/-- The first fault among the names in a seed. -/
def nameFault? (seed : Json) : Option NameFault :=
  (seed.object?.getD []).findSome? fun (object, e) => entryNameFault? object e

/-! ## Reading -/

/-- Checks a seed, given in canonical form. -/
def check (seed : Json) : Except Fault Unit :=
  match shapeFaults seed with
  | [] =>
    match nameFault? seed with
    | none => .ok ()
    | some fault => .error (.name fault)
  | faults => .error (.shape faults)

/-- The capabilities that a seed says there are, given its canonical form. -/
def ofJson (seed : Json) : Except Fault Capabilities := do
  check seed
  match Capabilities.ofJson? seed with
  | some c => .ok c
  | none => .error .unreadable

/-- The capabilities that the text of a seed says there are. -/
def ofText (text : String) : Except Fault Capabilities :=
  match Json.parse? text with
  | some seed => ofJson seed
  | none => .error .notJson

end QueryGate.Seed
