import QueryGate.Capability.View
import QueryGate.Name
import QueryGate.Query.Basic
import QueryGate.Request.Normal

/-!
# Compiling requests

A request is compiled into a query that selects, compares and sorts by nothing but
what a view allows. An unknown object and a list of fields of which none is allowed
are *hard* errors: there is no query. All other errors are *soft*. They concern one
item of the request, which is left out of the query and reported beside it, unless
the compilation is strict: then the first condition or term that would be left out
is an error too.

* `Selection`: the fields asked for, parted by whether they are allowed;
* `comparison`: one clause of the request as a condition of the query;
* `orderTerm`: one term of its order;
* `compile`: all of it.
-/

namespace QueryGate

/-! ## Errors -/

/-- What is wrong with a clause. -/
inductive ClauseFault where
  /-- It is no condition. -/
  | notCondition (item : Json)
  /-- Its field is blank. -/
  | emptyField
  /-- It has no value. -/
  | noValue (field : String)
  /-- Its value is an empty list. -/
  | emptyList (op : Operator)
  /-- Its value has no literal. -/
  | literal (error : LiteralError)

/-- The wording of a fault. -/
def ClauseFault.message : ClauseFault → String
  | .notCondition item => s!"not a \x7bfield, op, value\x7d object: {item.compact}"
  | .emptyField => "empty field"
  | .noValue field => s!"no value for '{field}'"
  | .emptyList op => s!"empty list for {op.spelling}"
  | .literal error => error.message

/-- Why a request, or an item of it, cannot be compiled. -/
inductive CompileError where
  /-- No source knows the object. -/
  | unknownObject (object : String)
  /-- None of the fields asked for is allowed. -/
  | noAllowedFields (object : String) (requested : List String)
  /-- A field is not allowed. -/
  | disallowedField (object field : String)
  /-- An operator is not allowed on a field. -/
  | disallowedOperator (field op : String)
  /-- The clause at a place is no proper condition. -/
  | malformedCondition (index : Nat) (fault : ClauseFault)
  /-- A field is not allowed to sort by. -/
  | disallowedOrderBy (field : String)

namespace CompileError

/-- The wording of the error. -/
def message : CompileError → String
  | unknownObject object => s!"Unknown object: {object}"
  | noAllowedFields object requested =>
    let names := ", ".intercalate requested
    s!"No allowed fields for {object} (requested: {names})"
  | disallowedField object field => s!"Field '{field}' is not allowed on {object}"
  | disallowedOperator field op => s!"Operator '{op}' is not allowed on field '{field}'"
  | malformedCondition index fault => s!"Malformed condition #{index}: {fault.message}"
  | disallowedOrderBy field => s!"ORDER BY target '{field}' is not allowed"

/-- Whether there is no query because of the error, however lenient the compilation. -/
def isHard : CompileError → Bool
  | unknownObject _ | noAllowedFields .. => true
  | _ => false

end CompileError

/-! ## Options -/

/-- How to compile. -/
structure CompileOptions where
  /-- The limit of a query whose request has none. -/
  defaultLimit : Nat := 50
  /-- The greatest limit of a query. -/
  maxLimit : Nat := 200
  /-- Whether a condition or term that is left out is an error. -/
  strict : Bool := false
  /-- Whether the fields sorted by must be allowed; otherwise any field name will do. -/
  validateOrderBy : Bool := true
  deriving DecidableEq, Repr

namespace CompileOptions

/-- The limit of a query for a number asked for: the whole part of it, if that is positive, as far
    as the greatest limit allows. -/
def clamp (options : CompileOptions) (requested : Binary64) : Nat :=
  if !requested.negative ∧ 1 ≤ requested.wholePart then min requested.wholePart options.maxLimit
  else options.defaultLimit

/-- The limit of a query for any value asked for, or for none. -/
def clampReal (options : CompileOptions) : Option Real64 → Nat
  | some (.finite x) => options.clamp x
  | some (.infinite false) => options.maxLimit
  | _ => options.defaultLimit

end CompileOptions

/-! ## Parts of a query -/

/-- The fields asked for, parted by whether they are allowed. -/
structure Selection where
  /-- The allowed fields, each once. -/
  allowed : List String
  /-- The other fields, as often as they are asked for. -/
  others : List String

/-- Parts the fields asked for. -/
def Selection.ofFields (allowed : Names) (requested : List String) : Selection where
  allowed := (requested.filter (· ∈ allowed)).foldl Entry.appendNew []
  others := requested.filter (· ∉ allowed)

/-- The operand of an operator for a value. A list is a value for those operators only that take
    one, and a scalar is a list of one for them. -/
def operand (op : Operator) (value : Json) : Except ClauseFault Operand :=
  if op.takesList then
    match value with
    | .array [] => .error (.emptyList op)
    | .array items => ((items.mapM Literal.ofJson).map .list).mapError .literal
    | scalar => ((Literal.ofJson scalar).map fun literal => .list [literal]).mapError .literal
  else if op = .like then ((Literal.patternOfJson value).map .one).mapError .literal
  else ((Literal.ofJson value).map .one).mapError .literal

/-- The condition of a query for the clause at a place of a request. -/
def comparison (view : View) (object : String) (index : Nat) : Clause →
    Except CompileError Comparison
  | .malformed item => .error (.malformedCondition index (.notCondition item))
  | .condition field op value =>
    let field := Text.trimmed field
    if field.isEmpty then .error (.malformedCondition index .emptyField)
    else
      match value with
      | none => .error (.malformedCondition index (.noValue field))
      | some value =>
        if field ∉ view.fields object then .error (.disallowedField object field)
        else
          match (Operator.parse? op).filter fun op => op ∈ view.operators object field with
          | none => .error (.disallowedOperator field op)
          | some parsed =>
            ((operand parsed value).map fun operand => ⟨field, parsed, operand⟩).mapError
              (.malformedCondition index)

/-- The conditions of a query for the clauses of a request, from a place on. -/
def comparisons (view : View) (object : String) (clauses : List Clause) :
    List (Except CompileError Comparison) :=
  clauses.mapIdx fun index clause => comparison view object index clause

/-- The term to sort by for a term of a request. -/
def orderTerm (view : View) (object : String) (options : CompileOptions)
    (term : String × Direction) : Except CompileError (String × Direction) :=
  let legal := if options.validateOrderBy then decide (term.1 ∈ view.fields object)
    else Name.isField term.1
  if legal then .ok term else .error (.disallowedOrderBy term.1)

/-! ## Compiling -/

/-- The result of a compilation. -/
structure Compiled where
  /-- The query. -/
  query : Query
  /-- The errors on what was left out: fields first, then conditions, then terms to sort by. -/
  dropped : List CompileError

/-- The text of the query. -/
def Compiled.text (c : Compiled) : String := String.ofList c.query.text

/-- Goes through results in order, keeping what went well and dropping what did not; if `strict`,
    the first error is the end of it. -/
def gather {α : Type} (strict : Bool) :
    List (Except CompileError α) → Except CompileError (List α × List CompileError)
  | [] => .ok ([], [])
  | .ok a :: results =>
    (gather strict results).map fun (kept, dropped) => (a :: kept, dropped)
  | .error e :: results =>
    if strict then .error e
    else (gather strict results).map fun (kept, dropped) => (kept, e :: dropped)

/-- The fields asked for: the default ones if the request names none. -/
def requestedFields (view : View) (request : NormalRequest) : List String :=
  if request.fields.isEmpty then view.defaults request.object else request.fields

/-- The limit of the query for a request. -/
def CompileOptions.limitOf (options : CompileOptions) (request : NormalRequest) : Nat :=
  match request.limit with
  | some x => options.clamp x
  | none => options.defaultLimit

/-- Compiles a request in normal form: conditions first, so that an error in one of them comes
    before any in the order. -/
def compileNormal (view : View) (options : CompileOptions) (request : NormalRequest) :
    Except CompileError Compiled :=
  let object := request.object
  let requested := requestedFields view request
  let selection := Selection.ofFields (view.fields object) requested
  if !view.knows object then .error (.unknownObject object)
  else if selection.allowed.isEmpty then .error (.noAllowedFields object requested)
  else do
    let (conditions, refused) ← gather options.strict (comparisons view object request.clauses)
    let (order, unsorted) ←
      gather options.strict (request.orderBy.map (orderTerm view object options))
    return {
      query := {
        fields := selection.allowed
        object
        conditions
        orderBy := order
        limit := options.limitOf request }
      dropped := selection.others.map (.disallowedField object) ++ refused ++ unsorted }

/-- Compiles a request. -/
def compile (view : View) (options : CompileOptions) (request : Request) :
    Except CompileError Compiled :=
  compileNormal view options request.normalize

end QueryGate
