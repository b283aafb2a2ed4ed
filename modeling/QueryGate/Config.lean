import QueryGate.Discovery.Scan
import QueryGate.Number.Power
import QueryGate.Query.Compile
import QueryGate.Yaml.Reader
import QueryGate.Yaml.Value

/-!
# Configuration

What a gate is set up with: how it compiles, how much it scans, and where its
documents and its seed are. A configuration is written in YAML, as a mapping from
keys to values; keys that are missing keep their defaults and keys that nobody knows
are passed over. Variables of the environment come on top of it.

* `Config.ofText?`: reads a configuration;
* `Config.withEnvironment`: puts the environment on top;
* `Config.fault?`: why no gate can be set up. If there is no fault, a limit is at least one
  and the default limit is at most the greatest one.
-/

namespace QueryGate

/-- What a gate is set up with. -/
structure Config where
  /-- How to compile. -/
  options : CompileOptions := {}
  /-- How much to scan. -/
  limits : ScanLimits := {}
  /-- Where the documents are. -/
  documents : Option String := none
  /-- Where the seed is. -/
  seed : Option String := none
  deriving DecidableEq, Repr

namespace Config

/-! ## Reading -/

/-- The configuration with the value at a key; nothing if the value is of another kind. -/
def set? (c : Config) (key : String) (value : Yaml.Node) : Option Config :=
  match key with
  | "default_limit" =>
    (value.natural? (twoTo 32)).map fun n => { c with options.defaultLimit := n }
  | "max_limit" => (value.natural? (twoTo 32)).map fun n => { c with options.maxLimit := n }
  | "strict" => value.bool?.map fun b => { c with options.strict := b }
  | "validate_order_by" => value.bool?.map fun b => { c with options.validateOrderBy := b }
  | "max_artifact_dirs" =>
    (value.natural? (twoTo 64)).map fun n => { c with limits.maxDirectories := n }
  | "max_artifact_bytes" =>
    (value.natural? (twoTo 64)).map fun n => { c with limits.maxBytes := n }
  | "docs_dir" => value.optionalText?.map fun path => { c with documents := path }
  | "seed_path" => value.optionalText?.map fun path => { c with seed := path }
  | _ => some c

/-- The keys that are known. -/
def keys : List String :=
  ["default_limit", "max_limit", "strict", "validate_order_by", "max_artifact_dirs",
   "max_artifact_bytes", "docs_dir", "seed_path"]

/-- Puts the members of a mapping on top of a configuration. Each key is a scalar, and none that
    is known is among those `seen` before. -/
def setAll? (d : Yaml.Document) (c : Config) (seen : List String) :
    List (Yaml.Node × Yaml.Node) → Option Config
  | [] => some c
  | (key, value) :: rest =>
    match d.resolve key, d.resolve value with
    | some (.scalar key), some value =>
      -- unknown keys may be repeated, as their values are passed over
      if key.text ∈ keys ∧ key.text ∈ seen then none
      else (c.set? key.text value).bind fun c => setAll? d c (key.text :: seen) rest
    | _, _ => none

/-- The configuration that a document describes; an empty one leaves the defaults. -/
def ofDocument? : Option Yaml.Document → Option Config
  | none => some {}
  | some d =>
    match d.root with
    | .mapping members => setAll? d {} [] members
    | .scalar s => if s.text = "" ∧ s.style = .plain then some {} else none
    | .sequence _ | .alias _ => none

/-- Reads a configuration. -/
def ofText? (s : String) : Option Config := (Yaml.Document.ofText? s).bind ofDocument?

/-! ## Environment -/

/-- The variables of the environment. -/
abbrev Environment := String → Option String

/-- The value of a variable, unless it is blank. -/
def Environment.value? (env : Environment) (name : String) : Option String :=
  (env name).filter fun value => Text.trimmed value ≠ ""

/-- Whether a word switches something on. -/
def isOn (value : String) : Bool :=
  (Text.trimmed value).toLower ∈ ["1", "true", "yes", "on"]

/-- The variable that says where the documents are. -/
def documentsVariable : String := "SOQL_GATE_DOCS_DIR"

/-- The variable that says where the seed is. -/
def seedVariable : String := "SOQL_GATE_SEED"

/-- The variable that switches strict compilation on or off. -/
def strictVariable : String := "SOQL_GATE_STRICT"

/-- Puts the environment on top of a configuration. -/
def withEnvironment (c : Config) (env : Environment) : Config :=
  { c with
    documents := (env.value? documentsVariable).or c.documents
    seed := (env.value? seedVariable).or c.seed
    options.strict := ((env.value? strictVariable).map isOn).getD c.options.strict }

/-! ## Validation -/

/-- Why a gate cannot be set up. -/
inductive Fault where
  /-- No query may return anything. -/
  | noMaxLimit
  /-- A query without a limit would return nothing. -/
  | noDefaultLimit
  /-- The default limit is above the greatest one. -/
  | defaultAboveMax (default max : Nat)
  /-- No directory may be scanned. -/
  | noDirectories
  deriving DecidableEq, Repr

/-- The key that is at fault. -/
def Fault.key : Fault → String
  | .noMaxLimit => "max_limit"
  | .noDefaultLimit | .defaultAboveMax .. => "default_limit"
  | .noDirectories => "max_artifact_dirs"

/-- What is wrong with it. -/
def Fault.details : Fault → String
  | .defaultAboveMax default max => s!"{default} exceeds max_limit {max}"
  | .noMaxLimit | .noDefaultLimit | .noDirectories => "must be at least 1"

/-- The first fault of a configuration, if there is one. -/
def fault? (c : Config) : Option Fault :=
  let o := c.options
  if o.maxLimit = 0 then some .noMaxLimit
  else if o.defaultLimit = 0 then some .noDefaultLimit
  else if o.maxLimit < o.defaultLimit then some (.defaultAboveMax o.defaultLimit o.maxLimit)
  else if c.limits.maxDirectories = 0 then some .noDirectories
  else none

end Config

end QueryGate
