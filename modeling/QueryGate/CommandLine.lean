import QueryGate.Gate
import QueryGate.Json.Printer

/-!
# The command line

What the program answers to a call: a code, and texts for the two streams of output.
Everything that a call can depend on is given to it (`Call`), so that the answer
(`Call.run`) is a function of the call.

Settings come from a configuration file, then from the environment, and then from the
arguments. Each of them overrides what came before.
-/

namespace QueryGate.CommandLine

/-- What a call of the program can depend on. -/
structure Call where
  /-- The arguments. -/
  arguments : List String
  /-- The variables of the environment. -/
  environment : Config.Environment := fun _ => none
  /-- The bytes of the input. -/
  input : List UInt8 := []
  /-- The files. -/
  files : Files

/-- What the program answers. -/
structure Answer where
  /-- The code of the answer, zero if all went well. -/
  code : Nat := 0
  /-- The output. -/
  output : String := ""
  /-- What is said beside the output. -/
  remarks : String := ""
  deriving DecidableEq, Repr

/-- Why a command fails: what went wrong, and what caused it. -/
abbrev Reasons := List String

/-! ## Texts -/

/-- How to use the program. -/
def usage : String :=
  "soql-gate: 能力白名单 SOQL 编译器\n" ++
  "\n" ++
  "USAGE:\n" ++
  "    soql-gate <COMMAND> [OPTIONS]\n" ++
  "\n" ++
  "COMMANDS:\n" ++
  "    compile <request.json|->    Compile a JSON query request (\"-\" reads stdin)\n" ++
  "        --docs <dir>            Artifact root to mine before compiling\n" ++
  "        --seed <file>           Registry seed JSON (default: built-in table)\n" ++
  "        --config <file>         YAML configuration file\n" ++
  "        --strict                Fail instead of dropping disallowed conditions\n" ++
  "    mine <dir>                  Mine an artifact tree and print the snapshot as JSON\n" ++
  "    objects [--docs <dir>]      List objects known to the registry and snapshot\n" ++
  "    version                     Show version information\n" ++
  "    help                        Show this help message\n" ++
  "\n" ++
  "ENVIRONMENT:\n" ++
  "    SOQL_GATE_DOCS_DIR          Artifact root (overridden by --docs)\n" ++
  "    SOQL_GATE_SEED              Registry seed path (overridden by --seed)\n" ++
  "    SOQL_GATE_STRICT            Strict mode (1/true/yes/on)\n" ++
  "    RUST_LOG                    Log filter, e.g. soql_gate=debug\n"

/-- The name and the version of the program. -/
def version : String := "soql-gate 0.3.0\n"

/-- Texts, each on a line of its own. -/
def lines (texts : List String) : String := String.join (texts.map (· ++ "\n"))

/-- The blanks that a text lacks to be as wide as `width`. -/
def padding (width : Nat) (s : String) : String := String.ofList (.replicate (width - s.length) ' ')

/-! ## Settings -/

/-- The argument behind the first one that is `flag`. -/
def flagValue? (flag : String) (arguments : List String) : Option String :=
  (arguments.dropWhile (· ≠ flag))[1]?

/-- Puts the settings among arguments on top of a configuration. -/
def withArguments (c : Config) (arguments : List String) : Config :=
  { c with
    documents := (flagValue? "--docs" arguments).or c.documents
    seed := (flagValue? "--seed" arguments).or c.seed
    options.strict := c.options.strict || arguments.contains "--strict" }

namespace Call

/-- The configuration that a call asks for. -/
def config (call : Call) (arguments : List String) : Except Reasons Config := do
  let c ← match flagValue? "--config" arguments with
    | some path => (Gate.readConfig call.files path).mapError fun failure =>
        s!"loading config {path}" :: failure.chain
    | none => .ok {}
  return withArguments (c.withEnvironment call.environment) arguments

/-- The gate that a call asks for. -/
def gate (call : Call) (arguments : List String) : Except Reasons Gate := do
  (Gate.ofConfig call.files (← call.config arguments)).mapError Failure.chain

/-! ## Commands -/

/-- The text of the request that is to be compiled. -/
def request (call : Call) (source : String) : Except Reasons String :=
  if source = "-" then
    match Text.readUtf8 call.input with
    | .ok text => .ok text
    | .error _ => .error ["reading request from stdin", FileError.notUtf8.message]
  else (call.files.readText source).mapError fun error => [s!"reading {source}", error.message]

/-- Compiles a request. -/
def compile (call : Call) (arguments : List String) : Except Reasons Answer := do
  match arguments.head?.filter fun source => !source.startsWith "--" with
  | none => .error ["compile needs a request file or '-'"]
  | some source =>
    -- the request is read before the gate is set up, and understood after
    let text ← call.request source
    let g ← call.gate (arguments.drop 1)
    match Request.ofText? text with
    | none => .error ["parsing query request", "not a request"]
    | some request =>
      let c ← (g.compile request).mapError fun error => [error.message]
      let answer : Json :=
        .object [("text", .string c.text), ("fieldsUsed", .ofStrings c.query.fields)]
      return {
        output := lines [answer.pretty]
        remarks := lines (c.dropped.map fun error => s!"dropped: {error.message}") }

/-- Scans a directory. -/
def mine (call : Call) (arguments : List String) : Except Reasons Answer := do
  match arguments with
  | [] => .error ["mine needs an artifact directory"]
  | directory :: arguments =>
    if !call.files.isDirectory directory then .error [s!"not a directory: {directory}"]
    else
      let c ← call.config arguments
      match c.fault? with
      | some fault => .error (Failure.configFault fault).chain
      | none =>
        let store : Store := { limits := c.limits }
        let found := (store.rescan call.files directory).current
        return {
          output := lines [found.toJson.pretty]
          remarks := lines (found.report.skipped.map fun s =>
            s!"skipped: {s.path} ({s.reason.message})") }

/-- Where an object that is in a view comes from. -/
def origin (v : View) (object : String) : String :=
  if v.discovered.contains object then
    if v.registry.contains object then "registry+discovered" else "discovered"
  else "registry"

/-- Lists the objects that requests can be for. -/
def objects (call : Call) (arguments : List String) : Except Reasons Answer := do
  let v := (← call.gate arguments).view
  return {
    output := lines <| v.objects.toList.map fun object =>
      let count := toString (v.fields object).size
      s!"{object}{padding 24 object} {padding 4 count}{count} fields  [{origin v object}]" }

/-- The answer to a call. -/
def run (call : Call) : Answer :=
  let answerOf (result : Except Reasons Answer) : Answer :=
    match result with
    | .ok answer => answer
    | .error reasons => { code := 1, remarks := lines ["Error: " ++ ": ".intercalate reasons] }
  match call.arguments with
  | [] => { code := 1, output := usage }
  | command :: arguments =>
    match command with
    | "compile" => answerOf (call.compile arguments)
    | "mine" => answerOf (call.mine arguments)
    | "objects" => answerOf (call.objects arguments)
    | "version" | "--version" | "-V" => { output := version }
    | "help" | "--help" | "-h" => { output := usage }
    | unknown =>
      { code := 1, output := usage, remarks := lines [s!"Unknown command: {unknown}", ""] }

/-! ## Files -/

/-- The paths that a call looks at, as far as the files known to it show: each argument may be one,
    and its configuration may name others. -/
def paths (call : Call) : List String :=
  let arguments := call.arguments.drop 1
  arguments ++ [arguments, arguments.drop 1].flatMap fun arguments =>
    match call.config arguments with
    | .ok c => c.documents.toList ++ c.seed.toList
    | .error _ => []

end Call

end QueryGate.CommandLine
