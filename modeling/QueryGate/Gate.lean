import QueryGate.Capability.Standard
import QueryGate.Discovery.Store
import QueryGate.Failure
import QueryGate.Request.Reader

/-!
# The gate

A gate stands between those who ask for queries and the data: it holds a registry
that never changes, a store of what was discovered, and the options to compile with.
A request is compiled against the view of both sources as it is at the time.

* `Gate.ofConfig`: sets up a gate;
* `Gate.compile`, `Gate.compileText`: compile a request;
* `Gate.rescan`, `Gate.clear`: replace what was discovered.
-/

namespace QueryGate

/-- A registry, a store and how to compile. -/
structure Gate where
  /-- The capabilities that are fixed. -/
  registry : Capabilities := Standard.capabilities
  /-- What was discovered. -/
  store : Store := {}
  /-- How to compile. -/
  options : CompileOptions := {}

namespace Gate

/-- The sources as they are now. -/
def view (g : Gate) : View := { registry := g.registry, snapshot := g.store.current }

/-- Compiles a request. -/
def compile (g : Gate) (request : Request) : Except CompileError Compiled :=
  QueryGate.compile g.view g.options request

/-- Compiles a request that is given as a text. -/
def compileText (g : Gate) (text : String) : Except Failure Compiled :=
  match Request.ofText? text with
  | some request => (g.compile request).mapError .compile
  | none => .error .notRequest

/-- Scans a directory. -/
def rescan (g : Gate) (files : Files) (directory : String) : Gate :=
  { g with store := g.store.rescan files directory }

/-- Forgets what was discovered. -/
def clear (g : Gate) : Gate := { g with store := g.store.clear }

/-! ## Setting up -/

/-- Reads a seed from a file. -/
def readSeed (files : Files) (path : String) : Except SeedError Capabilities := do
  let text ← (files.readText path).mapError (.unreadable path)
  (Seed.ofText text).mapError .refused

/-- Reads a configuration that is given as a text. -/
def configOfText (text : String) : Except Failure Config :=
  match Config.ofText? text with
  | some config => .ok config
  | none => .error .notConfig

/-- Reads a configuration from a file. -/
def readConfig (files : Files) (path : String) : Except Failure Config := do
  configOfText (← (files.readText path).mapError (.configUnreadable path))

/-- Sets up a gate. Its documents are scanned if they are in a directory, and are passed over if
    there is none. -/
def ofConfig (files : Files) (config : Config) : Except Failure Gate := do
  match config.fault? with
  | some fault => .error (.configFault fault)
  | none =>
    let registry ← match config.seed with
      | some path => (readSeed files path).mapError .seed
      | none => .ok Standard.capabilities
    let g : Gate := { registry, store := { limits := config.limits }, options := config.options }
    match config.documents.filter files.isDirectory with
    | some directory => return g.rescan files directory
    | none => return g

end Gate

end QueryGate
