import QueryGate.Capability.Seed
import QueryGate.Config
import QueryGate.Files.Basic

/-!
# Failures

Why a gate cannot be set up, or gives no answer. A failure knows its cause and words
it (`Failure.message`); some also say which setting is at fault and what it is that
complains (`Failure.context?`), and the message ends with that.
-/

namespace QueryGate

/-- Why the seed at a path cannot be used. -/
inductive SeedError where
  /-- It cannot be read. -/
  | unreadable (path : String) (error : FileError)
  /-- It is refused. -/
  | refused (fault : Seed.Fault)

/-- The wording of the error. -/
def SeedError.message : SeedError → String
  | .unreadable path error =>
    s!"Failed to load registry seed from {path}: {error.message}\n Hint: " ++
      "Check that the seed file exists and you have read permissions."
  | .refused fault => s!"Registry seed validation failed: {fault.message}"

/-- Where a failure lies. -/
structure FailureContext where
  /-- The setting or the file at fault. -/
  field : Option String := none
  /-- What is wrong with it. -/
  details : Option String := none
  /-- What complains. -/
  source : Option String := none
  deriving DecidableEq, Repr

/-- The wording of a context, what is missing being left out. -/
def FailureContext.text (c : FailureContext) : String :=
  let parts := [("field", c.field), ("details", c.details), ("source", c.source)].filterMap
    fun (label, part) => part.map fun part => s!"{label}: {part}"
  if parts.isEmpty then "" else " (" ++ ", ".intercalate parts ++ ")"

/-- Why a gate cannot be set up, or gives no answer. -/
inductive Failure where
  /-- A request does not compile. -/
  | compile (error : CompileError)
  /-- The seed cannot be used. -/
  | seed (error : SeedError)
  /-- The configuration at a path cannot be read. -/
  | configUnreadable (path : String) (error : FileError)
  /-- A text is no configuration. -/
  | notConfig
  /-- The configuration has a fault. -/
  | configFault (fault : Config.Fault)
  /-- A text is no request. -/
  | notRequest

namespace Failure

/-- Where a failure lies. -/
def context? : Failure → Option FailureContext
  | .configUnreadable path _ => some { field := path, source := "gate_config" }
  | .configFault fault =>
    some { field := fault.key, details := fault.details, source := "gate_config" }
  | .notRequest => some { source := "query_compiler" }
  | .compile _ | .seed _ | .notConfig => none

/-- What caused a failure, in the words of the part of the program that it comes from. -/
def cause? : Failure → Option String
  | .compile error => some error.message
  | .seed error => some error.message
  | .notConfig => some "not a configuration"
  | .configUnreadable .. | .configFault _ | .notRequest => none

/-- What is said of a failure before its cause or its context. -/
def summary : Failure → String
  | .compile _ => "Compile error: "
  | .seed _ => "Registry error: "
  | .configUnreadable _ error => s!"Configuration error: cannot read config: {error.message}"
  | .notConfig => "YAML error: "
  | .configFault _ => "Configuration error: invalid gate configuration"
  | .notRequest => "Validation error: invalid query request: not a request"

/-- The wording of a failure. -/
def message (f : Failure) : String :=
  f.summary ++ f.cause?.getD "" ++ (f.context?.map FailureContext.text).getD ""

/-- The wordings of a failure and of its cause. -/
def chain (f : Failure) : List String := f.message :: f.cause?.toList

end Failure

end QueryGate
