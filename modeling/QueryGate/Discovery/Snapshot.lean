import QueryGate.Capability.EntryJson
import QueryGate.Files.Basic

/-!
# Snapshots

What a scan of exported documents found: for each object the fields and operators
that occur in its documents, with a report on what was looked at. A snapshot has a
version, which tells it from those published before it.
-/

namespace QueryGate

/-- Why a scan passed something over. -/
inductive SkipReason where
  /-- The root of the scan cannot be read. -/
  | unreadableRoot (error : FileError)
  /-- A directory is not named for an object. -/
  | directoryName
  /-- A document is larger than allowed. -/
  | tooLarge (size limit : Nat)
  /-- A document is no text. -/
  | notUtf8 (error : Text.Utf8Error)
  deriving DecidableEq, Repr

/-- The wording of the reason. -/
def SkipReason.message : SkipReason → String
  | .unreadableRoot error => s!"cannot read artifact root: {error.message}"
  | .directoryName => "directory name does not start with an object name"
  | .tooLarge size limit => s!"artifact is {size} bytes, limit is {limit}"
  | .notUtf8 error => s!"artifact is not UTF-8: {error.message}"

/-- Something that a scan passed over. -/
structure Skipped where
  /-- Where it lies. -/
  path : String
  /-- Why it was passed over. -/
  reason : SkipReason
  deriving DecidableEq, Repr

/-- What a scan looked at. -/
structure ScanReport where
  /-- The number of directories scanned. -/
  directories : Nat := 0
  /-- The number of documents read. -/
  documents : Nat := 0
  /-- What was passed over, in the order of the scan. -/
  skipped : List Skipped := []
  /-- Whether there were more directories than are scanned at most. -/
  truncated : Bool := false
  deriving DecidableEq, Repr

/-- What a scan found. -/
structure Snapshot where
  /-- The number of snapshots published up to this one, which is below `2 ^ 64`. -/
  version : Nat := 0
  /-- The directory that was scanned. -/
  source : Option String := none
  /-- What was found. -/
  entries : Capabilities := .empty
  /-- What was looked at. -/
  report : ScanReport := {}
  deriving DecidableEq, Repr

/-- The snapshot in which nothing was found. -/
def Snapshot.empty : Snapshot := {}

/-- The snapshot with given entries, from no scan. -/
def Snapshot.ofEntries (entries : Capabilities) : Snapshot := { entries }

/-- Writes what was passed over. -/
def Skipped.toJson (s : Skipped) : Json :=
  .object [("path", .string s.path), ("reason", .string s.reason.message)]

/-- Writes a report. -/
def ScanReport.toJson (r : ScanReport) : Json :=
  .object [("directories_scanned", .number (.integer r.directories)),
    ("documents_read", .number (.integer r.documents)),
    ("skipped", .array (r.skipped.map Skipped.toJson)), ("truncated", .bool r.truncated)]

/-- Writes a snapshot. -/
def Snapshot.toJson (s : Snapshot) : Json :=
  .object [("version", .number (.integer s.version)),
    ("source", (s.source.map Json.string).getD .null), ("entries", s.entries.toJson),
    ("report", s.report.toJson)]

end QueryGate
