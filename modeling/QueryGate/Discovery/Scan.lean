import QueryGate.Discovery.Extract
import QueryGate.Discovery.Snapshot
import QueryGate.Name

/-!
# Scanning

A scan goes through the directories right below a root, each of which holds the
documents of one export and is named for its object. It never fails: what cannot be
used is passed over and put down in the report. Directories and files are taken in
the order of their names, and no more directories than allowed, whatever they are
named for. What lies at too long a path is not seen at all.

* `scanFile`: what a file adds to the findings on its object;
* `scanDirectory`: what a directory adds to a scan;
* `scan`: the whole root.
-/

namespace QueryGate

/-- How much is scanned. -/
structure ScanLimits where
  /-- The greatest number of directories. -/
  maxDirectories : Nat := 500
  /-- The greatest number of bytes of a document. -/
  maxBytes : Nat := 1048576
  deriving DecidableEq, Repr

/-- What has been found and looked at so far. -/
structure Scan where
  /-- What has been found. -/
  entries : Capabilities := .empty
  /-- What has been looked at. -/
  report : ScanReport := {}
  deriving DecidableEq, Repr

/-- The report with something passed over. -/
def ScanReport.skip (r : ScanReport) (path : String) (reason : SkipReason) : ScanReport :=
  { r with skipped := r.skipped ++ [⟨path, reason⟩] }

/-- The text of a document, unless it is too large or no text. -/
def readDocument (limits : ScanLimits) (bytes : List UInt8) : Except SkipReason String :=
  if limits.maxBytes < bytes.length then .error (.tooLarge bytes.length limits.maxBytes)
  else (Text.readUtf8 bytes).mapError .notUtf8

/-- Adds what a file of a directory says of an object. What is no document is not looked at. -/
def scanFile (limits : ScanLimits) (object directory : String)
    (state : Findings × ScanReport) (file : String × Node) : Findings × ScanReport :=
  match file.2, DocumentKind.ofFileName? file.1 with
  | .file bytes, some kind =>
    match readDocument limits bytes with
    | .ok text =>
      (state.1.merge (Document.ofText object kind text).findings,
        { state.2 with documents := state.2.documents + 1 })
    | .error reason => (state.1, state.2.skip (joinPath directory file.1) reason)
  | _, _ => state

/-- Adds what a directory says of the object it is named for. -/
def scanDirectory (limits : ScanLimits) (root : String) (s : Scan)
    (directory : String × List (String × Node)) : Scan :=
  let path := joinPath root directory.1
  match Name.ofDirectory? directory.1 with
  | none => { s with report := s.report.skip path .directoryName }
  | some object =>
    let files := directory.2.filter fun (name, _) => fitsPath (joinPath path name)
    let (findings, report) := files.foldl (scanFile limits object path)
      (.empty, { s.report with directories := s.report.directories + 1 })
    { entries := if findings.isEmpty then s.entries else s.entries.mergeEntry object findings.entry
      report }

/-- The directories among the entries of the directory at a path. -/
def subdirectories (root : String) (entries : List (String × Node)) :
    List (String × List (String × Node)) :=
  entries.filterMap fun (name, node) =>
    match node with
    | .directory below => if fitsPath (joinPath root name) then some (name, below) else none
    | .file _ => none

/-- Scans what lies below a root. -/
def scanEntries (limits : ScanLimits) (root : String) (entries : List (String × Node)) : Scan :=
  let directories := subdirectories root entries
  let truncated := limits.maxDirectories < directories.length
  (directories.take limits.maxDirectories).foldl (scanDirectory limits root)
    { report := { truncated } }

/-- Scans the directory at a path. -/
def scan (limits : ScanLimits) (files : Files) (root : String) : Scan :=
  match files.list root with
  | .ok entries => scanEntries limits root entries
  | .error error => { report := ({} : ScanReport).skip root (.unreadableRoot error) }

end QueryGate
