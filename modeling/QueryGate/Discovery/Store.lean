import QueryGate.Discovery.Scan

/-!
# The store

The store holds the snapshot that is in effect. Each scan makes a new snapshot and
publishes it in place of the old one, and so does clearing the store. Versions count
what was published: a store has a counter of its own for them. The counter has no bound
here. One of 64 bits does the same in every run of fewer than `2 ^ 64` operations, as
none publishes more than once (`Gate.Session.published_run_le`).
-/

namespace QueryGate

/-- Holds the snapshot in effect. -/
structure Store where
  /-- How much is scanned. -/
  limits : ScanLimits := {}
  /-- The snapshot in effect. -/
  current : Snapshot := .empty
  /-- The version of the last snapshot published, which is below `2 ^ 64`. -/
  published : Nat := 0

namespace Store

/-- The store with the next snapshot published. -/
def publish (s : Store) (source : Option String) (found : Scan) : Store :=
  let version := s.published + 1
  { s with
    current := { version, source, entries := found.entries, report := found.report }
    published := version }

/-- Scans a directory and publishes what is found. -/
def rescan (s : Store) (files : Files) (directory : String) : Store :=
  s.publish (some directory) (scan s.limits files directory)

/-- Publishes a snapshot in which nothing is found. -/
def clear (s : Store) : Store := s.publish none {}

end Store

end QueryGate
