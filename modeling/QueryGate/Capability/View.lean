import QueryGate.Discovery.Snapshot

/-!
# Views

A view joins two sources of capabilities: a registry, which is fixed, and a snapshot
of what was discovered. Discovery only ever adds. The default fields of an object
are those of the registry if it has any, and a field accepts what either source that
mentions it lets it accept.

A view does not change: later snapshots are seen by later views only.
-/

namespace QueryGate

/-- A registry and a snapshot, taken together. -/
structure View where
  /-- The capabilities that are fixed. -/
  registry : Capabilities
  /-- The capabilities that were discovered. -/
  snapshot : Snapshot := .empty

namespace View

/-- What was discovered. -/
def discovered (v : View) : Capabilities := v.snapshot.entries

/-- Whether either source knows an object. -/
def knows (v : View) (object : String) : Bool :=
  v.registry.contains object || v.discovered.contains object

/-- The fields of an object that may be selected. -/
def fields (v : View) (object : String) : Names :=
  v.registry.fields object ∪ v.discovered.fields object

/-- The fields of an object selected when a request names none. -/
def defaults (v : View) (object : String) : List String :=
  let fixed := v.registry.defaults object
  if fixed.isEmpty then v.discovered.defaults object else fixed

/-- What the sources hold on an object. -/
def entriesOf (v : View) (object : String) : List Entry :=
  (v.registry.get? object).toList ++ (v.discovered.get? object).toList

/-- The operators that a field accepts: those of every entry that mentions it, and `=` if there
    is no such entry. -/
def operators (v : View) (object field : String) : Operators :=
  match (v.entriesOf object).filter fun e => e.mentions field with
  | [] => .ofList [.equal]
  | entries => entries.foldl (fun ops e => ops ∪ e.operatorsOf field) .empty

/-- The objects that either source knows. -/
def objects (v : View) : Names := .ofList (v.registry.keys ++ v.discovered.keys)

end View

end QueryGate
