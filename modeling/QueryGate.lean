import QueryGate.Main
import QueryGate.Files.Tree
import QueryGate.Proofs.Number.Rounding
import QueryGate.Proofs.Number.Shortest
import QueryGate.Proofs.Number.Reading
import QueryGate.Proofs.Number.Printing
import QueryGate.Proofs.Query.Reader
import QueryGate.Proofs.Query.LiteralReading
import QueryGate.Proofs.Query.QueryReading
import QueryGate.Proofs.Query.Clauses
import QueryGate.Proofs.Query.Sifting
import QueryGate.Proofs.Query.Accounting
import QueryGate.Proofs.Query.Rendering
import QueryGate.Proofs.Query.Outcomes
import QueryGate.Proofs.Query.Readability
import QueryGate.Proofs.Capability.Growth
import QueryGate.Proofs.Query.Growth
import QueryGate.Proofs.Query.Discovery
import QueryGate.Proofs.Text.Scan
import QueryGate.Proofs.Text.Split
import QueryGate.Proofs.Text.Cuts
import QueryGate.Proofs.Text.Places
import QueryGate.Proofs.Text.Misses
import QueryGate.Proofs.Discovery.Names
import QueryGate.Proofs.Discovery.Harvest
import QueryGate.Proofs.Discovery.Hygiene
import QueryGate.Proofs.Discovery.Conditions
import QueryGate.Proofs.Discovery.Sources
import QueryGate.Proofs.Discovery.Units
import QueryGate.Proofs.Discovery.Isolation
import QueryGate.Proofs.Discovery.Payloads
import QueryGate.Proofs.Discovery.ClauseEnds
import QueryGate.Proofs.Discovery.ConditionScan
import QueryGate.Proofs.Discovery.WrittenConditions
import QueryGate.Proofs.Discovery.QueryMining
import QueryGate.Proofs.Discovery.FieldBounds
import QueryGate.Proofs.Sorted.Map
import QueryGate.Proofs.Json.Canonical
import QueryGate.Proofs.Json.Printing
import QueryGate.Proofs.Capability.Seeds
import QueryGate.Proofs.Discovery.Coherence
import QueryGate.Proofs.Request.Rereading
import QueryGate.Proofs.Discovery.Requests
import QueryGate.Proofs.Text.Utf8
import QueryGate.Proofs.Discovery.Ledger
import QueryGate.Proofs.Gate.Runs
import QueryGate.Proofs.Text.Blanks
import QueryGate.Proofs.Text.Nesting
import QueryGate.Proofs.Discovery.Directories
import QueryGate.Proofs.Discovery.SelectItems
import QueryGate.Proofs.Discovery.ListEnds
import QueryGate.Proofs.Discovery.TypeofBlocks
import QueryGate.Proofs.Discovery.SelectGrammar
import QueryGate.Proofs.Discovery.Prose
import QueryGate.Proofs.Capability.Merging
import QueryGate.Proofs.Discovery.Unions
import QueryGate.Proofs.Discovery.DefaultLists
import QueryGate.Proofs.Discovery.DirectoryBound
import QueryGate.Proofs.Discovery.Fences
import QueryGate.Proofs.Discovery.Precedence
import QueryGate.Proofs.Text.Bytes
import QueryGate.Proofs.Request.Building
import QueryGate.Proofs.Query.Operators
import QueryGate.Proofs.Number.Integers
import QueryGate.Proofs.Number.IntegerReading
import QueryGate.Proofs.Query.Limits
import QueryGate.Proofs.Text.Offsets
import QueryGate.Proofs.Discovery.SlicedItems
import QueryGate.Proofs.Discovery.ByteEnds
import QueryGate.Proofs.Discovery.ByteScan
import QueryGate.Proofs.Discovery.DepthCounters
