import QueryGate.Number.Power

/-!
# Binary floating point

The finite numbers of the format binary64, as exact integers: a number is a sign,
a mantissa and a power of two. Its mantissa has all of its 53 bits unless the
number is subnormal, so that a number has one form only.

* `Binary64.nearest?`: the number nearest to a ratio, a tie going to the even
  mantissa, or none if the ratio is too large for the format;
* `num` and `den`: the magnitude as a ratio again, from which products and
  quotients are formed exactly before they are rounded once.
-/

namespace QueryGate

namespace Binary64

/-- The bits of a mantissa. -/
def precision : Nat := 53

/-- The exponent of the subnormal numbers. -/
def minExponent : Int := -1074

/-- The exponent of the largest numbers. -/
def maxExponent : Int := 971

/-- A mantissa and an exponent of the format: the mantissa fits, and it is full unless the
    exponent can be no lower. -/
def IsNormal (mantissa : Nat) (exponent : Int) : Prop :=
  mantissa < twoTo precision ∧ minExponent ≤ exponent ∧ exponent ≤ maxExponent ∧
    (twoTo (precision - 1) ≤ mantissa ∨ exponent = minExponent)

instance (m : Nat) (e : Int) : Decidable (IsNormal m e) := by unfold IsNormal; infer_instance

end Binary64

/-- A finite number of the format binary64: `mantissa * 2 ^ exponent`, or its opposite. -/
structure Binary64 where
  /-- Whether the sign is a minus; zero has a sign too. -/
  negative : Bool
  /-- The bits of the number. -/
  mantissa : Nat
  /-- The weight of the last bit, as a power of two. -/
  exponent : Int
  /-- The number is written in the form of the format. -/
  normal : Binary64.IsNormal mantissa exponent
  deriving DecidableEq

namespace Binary64

/-- Zero, with a sign. -/
def zero (negative : Bool) : Binary64 := ⟨negative, 0, minExponent, by decide⟩

instance : Inhabited Binary64 := ⟨zero false⟩

/-- Whether the number is a zero of either sign. -/
def isZero (x : Binary64) : Bool := x.mantissa = 0

/-- The numerator of the magnitude. -/
def num (x : Binary64) : Nat := x.mantissa * twoTo x.exponent.toNat

/-- The denominator of the magnitude. -/
def den (x : Binary64) : Nat := twoTo (-x.exponent).toNat

/-- The magnitude without its fractional part. -/
def wholePart (x : Binary64) : Nat := x.num / x.den

/-- The number with the sign given. -/
def withSign (negative : Bool) (x : Binary64) : Binary64 := { x with negative := negative }

/-! ## Rounding -/

/-- The integer nearest to `n / d`, a tie going to the even one. -/
def roundHalfEven (n d : Nat) : Nat :=
  let q := n / d
  let r := n % d
  if 2 * r < d then q else if d < 2 * r then q + 1 else q + q % 2

/-- The ratio `n / d` divided by `2 ^ e`, as a numerator and a denominator. -/
def scaledRatio (n d : Nat) (e : Int) : Nat × Nat := (n * twoTo (-e).toNat, d * twoTo e.toNat)

/-- The exponent at which `n / d` has a full mantissa, but none below the subnormal one. -/
def exponentOf (n d : Nat) : Int :=
  let e : Int := (Nat.log2 n : Int) - Nat.log2 d - precision
  let (sn, sd) := scaledRatio n d e
  max minExponent (if twoTo precision * sd ≤ sn then e + 1 else e)

/-- The mantissa and exponent nearest to `n / d`. -/
def nearestParts (n d : Nat) : Nat × Int :=
  if n = 0 then (0, minExponent)
  else
    let e := exponentOf n d
    let (sn, sd) := scaledRatio n d e
    let m := roundHalfEven sn sd
    if m = twoTo precision then (twoTo (precision - 1), e + 1) else (m, e)

/-- The number nearest to `n / d`, unless that ratio is too large for the format. -/
def nearest? (negative : Bool) (n d : Nat) : Option Binary64 :=
  let (m, e) := nearestParts n d
  if h : IsNormal m e then some ⟨negative, m, e, h⟩ else none

/-- The product of the magnitudes, rounded. -/
def mul? (x y : Binary64) : Option Binary64 := nearest? false (x.num * y.num) (x.den * y.den)

/-- The quotient of the magnitudes, rounded. -/
def div? (x y : Binary64) : Option Binary64 := nearest? false (x.num * y.den) (x.den * y.num)

/-- The number nearest to an integer. -/
def ofInt? (n : Int) : Option Binary64 := nearest? (n < 0) n.natAbs 1

end Binary64

end QueryGate
