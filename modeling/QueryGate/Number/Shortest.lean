import QueryGate.Number.Binary64

/-!
# The shortest decimal of a number

A number of binary64 is the nearest one to every decimal of an interval around
it, and it is printed as a decimal of that interval: one with as few digits as
can be, and of those the one nearest to the number itself. `Decimal.shortest`
looks for it on the grids of one, two, … up to seventeen digits, where it is
enough to try the two neighbours of the number.

How a decimal is laid out is a matter of its own, held in a `DecimalStyle`.
-/

namespace QueryGate

/-- The decimal `digits * 10 ^ exponent`. -/
structure Decimal where
  /-- The digits, read as an integer. -/
  digits : Nat
  /-- The power of ten of the last digit. -/
  exponent : Int
  deriving Repr, DecidableEq

namespace Decimal

/-- How `c * 10 ^ k` compares with `x * 2 ^ e`. -/
def compareBinary (c : Nat) (k : Int) (x : Nat) (e : Int) : Ordering :=
  compare (c * tenTo k.toNat * twoTo (-e).toNat) (x * twoTo e.toNat * tenTo (-k).toNat)

/-- Whether `c * 10 ^ k` lies in the interval of the reals that round to `x`. In units of a
    quarter of the last bit it reaches two down and two up, but one down from a power of two,
    below which numbers stand closer. The ends belong to it when the mantissa is even. -/
def roundsTo (x : Binary64) (c : Nat) (k : Int) : Bool :=
  let m := x.mantissa
  let low := if m = twoTo (Binary64.precision - 1) ∧ Binary64.minExponent < x.exponent
    then 4 * m - 1 else 4 * m - 2
  -- a tie rounds to the even mantissa, so the ends round to `x` when its own is even
  let fromLow := compareBinary c k low (x.exponent - 2)
  let fromHigh := compareBinary c k (4 * m + 2) (x.exponent - 2)
  (fromLow == .gt || fromLow == .eq && m % 2 == 0) &&
    (fromHigh == .lt || fromHigh == .eq && m % 2 == 0)

/-- The exponent of the first digit of `n / d`. -/
def firstExponent (n d : Nat) : Int :=
  if d ≤ n then (Nat.toDigits 10 (n / d)).length - 1
  else
    let j := (Nat.toDigits 10 (d / n)).length - 1
    -- `d / n` is below `10 ^ (j + 1)`, and `n / d` reaches `10 ^ -j` only as an exact power
    if n * tenTo j = d then -j else -(j + 1)

/-- The decimal of the grid `10 ^ k` nearest to a number, among those that round to it. -/
def onGrid? (x : Binary64) (k : Int) : Option Decimal :=
  let n := x.num * tenTo (-k).toNat
  let d := x.den * tenTo k.toNat
  let below := n / d
  let above := below + 1
  match roundsTo x below k, roundsTo x above k with
  -- both round to the number: the nearer one, and the even one of two that are as near
  | true, true => some ⟨Binary64.roundHalfEven n d, k⟩
  | true, false => some ⟨below, k⟩
  | false, true => some ⟨above, k⟩
  | false, false => none

/-- The decimal without a zero at its end. -/
def withoutZero (x : Decimal) : Decimal :=
  if x.digits % 10 = 0 then ⟨x.digits / 10, x.exponent + 1⟩ else x

/-- The shortest decimal that rounds to a number other than zero, the nearest of those. -/
def shortest (x : Binary64) : Decimal :=
  let first := firstExponent x.num x.den
  match (List.range 17).findSome? fun (places : Nat) => onGrid? x (first - places) with
  | some found => found.withoutZero
  | none => ⟨0, 0⟩

end Decimal

/-- How decimals are laid out: those whose first digit has an exponent from `lowest` to `highest`
    positionally and with at least one digit after the point, all others with an exponent. -/
structure DecimalStyle where
  /-- The least exponent of a first digit written positionally. -/
  lowest : Int
  /-- The greatest exponent of a first digit written positionally. -/
  highest : Int

namespace DecimalStyle

/-- Numbers are written positionally from `0.00001` up to sixteen digits before the point. -/
def standard : DecimalStyle := ⟨-5, 15⟩

/-- The decimal with a point: the digits before it, the digits behind it or a zero. -/
def positional (digits : List Char) (first : Int) : List Char :=
  if first < 0 then ['0', '.'] ++ List.replicate (-first - 1).toNat '0' ++ digits
  else
    let places := first.toNat + 1
    let whole := digits.take places ++ List.replicate (places - digits.length) '0'
    let fraction := digits.drop places
    whole ++ '.' :: if fraction.isEmpty then ['0'] else fraction

/-- The decimal with its first digit before the point and an exponent with a sign. -/
def scientific (digits : List Char) (first : Int) : List Char :=
  let fraction := digits.drop 1
  digits.take 1 ++ (if fraction.isEmpty then [] else '.' :: fraction) ++
    ['e', if first < 0 then '-' else '+'] ++ Nat.toDigits 10 first.natAbs

/-- Lays out a decimal. -/
def layOut (style : DecimalStyle) (x : Decimal) : List Char :=
  let digits := Nat.toDigits 10 x.digits
  let first := x.exponent + digits.length - 1
  if style.lowest ≤ first ∧ first ≤ style.highest then positional digits first
  else scientific digits first

end DecimalStyle

/-- The text of a number: the shortest decimal that reads back as it. -/
def Binary64.text (x : Binary64) : List Char :=
  (if x.negative then ['-'] else []) ++
    if x.isZero then ['0', '.', '0'] else DecimalStyle.standard.layOut (Decimal.shortest x)

end QueryGate
