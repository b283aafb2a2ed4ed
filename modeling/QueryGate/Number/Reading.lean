import QueryGate.Number.Binary64
import QueryGate.Text.Letter

/-!
# Reading numbers

A number is written as a decimal, with or without a point and an exponent, or as
one of the words for infinity and for what is no number. It is read as the number
of binary64 nearest to it (`Real64.ofDecimal`), and what is too large is infinite.
-/

namespace QueryGate

/-- A value of the format binary64, the infinities and the value that is no number included. -/
inductive Real64 where
  /-- A finite number. -/
  | finite (x : Binary64)
  /-- Infinity, or its opposite. -/
  | infinite (negative : Bool)
  /-- The value of an operation that has none. -/
  | notANumber
  deriving DecidableEq

/-- The value of a digit. -/
def digitValue (c : Char) : Nat := c.toNat - '0'.toNat

/-- The number that decimal digits write, after those of the number `before`. -/
def digitsValue (before : Nat) (digits : List Char) : Nat :=
  digits.foldl (fun n c => 10 * n + digitValue c) before

/-- The digits a text starts with, and what follows them. -/
def spanDigits (cs : List Char) : List Char × List Char :=
  (cs.takeWhile Char.isDigit, cs.dropWhile Char.isDigit)

namespace Real64

/-- The value nearest to `digits * 10 ^ exponent`. An exponent that puts the first digit far out
    of the range of the format decides at once. -/
def ofDecimal (negative : Bool) (digits : Nat) (exponent : Int) : Real64 :=
  let size := (Nat.toDigits 10 digits).length + exponent
  if digits = 0 ∨ size < -400 then .finite (.zero negative)
  else if 400 < size then .infinite negative
  else
    match Binary64.nearest? negative (digits * tenTo exponent.toNat) (tenTo (-exponent).toNat) with
    | some x => .finite x
    | none => .infinite negative

/-- Reads a sign: whether it is a minus, and what follows. -/
def sign : List Char → Bool × List Char
  | '-' :: cs => (true, cs)
  | '+' :: cs => (false, cs)
  | cs => (false, cs)

/-- Reads the exponent that ends a number, if there is one. -/
def exponent? : List Char → Option Int
  | [] => some 0
  | c :: cs =>
    if c = 'e' ∨ c = 'E' then
      let (negative, digits) := sign cs
      if digits.isEmpty ∨ !digits.all Char.isDigit then none
      else some (if negative then -(digitsValue 0 digits : Int) else digitsValue 0 digits)
    else none

/-- Reads a decimal without a sign: digits on at least one side of the point. -/
def magnitude? (negative : Bool) (cs : List Char) : Option Real64 :=
  let (whole, rest) := spanDigits cs
  let (fraction, rest) := match rest with
    | '.' :: rest => spanDigits rest
    | rest => ([], rest)
  if whole.isEmpty ∧ fraction.isEmpty then none
  else (exponent? rest).map fun e =>
    ofDecimal negative (digitsValue 0 (whole ++ fraction)) (e - fraction.length)

/-- Reads a number. -/
def ofText? (cs : List Char) : Option Real64 :=
  let (negative, cs) := sign cs
  let word := Text.lowered cs
  if word = "inf".toList ∨ word = "infinity".toList then some (.infinite negative)
  else if word = "nan".toList then some .notANumber
  else magnitude? negative cs

/-- The finite number, if it is one. -/
def finite? : Real64 → Option Binary64
  | .finite x => some x
  | _ => none

end Real64

end QueryGate
