import QueryGate.Json.Basic
import QueryGate.Number.Reading

/-!
# JSON as it is written

Reading JSON goes in two steps. The first one (`Written.ofText?`) finds the
structure of a text: its lists, objects, strings and numbers, by the grammar
alone. The second one (`Written.value?`) reads what strings and numbers stand
for, and refuses what stands for nothing: an escape that is half a character, or
a number beyond the format. What is skipped over unread need only be well formed.

A number is read digit by digit into a significand of 64 bits. Digits that no
longer fit are dropped and counted, and the significand is then scaled by the power
of ten that is left, with one rounding for the significand and one for the scaling.
-/

namespace QueryGate

namespace Json

/-- A part of a written string. -/
inductive StringUnit where
  /-- A character, itself or as a short escape. -/
  | char (c : Char)
  /-- A code unit of UTF-16, escaped by its four hexadecimal digits. -/
  | code (u : Nat)
  deriving Repr, DecidableEq

/-- A written number: a sign, digits, digits after the point and an exponent. -/
structure Numeral where
  /-- Whether there is a minus. -/
  negative : Bool
  /-- The digits before the point. -/
  whole : List Char
  /-- The digits after the point, if there is one. -/
  fraction : Option (List Char)
  /-- The exponent, if there is one: whether it has a minus, and its digits. -/
  exponent : Option (Bool × List Char)
  deriving Repr, DecidableEq

/-- A JSON text by its structure. -/
inductive Written where
  /-- `null`. -/
  | null
  /-- `true` or `false`. -/
  | bool (b : Bool)
  /-- A number. -/
  | number (n : Numeral)
  /-- A string. -/
  | string (units : List StringUnit)
  /-- A list. -/
  | array (items : List Written)
  /-- An object. -/
  | object (members : List (List StringUnit × Written))
  deriving Inhabited

/-! ## Numbers -/

namespace Numeral

/-- Takes digits into a significand as long as it fits in 64 bits; answers with the significand
    and the number of digits that were left out. -/
def takeIn (significand : Nat) : List Char → Nat × Nat
  | [] => (significand, 0)
  | d :: ds =>
    let next := 10 * significand + digitValue d
    if next < twoTo 64 then takeIn next ds else (significand, ds.length + 1)

/-- The power of ten that is as large as the format can scale by at once. -/
def maxPower : Nat := 308

/-- A power of ten, as far as the format has it. -/
def powerOfTen (k : Nat) : Binary64 :=
  (Binary64.nearest? false (tenTo (min k maxPower)) 1).getD default

/-- The quotient by a power of ten. -/
def divideByPower (x : Binary64) (k : Nat) : Binary64 := (x.div? (powerOfTen k)).getD default

/-- The number scaled by a power of ten, unless it becomes too large. -/
def scale? (x : Binary64) : Int → Option Binary64
  | .ofNat k => if k ≤ maxPower then x.mul? (powerOfTen k) else if x.isZero then some x else none
  | .negSucc k =>
    let k := k + 1
    -- a significand of 64 bits is zero after two divisions, so that there is no third
    some (if k ≤ maxPower then divideByPower x k
      else divideByPower (divideByPower x maxPower) (k - maxPower))

/-- The power of ten that the exponent stands for. -/
def power (n : Numeral) : Int :=
  match n.exponent with
  | none => 0
  | some (negative, digits) =>
    if negative then -(digitsValue 0 digits : Int) else digitsValue 0 digits

/-- The number written, if the format has it. -/
def value? (n : Numeral) : Option JsonNumber :=
  let (whole, dropped) := takeIn 0 n.whole
  let (significand, unread) := takeIn whole (n.fraction.getD [])
  -- an integer of more digits than fit is read like a decimal
  let isInteger := n.fraction.isNone && n.exponent.isNone && dropped == 0
  if isInteger && !n.negative then some (.integer whole)
  -- a zero with a minus is no integer, as only a decimal keeps its sign
  else if isInteger && 0 < whole && whole ≤ twoTo 63 then some (.integer (-whole))
  else
    let read := (n.fraction.getD []).length - unread
    (Binary64.ofInt? significand).bind fun x =>
      (scale? x (n.power + dropped - read)).map fun x => .real (x.withSign n.negative)

end Numeral

/-! ## Strings -/

/-- Whether a code unit is the first half of a character. -/
def isHighSurrogate (u : Nat) : Bool := 0xD800 ≤ u && u < 0xDC00

/-- Whether a code unit is the second half of a character. -/
def isLowSurrogate (u : Nat) : Bool := 0xDC00 ≤ u && u < 0xE000

/-- The characters that units stand for, unless half a character stands alone. -/
def unitsText? : List StringUnit → Option (List Char)
  | [] => some []
  | .char c :: units => (unitsText? units).map (c :: ·)
  | .code u :: .code v :: units =>
    if isHighSurrogate u then
      if isLowSurrogate v then
        (unitsText? units).map (Char.ofNat (0x10000 + (u - 0xD800) * 0x400 + (v - 0xDC00)) :: ·)
      else none
    else if isLowSurrogate u then none
    else (unitsText? (.code v :: units)).map (Char.ofNat u :: ·)
  | .code u :: units =>
    if isHighSurrogate u || isLowSurrogate u then none
    else (unitsText? units).map (Char.ofNat u :: ·)

/-- The string that units stand for. -/
def unitsString? (units : List StringUnit) : Option String := (unitsText? units).map String.ofList

/-! ## Values -/

namespace Written

mutual
/-- The value a text stands for. -/
def value? : Written → Option Json
  | .null => some .null
  | .bool b => some (.bool b)
  | .number n => n.value?.map .number
  | .string units => (unitsString? units).map .string
  | .array items => (itemValues? items).map .array
  | .object members => (memberValues? members).map .object

/-- The values of the items of a list. -/
def itemValues? : List Written → Option (List Json)
  | [] => some []
  | item :: items =>
    match value? item, itemValues? items with
    | some value, some values => some (value :: values)
    | _, _ => none

/-- The members of an object. -/
def memberValues? : List (List StringUnit × Written) → Option (List (String × Json))
  | [] => some []
  | (key, item) :: members =>
    match unitsString? key, value? item, memberValues? members with
    | some key, some value, some values => some ((key, value) :: values)
    | _, _, _ => none
end

end Written

end Json

end QueryGate
