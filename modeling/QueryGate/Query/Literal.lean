import QueryGate.Json.Printer
import QueryGate.Text.Scan

/-!
# Literals

The literals that a query compares fields with. A scalar JSON value has one, and a
string is a date literal if it has the form of one: dates and times are written as
they are, all other strings are quoted. Within quotes the quote and the backslash
are doubled, so that whatever the string holds the literal ends at its last quote.

A pattern of `LIKE` is a string whatever it was given as, and quoted even if it
looks like a date.
-/

namespace QueryGate

/-- A literal of a query. -/
inductive Literal where
  /-- `NULL`. -/
  | null
  /-- `TRUE` or `FALSE`. -/
  | bool (b : Bool)
  /-- A number. -/
  | number (n : JsonNumber)
  /-- A date, a time or a range of dates relative to today. -/
  | date (s : String)
  /-- A string. -/
  | string (s : String)
  deriving DecidableEq

/-- Why a value has no literal; the value's type is named. -/
inductive LiteralError where
  /-- The value is a list or an object. -/
  | unsupported (kind : String)
  /-- The value is no pattern. -/
  | badPattern (kind : String)
  deriving DecidableEq, Repr

/-- The wording of the error. -/
def LiteralError.message : LiteralError → String
  | .unsupported kind => s!"{kind} values cannot be rendered as a literal"
  | .badPattern kind => s!"LIKE needs a scalar pattern, got {kind}"

namespace Literal

/-! ## Dates -/

/-- Whether a text has the form of another one in which every digit may be any digit. -/
def fits : (form cs : List Char) → Bool
  | [], [] => true
  | f :: form, c :: cs => (if f.isDigit then c.isDigit else c == f) && fits form cs
  | _, _ => false

/-- Whether a text is what may follow the seconds of a time: up to nine digits of a fraction, and
    the sign of universal time. -/
def isTimeEnd : List Char → Bool
  | ['Z'] => true
  | '.' :: cs =>
    let digits := cs.takeWhile Char.isDigit
    1 ≤ digits.length && digits.length ≤ 9 && cs.drop digits.length == ['Z']
  | _ => false

/-- The form of a date. -/
def dateForm : List Char := "0000-00-00".toList

/-- The form of a time, up to the seconds. -/
def timeForm : List Char := "0000-00-00T00:00:00".toList

/-- The names of ranges of dates. -/
def relativeDates : List String :=
  ["YESTERDAY", "TODAY", "TOMORROW", "LAST_WEEK", "THIS_WEEK", "NEXT_WEEK", "LAST_MONTH",
   "THIS_MONTH", "NEXT_MONTH", "LAST_90_DAYS", "NEXT_90_DAYS", "LAST_QUARTER", "THIS_QUARTER",
   "NEXT_QUARTER", "LAST_YEAR", "THIS_YEAR", "NEXT_YEAR", "LAST_FISCAL_QUARTER",
   "THIS_FISCAL_QUARTER", "NEXT_FISCAL_QUARTER", "LAST_FISCAL_YEAR", "THIS_FISCAL_YEAR",
   "NEXT_FISCAL_YEAR"]

/-- The units that ranges of dates are counted in. -/
def dateUnits : List String :=
  ["DAYS", "WEEKS", "MONTHS", "QUARTERS", "YEARS", "FISCAL_QUARTERS", "FISCAL_YEARS"]

/-- What a counted range of dates starts with. -/
def countedRanges : List String :=
  dateUnits.flatMap fun unit => [s!"LAST_N_{unit}:", s!"NEXT_N_{unit}:", s!"N_{unit}_AGO:"]

/-- Whether a text is a counted range of dates. -/
def isCountedRange (cs : List Char) : Bool :=
  countedRanges.any fun range =>
    match Text.after range.toList cs with
    | some count => 1 ≤ count.length && count.length ≤ 6 && count.all Char.isDigit
    | none => false

/-- Whether a text has the form of a date literal. -/
def isDateText (cs : List Char) : Bool :=
  fits dateForm cs ||
    fits timeForm (cs.take timeForm.length) && isTimeEnd (cs.drop timeForm.length) ||
    relativeDates.contains (String.ofList cs) || isCountedRange cs

/-- Whether a string is a date literal. -/
def isDate (s : String) : Bool := isDateText s.toList

/-! ## Literals of values -/

/-- The literal of a value. -/
def ofJson : Json → Except LiteralError Literal
  | .null => .ok .null
  | .bool b => .ok (.bool b)
  | .number n => .ok (.number n)
  | .string s => .ok (if isDate s then .date s else .string s)
  | value => .error (.unsupported value.kind)

/-- The pattern of a value. -/
def patternOfJson : Json → Except LiteralError Literal
  | .string s => .ok (.string s)
  | .number n => .ok (.string (String.ofList n.text))
  | .bool b => .ok (.string (toString b))
  | value => .error (.badPattern value.kind)

/-! ## Texts -/

/-- The text of a character within quotes. -/
def escape (c : Char) : List Char := if c = '\'' ∨ c = '\\' then [c, c] else [c]

/-- The text of a string within quotes. -/
def quoted (s : String) : List Char := '\'' :: s.toList.flatMap escape ++ ['\'']

/-- The text of a literal. -/
def text : Literal → List Char
  | .null => "NULL".toList
  | .bool true => "TRUE".toList
  | .bool false => "FALSE".toList
  | .number n => n.text
  | .date s => s.toList
  | .string s => quoted s

end Literal

end QueryGate
