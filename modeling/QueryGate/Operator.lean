import QueryGate.Sorted.Set
import QueryGate.Text.Blank
import QueryGate.Text.Capitals

/-!
# Operators

The comparison operators of conditions. The vocabulary is closed: what does not
parse as an operator is never written into a query.

An operator is read without regard to letter case and to the amount of white
space around and within it (`Operator.ofText`).
-/

namespace QueryGate

/-- A comparison operator. -/
inductive Operator where
  /-- `=` -/
  | equal
  /-- `!=` -/
  | notEqual
  /-- `<` -/
  | less
  /-- `<=` -/
  | lessEqual
  /-- `>` -/
  | greater
  /-- `>=` -/
  | greaterEqual
  /-- `LIKE` -/
  | like
  /-- `IN` -/
  | isIn
  /-- `NOT IN` -/
  | notIn
  deriving DecidableEq, Repr, Inhabited

namespace Operator

/-- All operators, in their order. -/
def all : List Operator :=
  [equal, notEqual, less, lessEqual, greater, greaterEqual, like, isIn, notIn]

/-- The place of an operator in the order. -/
def rank : Operator → Nat
  | equal => 0
  | notEqual => 1
  | less => 2
  | lessEqual => 3
  | greater => 4
  | greaterEqual => 5
  | like => 6
  | isIn => 7
  | notIn => 8

instance : Ord Operator := ⟨fun a b => compare a.rank b.rank⟩

theorem compare_def (a b : Operator) : compare a b = compare a.rank b.rank := rfl

theorem rank_injective {a b : Operator} (h : a.rank = b.rank) : a = b := by
  cases a <;> cases b <;> first | rfl | exact absurd h (by decide)

instance : Std.TransOrd Operator where
  eq_swap := by simp only [compare_def]; exact Std.OrientedCmp.eq_swap
  isLE_trans := by simp only [compare_def]; exact Std.TransCmp.isLE_trans

instance : Std.LawfulEqOrd Operator where
  compare_self := by simp
  eq_of_compare h := rank_injective (Std.LawfulEqOrd.eq_of_compare h)

/-- The spelling of an operator in a query. -/
def spelling : Operator → String
  | equal => "="
  | notEqual => "!="
  | less => "<"
  | lessEqual => "<="
  | greater => ">"
  | greaterEqual => ">="
  | like => "LIKE"
  | isIn => "IN"
  | notIn => "NOT IN"

/-- Whether an operator takes a list of literals in parentheses. -/
def takesList : Operator → Bool
  | isIn | notIn => true
  | _ => false

/-- The operator with a spelling. -/
def ofSpelling? (cs : List Char) : Option Operator :=
  all.find? fun op => op.spelling.toList == cs

/-- The message for a text that is no operator. -/
def unknownMessage (s : String) : String := s!"unknown operator '{s}'"

/-- Reads an operator, in any case and with any white space between its words, or says what is
    wrong. -/
def ofText (s : String) : Except String Operator :=
  match ofSpelling? ((Text.collapse s.toList).flatMap Text.capital) with
  | some op => .ok op
  | none => .error (unknownMessage s)

/-- Reads an operator, if the text is one. -/
def parse? (s : String) : Option Operator := (ofText s).toOption

end Operator

/-- A set of operators. -/
abbrev Operators := SortedSet Operator

end QueryGate
