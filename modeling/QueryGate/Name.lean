import QueryGate.Text.Scan

/-!
# Names

The names of objects and fields. A *segment* is a letter or an underscore followed
by letters, digits and underscores, all of ASCII. An object name is a segment; a
field reference is a path of segments with dots between them, such as
`Account.Owner.Name`, which goes through related objects.
-/

namespace QueryGate.Name

/-- A character that a segment can start with. -/
def isStart (c : Char) : Bool := c.isAlpha || c == '_'

/-- A character that a segment can go on with. -/
def isPart (c : Char) : Bool := c.isAlphanum || c == '_'

/-- Whether a text is a segment. -/
def isSegment : List Char → Bool
  | [] => false
  | c :: cs => isStart c && cs.all isPart

/-- Whether a text is a path of segments. -/
def isPath (cs : List Char) : Bool := (Text.splitWhere (· == '.') cs).all isSegment

/-- Whether a string is the name of a field, or a path to one. -/
def isField (s : String) : Bool := isPath s.toList

/-- Whether a string is the name of an object. -/
def isObject (s : String) : Bool := isSegment s.toList

/-! ## Directory names -/

/-- A character of the stamp in a directory name. -/
def isStampPart (c : Char) : Bool := c.isAlphanum || c == ':' || c == '.' || c == '_' || c == '-'

/-- Whether a text is a stamp: it starts with a digit. -/
def isStamp : List Char → Bool
  | [] => false
  | c :: cs => c.isDigit && cs.all isStampPart

/-- What stands before the first underscore that is followed by a stamp. -/
def beforeStamp? : List Char → Option (List Char)
  | [] => none
  | c :: cs => if c == '_' && isStamp cs then some [] else (beforeStamp? cs).map (c :: ·)

/-- The object that a stamped directory name starts with. -/
def ofStamped? (cs : List Char) : Option (List Char) :=
  (beforeStamp? cs).filter fun name =>
    isSegment name && name.head?.any Char.isAlpha

/-- The object whose exports a directory holds: its name is that of the object, alone or with an
    underscore and a stamp behind it. -/
def ofDirectory? (s : String) : Option String :=
  match ofStamped? s.toList with
  | some name => some (String.ofList name)
  | none => if isObject s then some s else none

end QueryGate.Name
