/-!
# YAML: nodes

A YAML document is a node: a scalar, a sequence or a mapping. A node may be given a
name, and an *alias* stands in another place for a named node. Names are numbered, and
the aliases of a document are read as numbers (`Document.resolve`).
-/

namespace QueryGate.Yaml

/-- How a scalar is written. -/
inductive Style where
  /-- As it is. -/
  | plain
  /-- In quotes of either kind. -/
  | quoted
  /-- As a block of lines that are kept. -/
  | literal
  /-- As a block of lines that are folded. -/
  | folded
  deriving DecidableEq, Repr

/-- The bytes of a tag, which names a type and need not be text. -/
abbrev Tag := List UInt8

/-- A scalar. -/
structure Scalar where
  /-- What it says. -/
  text : String
  /-- How it is written. -/
  style : Style := .plain
  /-- Its type, if one is given. -/
  tag : Option Tag := none
  deriving DecidableEq, Repr

/-- A node of a document. -/
inductive Node where
  /-- A scalar. -/
  | scalar (s : Scalar)
  /-- A sequence of nodes. -/
  | sequence (items : List Node)
  /-- A mapping from nodes to nodes, its members in the order of the text. -/
  | mapping (members : List (Node × Node))
  /-- The named node with a number. -/
  | alias (number : Nat)
  deriving Inhabited

/-- The node where nothing is written. -/
def Node.empty : Node := .scalar { text := "" }

/-- A document. -/
structure Document where
  /-- The node that the document is. -/
  root : Node
  /-- The named nodes with their numbers. -/
  named : List (Nat × Node)

/-- The node that stands in a place, which may be an alias for it. -/
def Document.resolve (d : Document) : Node → Option Node
  | .alias number => d.named.lookup number
  | node => some node

end QueryGate.Yaml
