import QueryGate.Yaml.Token

/-!
# Reading YAML

The grammar of YAML documents, over their tokens. While a document is read, its anchors are
numbered and the nodes that they name are kept, as an alias may be met before it is known
what it stands for.

* `readNode`: a node;
* `Document.ofText?`: a text, of one document at most.
-/

namespace QueryGate.Yaml

/-! ## State -/

/-- What is left to be read, and what is known of the document. -/
structure Source where
  /-- The tokens that are left. -/
  tokens : List Token
  /-- What handles stand for. -/
  handles : List (String × Tag)
  /-- The numbers of the anchors. -/
  numbers : List (String × Nat) := []
  /-- The named nodes by their numbers, the one begun last first. Those that are still being read
      are missing. -/
  named : List (Nat × Option Node) := []

/-- A step of reading, which may fail. -/
abbrev Reading (α : Type) := StateT Source Option α

/-- The next token. -/
def peek : Reading (Option Token) := return (← get).tokens.head?

/-- Passes over a token. -/
def skip : Reading Unit := modify fun s => { s with tokens := s.tokens.drop 1 }

/-- Whether a token comes next; passes over it if it does. -/
def accept (t : Token) : Reading Bool := do
  if (← peek) = some t then
    skip
    return true
  else return false

/-- Reads something, unless one of some tokens comes next: then nothing is written. -/
def orEmpty (ends : List Token) (read : Reading Node) : Reading Node := do
  if (← peek).any (· ∈ ends) then return .empty else read

/-! ## Anchors -/

/-- Gives an anchor its number, which is the number of the other anchors. An anchor that is given
    anew thus takes a number that a later anchor may take as well. -/
def Source.number (name : String) (s : Source) : Source :=
  let others := s.numbers.filter fun (other, _) => other ≠ name
  { s with
    numbers := (name, s.numbers.length) :: others
    named := (s.numbers.length, none) :: s.named }

/-- The named nodes, with the latest one that is still being read put in. -/
def putNamed (node : Node) : List (Nat × Option Node) → List (Nat × Option Node)
  | [] => []
  | (number, none) :: rest => (number, some node) :: rest
  | found :: rest => found :: putNamed node rest

/-- The node in place of an alias. -/
def aliasOf (name : String) : Reading Node := do
  match (← get).numbers.lookup name with
  | some number => return .alias number
  | none => failure

/-! ## Properties -/

/-- What is said of a node before it is written. -/
structure Properties where
  /-- The name given to the node. -/
  anchor : Option String := none
  /-- The type of the node. -/
  tag : Option Tag := none

/-- Reads an anchor, if there is one. -/
def readAnchor : Reading (Option String) := do
  match ← peek with
  | some (.anchor name) =>
    skip
    return some name
  | _ => return none

/-- Reads a tag, if there is one. -/
def readTag : Reading (Option Tag) := do
  match ← peek with
  | some (.tag t) =>
    skip
    match t.resolve? (← get).handles with
    | some tag => return some tag
    | none => failure
  | _ => return none

/-- Reads an anchor and a tag, in either order and each at most once. -/
def readProperties : Reading Properties := do
  match ← readAnchor with
  | some name => return { anchor := some name, tag := ← readTag }
  | none =>
    let tag ← readTag
    return { anchor := ← readAnchor, tag }

/-- Reads a node that has been given a name, if it has. -/
def withAnchor (anchor : Option String) (read : Reading Node) : Reading Node := do
  match anchor with
  | none => read
  | some name =>
    modify (Source.number name)
    let node ← read
    modify fun s => { s with named := putNamed node s.named }
    return node

/-- A scalar with the tag that it is given, unless that is bare. -/
def Scalar.tagged (s : Scalar) (tag : Option Tag) : Scalar :=
  { s with tag := tag.filter (· ≠ TagName.bare) }

/-! ## Nodes -/

mutual
/-- Reads a node. Outside of brackets it may be a `block`, and the value of a mapping may be a
    sequence in the column of the mapping, whose start is not marked. -/
def readNode (block inMapping : Bool) : Nat → Reading Node
  | 0 => failure
  | count + 1 => do
    match ← peek with
    | some (.alias name) =>
      skip
      aliasOf name
    | _ =>
      let p ← readProperties
      withAnchor p.anchor (readContent block inMapping p count)

/-- Reads a node behind its properties. With properties there need be nothing else. -/
def readContent (block inMapping : Bool) (p : Properties) : Nat → Reading Node
  | 0 => failure
  | count + 1 => do
    match ← peek with
    | some (.scalar s) =>
      skip
      return .scalar (s.tagged p.tag)
    | some .openSequence =>
      skip
      return .sequence (← readItems count)
    | some .openMapping =>
      skip
      return .mapping (← readFlowMembers count)
    | t =>
      if t = some .entry ∧ inMapping then return .sequence (← readEntries false count)
      else if t = some .blockSequence ∧ block then
        skip
        return .sequence (← readEntries true count)
      else if t = some .blockMapping ∧ block then
        skip
        return .mapping (← readMembers count)
      else if p.anchor.isSome || p.tag.isSome then return .scalar { text := "", tag := p.tag }
      else failure

/-- Reads the entries of a sequence outside of brackets, whose end may be marked. -/
def readEntries (marked : Bool) : Nat → Reading (List Node)
  | 0 => failure
  | count + 1 => do
    if ← accept .entry then
      let item ← orEmpty [.entry, .key, .value, .blockEnd] (readNode true false count)
      return item :: (← readEntries marked count)
    else if !marked then return []
    else if ← accept .blockEnd then return []
    else failure

/-- Reads the members of a mapping outside of brackets, up to its end. -/
def readMembers : Nat → Reading (List (Node × Node))
  | 0 => failure
  | count + 1 => do
    if ← accept .key then
      let part := orEmpty [.key, .value, .blockEnd] (readNode true true count)
      let key ← part
      let value ← if ← accept .value then part else pure .empty
      return (key, value) :: (← readMembers count)
    else if ← accept .blockEnd then return []
    else failure

/-- Reads the value that a key within brackets may have. -/
def readFlowValue : Nat → Reading Node
  | 0 => failure
  | count + 1 => do
    if ← accept .value then
      orEmpty [.separator, .closeSequence, .closeMapping] (readNode false false count)
    else return .empty

/-- Reads a mapping of one member that is an item of a sequence in brackets, from behind the mark
    of its key. If the key is missing, the token in its place goes with it. -/
def readPair : Nat → Reading Node
  | 0 => failure
  | count + 1 => do
    let key ←
      if (← peek).any (· ∈ [.value, .separator, .closeSequence]) then
        skip
        pure .empty
      else readNode false false count
    return .mapping [(key, ← readFlowValue count)]

/-- Reads the items of a sequence in brackets, up to its closing bracket. -/
def readItems : Nat → Reading (List Node)
  | 0 => failure
  | count + 1 => do
    if ← accept .closeSequence then return []
    else
      let item ← if ← accept .key then readPair count else readNode false false count
      if ← accept .separator then return item :: (← readItems count)
      else if ← accept .closeSequence then return [item]
      else failure

/-- Reads the members of a mapping in brackets, up to its closing brace. Without the mark of a key
    there is no value. -/
def readFlowMembers : Nat → Reading (List (Node × Node))
  | 0 => failure
  | count + 1 => do
    if ← accept .closeMapping then return []
    else
      let member ←
        if ← accept .key then
          let key ← orEmpty [.value, .separator, .closeMapping] (readNode false false count)
          pure (key, ← readFlowValue count)
        else pure (← readNode false false count, .empty)
      if ← accept .separator then return member :: (← readFlowMembers count)
      else if ← accept .closeMapping then return [member]
      else failure
end

/-! ## Documents -/

/-- The directive that a token is. -/
def Token.directive? : Token → Option Directive
  | .directive d => some d
  | _ => none

/-- The numbers of the version that a directive gives. -/
def Directive.givenVersion? : Directive → Option (Nat × Nat)
  | .version major minor => some (major, minor)
  | .handle .. => none

/-- What a directive says that a handle stands for. -/
def Directive.givenMeaning? : Directive → Option (String × Tag)
  | .version .. => none
  | .handle name meant => some (name, meant)

/-- What handles stand for in a document with directives. One version may be given, of those that
    are known, and one meaning for each handle. -/
def handlesOf (directives : List Directive) : Option (List (String × Tag)) :=
  let versions := directives.filterMap Directive.givenVersion?
  let handles := directives.filterMap Directive.givenMeaning?
  if versions.length ≤ 1 ∧ versions.all (· ∈ [(1, 1), (1, 2)]) ∧ (handles.map (·.1)).Nodup then
    some (handles ++ TagName.standardHandles)
  else none

/-- Reads the node of a document, behind the mark that it may start with. -/
def readRoot (marked : Bool) (count : Nat) : Reading Node := do
  match ← peek with
  | none | some .documentStart | some .documentEnd | some (.directive _) =>
    if marked then return .empty else failure
  | _ => readNode true false count

/-- Reads a document behind its directives, and what may follow it. -/
def Document.ofTokens? (marked : Bool) (source : Source) : Option Document := do
  let (root, behind) ← (readRoot marked (4 * source.tokens.length + 8)).run source
  if behind.tokens.all (· = .documentEnd) then
    return {
      root
      named := behind.named.filterMap fun (number, node) => node.map fun node => (number, node) }
  else none

/-- Reads a text of one document at most; there may be none at all. -/
def Document.ofText? (s : String) : Option (Option Document) := do
  let tokens ← Token.ofText? s.toList
  if tokens.isEmpty then return none
  else
    let directives := tokens.takeWhile fun t => t.directive?.isSome
    let handles ← handlesOf (directives.filterMap Token.directive?)
    match tokens.drop directives.length with
    | .documentStart :: tokens => return some (← ofTokens? true { tokens, handles })
    | tokens =>
      if directives.isEmpty then return some (← ofTokens? false { tokens, handles }) else none

end QueryGate.Yaml
