import QueryGate.Files.Basic
import QueryGate.Text.Blank

/-!
# File trees

A directory with all that lies in it. Trees are walked (`FileTree.files`) and changed
one path at a time (`FileTree.write`, `FileTree.remove`).
-/

namespace QueryGate

/-- A directory with all that lies in it. -/
abbrev FileTree := List (String × Node)

namespace FileTree

/-- Puts something at a name, whatever was there before. -/
def put (name : String) (node : Node) : FileTree → FileTree
  | [] => [(name, node)]
  | (other, there) :: rest =>
    match compare name other with
    | .lt => (name, node) :: (other, there) :: rest
    | .eq => (name, node) :: rest
    | .gt => (other, there) :: put name node rest

/-- What lies in the directory at a name, nothing if there is none. -/
def directoryAt (tree : FileTree) (name : String) : FileTree :=
  match tree.lookup name with
  | some (.directory entries) => entries
  | _ => []

/-- The names that make up a path. -/
def names (path : String) : List String :=
  (Text.splitWhere (· == '/') path.toList).map String.ofList

/-- The names that make up a path, without those that stay in place. -/
def properNames (path : String) : List String :=
  (names path).filter fun name => name ≠ "" ∧ name ≠ "."

/-- The greatest number of bytes in a name. -/
def maxNameBytes : Nat := 255

/-- Walks from a node along names; `above` are the directories passed through, the nearest one
    first. -/
def walk (above : List Node) (node : Node) : List String → Except FileError Node
  | [] => .ok node
  | name :: rest =>
    match node with
    | .file _ => .error .notDirectory
    | .directory entries =>
      if name = "" ∨ name = "." then walk above node rest
      else if name = ".." then
        match above with
        | parent :: above => walk above parent rest
        | [] => .error .notFound
      else if maxNameBytes < name.utf8ByteSize then .error .nameTooLong
      else
        match entries.lookup name with
        | some next => walk (node :: above) next rest
        | none => .error .notFound

/-- The view of a tree: relative paths lead down from its top, and there is nothing else. -/
def files (tree : FileTree) : Files := fun path =>
  if path.toList.contains (Char.ofNat 0) then .error .nulInName
  else if !fitsPath path then .error .nameTooLong
  else if path = "" ∨ path.startsWith "/" then .error .notFound
  else walk [] (.directory tree) (names path)

/-- Puts something at the end of a path, making the directories on the way. -/
def writeAt (node : Node) : (path : List String) → FileTree → FileTree
  | [], tree => tree
  | [name], tree => tree.put name node
  | name :: rest, tree => tree.put name (.directory (writeAt node rest (tree.directoryAt name)))

/-- The tree with a file at a path. -/
def writeFile (tree : FileTree) (path : String) (bytes : List UInt8) : FileTree :=
  writeAt (.file bytes) (properNames path) tree

/-- The tree with a directory at a path, which keeps what lies in it already. -/
def makeDirectory (tree : FileTree) (path : String) : FileTree :=
  match tree.files path with
  | .ok (.directory _) => tree
  | _ => writeAt (.directory []) (properNames path) tree

/-- Takes away what lies at the end of a path. -/
def removeAt : (path : List String) → FileTree → FileTree
  | [], tree => tree
  | [name], tree => tree.filter fun (other, _) => other ≠ name
  | name :: rest, tree =>
    match tree.lookup name with
    | some (.directory entries) => tree.put name (.directory (removeAt rest entries))
    | _ => tree

/-- The tree without what lies at a path. -/
def remove (tree : FileTree) (path : String) : FileTree := removeAt (properNames path) tree

end FileTree

end QueryGate
