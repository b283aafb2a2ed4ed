import QueryGate.Text.Utf8

/-!
# Files

What the program sees of a file system: at a path there is a file, a directory or an
error (`Files`). What lies in a directory comes in no particular order, and is listed in
that of the names (`Files.list`). A *file tree* is a directory with all that lies in it, and
gives such a view of itself (`FileTree.files`): a relative path leads from the directory
down through others, `.` staying where it is and `..` going back up.
-/

namespace QueryGate

/-- Why there is nothing to be had at a path. -/
inductive FileError where
  /-- There is nothing of that name. -/
  | notFound
  /-- It is not for everyone to see. -/
  | denied
  /-- The path leads through something that is no directory. -/
  | notDirectory
  /-- There is a directory, not a file. -/
  | isDirectory
  /-- A path, or a name in it, is longer than a file system allows. -/
  | nameTooLong
  /-- A name holds the character that ends names. -/
  | nulInName
  /-- The file is no text in UTF-8. -/
  | notUtf8
  deriving DecidableEq, Repr

/-- The wording of the error. -/
def FileError.message : FileError → String
  | .notFound => "No such file or directory (os error 2)"
  | .denied => "Permission denied (os error 13)"
  | .notDirectory => "Not a directory (os error 20)"
  | .isDirectory => "Is a directory (os error 21)"
  | .nameTooLong => "File name too long (os error 36)"
  | .nulInName => "file name contained an unexpected NUL byte"
  | .notUtf8 => "stream did not contain valid UTF-8"

/-- What lies at a place in a file system. -/
inductive Node where
  /-- A file with its bytes. -/
  | file (bytes : List UInt8)
  /-- A directory with what lies in it, in any order. -/
  | directory (entries : List (String × Node))
  deriving Inhabited

/-! ## The order of names -/

/-- Puts an entry into its place: before the first whose name is not below its own. -/
def insertByName (entry : String × Node) : List (String × Node) → List (String × Node)
  | [] => [entry]
  | other :: rest =>
    if entry.1 ≤ other.1 then entry :: other :: rest else other :: insertByName entry rest

/-- What lies in a directory, in the order of the names. -/
def byName : List (String × Node) → List (String × Node)
  | [] => []
  | entry :: rest => insertByName entry (byName rest)

/-- What lies in a directory is in the order of the names. -/
def IsByName (entries : List (String × Node)) : Prop := entries.Pairwise fun a b => a.1 ≤ b.1

instance (entries : List (String × Node)) : Decidable (IsByName entries) :=
  inferInstanceAs (Decidable (entries.Pairwise fun a b => a.1 ≤ b.1))

theorem insertByName_perm (entry : String × Node) (entries : List (String × Node)) :
    (insertByName entry entries).Perm (entry :: entries) := by
  induction entries with
  | nil => exact .refl _
  | cons other rest ih =>
    unfold insertByName
    split
    · exact .refl _
    · exact (ih.cons other).trans (.swap entry other rest)

/-- Nothing that lies in the directory is lost, and nothing is added. -/
theorem byName_perm (entries : List (String × Node)) : (byName entries).Perm entries := by
  induction entries with
  | nil => exact .refl _
  | cons entry rest ih => exact (insertByName_perm entry (byName rest)).trans (ih.cons entry)

theorem isByName_insertByName (entry : String × Node) {entries : List (String × Node)}
    (h : IsByName entries) : IsByName (insertByName entry entries) := by
  induction entries with
  | nil => exact List.pairwise_singleton _ _
  | cons other rest ih =>
    obtain ⟨hother, hrest⟩ := List.pairwise_cons.1 h
    unfold insertByName
    split
    case isTrue hle =>
      refine List.pairwise_cons.2 ⟨fun x hx => ?_, h⟩
      obtain rfl | hx := List.mem_cons.1 hx
      · exact hle
      · exact String.le_trans hle (hother x hx)
    case isFalse hle =>
      refine List.pairwise_cons.2 ⟨fun x hx => ?_, ih hrest⟩
      obtain rfl | hx := List.mem_cons.1 ((insertByName_perm entry rest).mem_iff.1 hx)
      · exact (String.le_total other.1 x.1).resolve_right hle
      · exact hother x hx

theorem isByName_byName (entries : List (String × Node)) : IsByName (byName entries) := by
  induction entries with
  | nil => exact .nil
  | cons entry rest ih => exact isByName_insertByName entry ih

/-- An entry whose name is above none of the others goes before them. -/
theorem insertByName_eq {entry : String × Node} {entries : List (String × Node)}
    (h : IsByName (entry :: entries)) : insertByName entry entries = entry :: entries := by
  cases entries with
  | nil => rfl
  | cons other rest => exact if_pos (List.rel_of_pairwise_cons h List.mem_cons_self)

theorem byName_eq {entries : List (String × Node)} (h : IsByName entries) :
    byName entries = entries := by
  induction entries with
  | nil => rfl
  | cons entry rest ih =>
    change insertByName entry (byName rest) = _
    rw [ih (List.pairwise_cons.1 h).2, insertByName_eq h]

namespace Node

/-- The node, with what lies in it in the order of the names if it is a directory. -/
def sorted : Node → Node
  | .directory entries => .directory (byName entries)
  | .file bytes => .file bytes

/-- If the node is a directory, what lies in it is in the order of the names. -/
def IsSorted : Node → Prop
  | .directory entries => IsByName entries
  | .file _ => True

instance : (node : Node) → Decidable node.IsSorted
  | .directory entries => inferInstanceAs (Decidable (IsByName entries))
  | .file _ => inferInstanceAs (Decidable True)

theorem isSorted_sorted (node : Node) : node.sorted.IsSorted := by
  cases node with
  | directory entries => exact isByName_byName entries
  | file bytes => trivial

theorem sorted_eq {node : Node} (h : node.IsSorted) : node.sorted = node := by
  cases node with
  | directory entries => exact congrArg directory (byName_eq h)
  | file bytes => rfl

end Node

/-! ## Views -/

/-- A view of a file system: what lies at each path. -/
abbrev Files := String → Except FileError Node

namespace Files

/-- The text of the file at a path. -/
def readText (files : Files) (path : String) : Except FileError String := do
  match ← files path with
  | .file bytes =>
    match Text.readUtf8 bytes with
    | .ok text => .ok text
    | .error _ => .error .notUtf8
  | .directory _ => .error .isDirectory

/-- What lies in the directory at a path, in the order of the names, and so what lies in the
    directories there. -/
def list (files : Files) (path : String) : Except FileError (List (String × Node)) := do
  match ← files path with
  | .directory entries => .ok ((byName entries).map fun (name, node) => (name, node.sorted))
  | .file _ => .error .notDirectory

/-- What is listed is in the order of the names, and so is what lies in the directories there. -/
theorem list_sorted {files : Files} {path : String} {entries : List (String × Node)}
    (h : files.list path = .ok entries) :
    IsByName entries ∧ ∀ entry ∈ entries, entry.2.IsSorted := by
  unfold list at h
  cases hnode : files path with
  | error error =>
    rw [hnode] at h
    cases h
  | ok node =>
    rw [hnode] at h
    cases node with
    | file bytes => cases h
    | directory there =>
      cases h
      refine ⟨List.pairwise_map.2 (isByName_byName there), fun entry hentry => ?_⟩
      obtain ⟨⟨name, node⟩, -, rfl⟩ := List.mem_map.1 hentry
      exact node.isSorted_sorted

/-- What is in order is listed as it is. -/
theorem list_eq {files : Files} {path : String} {entries : List (String × Node)}
    (hnode : files path = .ok (.directory entries)) (h : IsByName entries)
    (hbelow : ∀ entry ∈ entries, entry.2.IsSorted) : files.list path = .ok entries := by
  have hmap : entries.map (fun (name, node) => (name, node.sorted)) = entries := by
    refine (List.map_congr_left fun entry hentry => ?_).trans (List.map_id entries)
    exact congrArg (entry.1, ·) (Node.sorted_eq (hbelow entry hentry))
  unfold list
  rw [hnode]
  change Except.ok ((byName entries).map _) = _
  rw [byName_eq h, hmap]

/-- Whether there is a directory at a path. -/
def isDirectory (files : Files) (path : String) : Bool :=
  match files path with
  | .ok (.directory _) => true
  | _ => false

end Files

/-- The path of a name in a directory: one slash stands between them. -/
def joinPath (directory name : String) : String :=
  if directory.toList.getLast? = some '/' ∨ directory.isEmpty then directory ++ name
  else directory ++ "/" ++ name

/-- The greatest number of bytes in a path. -/
def maxPathBytes : Nat := 4095

/-- Whether a path is short enough for anything to be found at it. -/
def fitsPath (path : String) : Bool := path.utf8ByteSize ≤ maxPathBytes

end QueryGate
