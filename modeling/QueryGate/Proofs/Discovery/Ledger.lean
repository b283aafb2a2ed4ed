import Mathlib.Data.List.TakeWhile
import QueryGate.Proofs.Discovery.Hygiene
import QueryGate.Proofs.Sorted.Map
import QueryGate.Proofs.Text.Utf8

/-!
# What a scan visits

A scan visits the first directories below its root and, in those that are named for an
object, the documents. Each visit is counted or put down as passed over, in the order of
the scan (`report_scanEntries`), and what is found of an object comes from the directories
named for it, one after the other (`get?_entries_scanEntries`).

So a document that cannot be read is of no account but for one record in the report, and
one object is independent of the directories of others, as long as all are scanned
(`scan_ledger`). What lies at too long a path is not visited, and so is neither counted nor
recorded (`deepList_unseen`).
-/

namespace QueryGate

/-! ## Visits -/

/-- Something that a scan looks at. -/
inductive Visit where
  /-- A directory below the root. -/
  | directory (path name : String)
  /-- A document in a directory that is named for an object. -/
  | document (path : String) (bytes : List UInt8)

namespace Visit

/-- Where it lies. -/
def path : Visit → String
  | directory path _ => path
  | document path _ => path

/-- Whether it is a directory. -/
def isDirectory : Visit → Bool
  | directory .. => true
  | document .. => false

/-- Why it is passed over, if it is. -/
def fault? (limits : ScanLimits) : Visit → Option SkipReason
  | directory _ name => if (Name.ofDirectory? name).isNone then some .directoryName else none
  | document _ bytes =>
    match readDocument limits bytes with
    | .ok _ => none
    | .error reason => some reason

/-- The record of it, if it is passed over. -/
def record? (limits : ScanLimits) (v : Visit) : Option Skipped :=
  (v.fault? limits).map fun reason => ⟨v.path, reason⟩

end Visit

/-- The visit to what lies in the directory at a path, if it is a document, and not at too long a
    path. -/
def documentAt? (path : String) (file : String × Node) : Option Visit :=
  match file.2, DocumentKind.ofFileName? file.1 with
  | .file bytes, some _ =>
    if fitsPath (joinPath path file.1) then some (.document (joinPath path file.1) bytes) else none
  | _, _ => none

/-- The visits to the documents in the directory at a path. -/
def documentsIn (path : String) (below : List (String × Node)) : List Visit :=
  below.filterMap (documentAt? path)

/-- The visits to a directory below a root, and to its documents if it is named for an object. -/
def visitsTo (root : String) (directory : String × List (String × Node)) : List Visit :=
  let path := joinPath root directory.1
  .directory path directory.1 ::
    if (Name.ofDirectory? directory.1).isSome then documentsIn path directory.2 else []

/-- All visits of a scan. -/
def visits (limits : ScanLimits) (root : String) (entries : List (String × Node)) : List Visit :=
  ((subdirectories root entries).take limits.maxDirectories).flatMap (visitsTo root)

/-- The report after some visits: each of them is counted, or else recorded. -/
def ScanReport.account (limits : ScanLimits) (r : ScanReport) (vs : List Visit) : ScanReport where
  directories := r.directories + vs.countP fun v => v.isDirectory && (v.record? limits).isNone
  documents := r.documents + vs.countP fun v => !v.isDirectory && (v.record? limits).isNone
  skipped := r.skipped ++ vs.filterMap (Visit.record? limits)
  truncated := r.truncated

namespace ScanReport

variable (limits : ScanLimits)

theorem account_nil (r : ScanReport) : r.account limits [] = r := by
  simp [account]

theorem account_append (r : ScanReport) (vs ws : List Visit) :
    r.account limits (vs ++ ws) = (r.account limits vs).account limits ws := by
  simp [account, Nat.add_assoc]

/-- A report is another one with one record more. -/
def AddsRecord (r : ScanReport) (record : Skipped) (r' : ScanReport) : Prop :=
  ∃ earlier later, r.skipped = earlier ++ later ∧
    r' = { r with skipped := earlier ++ record :: later }

/-- A visit that is passed over adds a record and nothing else. -/
theorem addsRecord_account {limits : ScanLimits} (r : ScanReport) {v : Visit} {record : Skipped}
    (h : v.record? limits = some record) (vs ws : List Visit) :
    (r.account limits (vs ++ ws)).AddsRecord record (r.account limits (vs ++ v :: ws)) :=
  ⟨r.skipped ++ vs.filterMap (Visit.record? limits), ws.filterMap (Visit.record? limits),
    by simp [account, h]⟩

end ScanReport

/-! ## Steps -/

section Steps

variable {limits : ScanLimits} {root object path : String}

/-- Adds what a file says of an object, if it is a document that can be read. -/
def Findings.addFile (limits : ScanLimits) (object : String) (f : Findings)
    (file : String × Node) : Findings :=
  match file.2, DocumentKind.ofFileName? file.1 with
  | .file bytes, some kind =>
    match readDocument limits bytes with
    | .ok text => f.merge (Document.ofText object kind text).findings
    | .error _ => f
  | _, _ => f

/-- A file adds what it says, and the visit to it. -/
theorem scanFile_eq (state : Findings × ScanReport) {file : String × Node}
    (hfits : fitsPath (joinPath path file.1) = true) :
    scanFile limits object path state file = (state.1.addFile limits object file,
      state.2.account limits (documentAt? path file).toList) := by
  obtain ⟨f, r⟩ := state
  obtain ⟨name, node⟩ := file
  have hnil := (r.account_nil limits).symm
  cases node with
  | directory below =>
    exact congrArg (f, ·) hnil
  | file bytes =>
    cases hkind : DocumentKind.ofFileName? name with
    | none =>
      simp only [scanFile, Findings.addFile, documentAt?, hkind]
      exact congrArg (f, ·) hnil
    | some kind =>
      simp only [scanFile, Findings.addFile, documentAt?, hkind, if_pos hfits]
      cases hread : readDocument limits bytes with
      | ok text => simp [ScanReport.account, Visit.record?, Visit.fault?, Visit.isDirectory, hread]
      | error reason =>
        simp [ScanReport.account, ScanReport.skip, Visit.record?, Visit.fault?, Visit.isDirectory,
          Visit.path, hread]

theorem documentAt?_eq_none {file : String × Node}
    (h : fitsPath (joinPath path file.1) = false) : documentAt? path file = none := by
  rw [documentAt?]
  split
  · rw [h, if_neg Bool.false_ne_true]
  · rfl

theorem documentsIn_cons (path : String) (file : String × Node) (files : List (String × Node)) :
    documentsIn path (file :: files) =
      (documentAt? path file).toList ++ documentsIn path files := by
  rw [documentsIn, List.filterMap_cons, documentsIn]
  cases documentAt? path file <;> rfl

theorem documentsIn_append (path : String) (above below : List (String × Node)) :
    documentsIn path (above ++ below) = documentsIn path above ++ documentsIn path below :=
  List.filterMap_append

/-- What a directory shows of a file system: what lies at paths that are not too long. -/
def seenIn (path : String) (below : List (String × Node)) : List (String × Node) :=
  below.filter fun file => fitsPath (joinPath path file.1)

theorem foldl_scanFile_eq (limits : ScanLimits) (object path : String)
    (files : List (String × Node)) (state : Findings × ScanReport) :
    (seenIn path files).foldl (scanFile limits object path) state =
      ((seenIn path files).foldl (Findings.addFile limits object) state.1,
        state.2.account limits (documentsIn path files)) := by
  induction files generalizing state with
  | nil => exact congrArg (state.1, ·) (ScanReport.account_nil _ _).symm
  | cons file files ih =>
    rw [documentsIn_cons, ScanReport.account_append]
    by_cases hfits : fitsPath (joinPath path file.1) = true
    · have hseen : seenIn path (file :: files) = file :: seenIn path files :=
        List.filter_cons_of_pos hfits
      rw [hseen, List.foldl_cons, List.foldl_cons, scanFile_eq state hfits, ih]
    · have hseen : seenIn path (file :: files) = seenIn path files :=
        List.filter_cons_of_neg hfits
      rw [hseen, ih, documentAt?_eq_none (Bool.eq_false_iff.2 hfits)]
      exact congrArg (fun r => (_, ScanReport.account limits r _)) (ScanReport.account_nil _ _).symm

/-- What the documents in a directory below a root say of an object. -/
def directoryFindings (limits : ScanLimits) (root object : String)
    (directory : String × List (String × Node)) : Findings :=
  (seenIn (joinPath root directory.1) directory.2).foldl (Findings.addFile limits object) .empty

/-- What is known of an object after a directory that is named for it. -/
def learn (limits : ScanLimits) (root object : String) (known : Option Entry)
    (directory : String × List (String × Node)) : Option Entry :=
  let findings := directoryFindings limits root object directory
  if findings.isEmpty then known else some ((known.getD .empty).merge findings.entry)

/-- A directory is named for an object. -/
def NamedFor (object : String) (directory : String × List (String × Node)) : Prop :=
  Name.ofDirectory? directory.1 = some object

instance (object : String) : DecidablePred (NamedFor object) := fun _ =>
  inferInstanceAs (Decidable (_ = _))

theorem account_visitsTo (r : ScanReport) (directory : String × List (String × Node)) :
    r.account limits (visitsTo root directory) =
      if (Name.ofDirectory? directory.1).isSome then
        ScanReport.account limits { r with directories := r.directories + 1 }
          (documentsIn (joinPath root directory.1) directory.2)
      else r.skip (joinPath root directory.1) .directoryName := by
  have hhead := r.account_append limits [.directory (joinPath root directory.1) directory.1]
  rw [visitsTo, ← List.singleton_append, hhead]
  cases hname : Name.ofDirectory? directory.1 <;>
    simp [ScanReport.account, ScanReport.skip, Visit.record?, Visit.fault?, Visit.isDirectory,
      Visit.path, hname]

theorem scanDirectory_of_none (s : Scan) {directory : String × List (String × Node)}
    (hname : Name.ofDirectory? directory.1 = none) :
    scanDirectory limits root s directory =
      { s with report := s.report.account limits (visitsTo root directory) } := by
  rw [account_visitsTo, hname, scanDirectory, hname]
  rfl

theorem scanDirectory_of_namedFor (s : Scan) {directory : String × List (String × Node)}
    (hname : NamedFor object directory) :
    scanDirectory limits root s directory =
      { entries := if (directoryFindings limits root object directory).isEmpty then s.entries
          else s.entries.mergeEntry object (directoryFindings limits root object directory).entry
        report := s.report.account limits (visitsTo root directory) } := by
  have hname : Name.ofDirectory? directory.1 = some object := hname
  have hfold := foldl_scanFile_eq limits object (joinPath root directory.1) directory.2
    (.empty, { s.report with directories := s.report.directories + 1 })
  rw [account_visitsTo, hname, scanDirectory, hname]
  exact congrArg (fun found : Findings × ScanReport =>
    Scan.mk (if found.1.isEmpty then s.entries else s.entries.mergeEntry object found.1.entry)
      found.2) hfold

/-- The report on a directory is that on the visits to it. -/
theorem report_scanDirectory (s : Scan) (directory : String × List (String × Node)) :
    (scanDirectory limits root s directory).report =
      s.report.account limits (visitsTo root directory) := by
  cases hname : Name.ofDirectory? directory.1 with
  | none => rw [scanDirectory_of_none s hname]
  | some object => rw [scanDirectory_of_namedFor s hname]

/-- A directory changes what is known of the object it is named for, and of no other. -/
theorem get?_scanDirectory (s : Scan) (directory : String × List (String × Node)) :
    (scanDirectory limits root s directory).entries.get? object =
      if NamedFor object directory then learn limits root object (s.entries.get? object) directory
      else s.entries.get? object := by
  cases hname : Name.ofDirectory? directory.1 with
  | none =>
    have hnot : ¬NamedFor object directory := fun h => Option.some_ne_none _ (h.symm.trans hname)
    rw [scanDirectory_of_none s hname, if_neg hnot]
  | some other =>
    have hnamed : NamedFor other directory := hname
    rw [scanDirectory_of_namedFor s hnamed, apply_ite (SortedMap.get? · object),
      Capabilities.mergeEntry, SortedMap.get?_alter]
    by_cases hother : object = other
    · subst hother
      rw [if_pos hnamed, if_pos rfl]
      rfl
    · have hnot : ¬NamedFor object directory := fun h =>
        hother (Option.some.inj (h.symm.trans hname))
      rw [if_neg hother, if_neg hnot, ite_self]

end Steps

/-! ## Scans -/

section Scans

variable {limits : ScanLimits} {root object : String}

/-- The report on a scan is that on all its visits. -/
theorem report_scanEntries (limits : ScanLimits) (root : String) (entries : List (String × Node)) :
    (scanEntries limits root entries).report =
      ScanReport.account limits
        { truncated := limits.maxDirectories < (subdirectories root entries).length }
        (visits limits root entries) := by
  -- By induction on the directories, from any scan on.
  have hfold : ∀ (directories : List (String × List (String × Node))) (s : Scan),
      (directories.foldl (scanDirectory limits root) s).report =
        s.report.account limits (directories.flatMap (visitsTo root)) := by
    intro directories
    induction directories with
    | nil => exact fun s => (ScanReport.account_nil _ _).symm
    | cons directory directories ih =>
      intro s
      rw [List.foldl_cons, ih, report_scanDirectory, List.flatMap_cons, ScanReport.account_append]
  exact hfold _ _

/-- What a scan finds of an object is learned from the directories named for it. -/
theorem get?_entries_scanEntries (limits : ScanLimits) (root object : String)
    (entries : List (String × Node)) :
    (scanEntries limits root entries).entries.get? object =
      (((subdirectories root entries).take limits.maxDirectories).filter (NamedFor object)).foldl
        (learn limits root object) none := by
  rw [List.foldl_filter]
  refine (List.foldl_hom (fun s : Scan => s.entries.get? object) fun s directory => ?_).symm
  simpa using (get?_scanDirectory s directory).symm

end Scans

/-! ## Paths -/

section Paths

variable {limits : ScanLimits} {root path name a b : String}

/-- What comes before the names in the paths below a root. -/
def stem (root : String) : List Char :=
  if root.toList.getLast? = some '/' ∨ root.isEmpty then root.toList else root.toList ++ ['/']

theorem toList_joinPath (root name : String) :
    (joinPath root name).toList = stem root ++ name.toList := by
  rw [joinPath, stem]
  split_ifs <;> simp

theorem joinPath_injective (root : String) : Function.Injective (joinPath root) := by
  intro a b h
  have hlist : stem root ++ a.toList = stem root ++ b.toList := by
    rw [← toList_joinPath, ← toList_joinPath, h]
  exact String.toList_injective (List.append_cancel_left hlist)

/-- A name that a file system can give to what lies in a directory. -/
def IsProper (name : String) : Prop := name ≠ "" ∧ '/' ∉ name.toList

theorem stem_joinPath (h : IsProper name) :
    stem (joinPath root name) = stem root ++ name.toList ++ ['/'] := by
  have hne : name.toList ≠ [] := fun hnil => h.1 (String.toList_eq_nil_iff.1 hnil)
  have hlast : (joinPath root name).toList.getLast? ≠ some '/' := by
    rw [toList_joinPath, List.getLast?_append_of_ne_nil _ hne]
    exact fun hslash => h.2 (List.mem_of_getLast? hslash)
  have hfull : ¬(joinPath root name).isEmpty := by
    rw [String.isEmpty_iff, ← String.toList_eq_nil_iff, toList_joinPath]
    simp [hne]
  rw [stem, if_neg (by simp only [hlast, hfull]; simp), toList_joinPath]

/-- The first name in a path below a root. -/
def heading (root path : String) : List Char :=
  (path.toList.drop (stem root).length).takeWhile (· ≠ '/')

theorem path_of_documentAt? {file : String × Node} {v : Visit}
    (h : documentAt? path file = some v) : v.path = joinPath path file.1 := by
  unfold documentAt? at h
  split at h
  · split_ifs at h
    rw [← Option.some.inj h, Visit.path]
  · cases h

theorem mem_visitsTo {directory : String × List (String × Node)} {v : Visit}
    (h : v ∈ visitsTo root directory) :
    v.path = joinPath root directory.1 ∨
      ∃ name, v.path = joinPath (joinPath root directory.1) name := by
  rw [visitsTo, List.mem_cons] at h
  obtain rfl | h := h
  · exact .inl rfl
  · split_ifs at h
    · obtain ⟨file, -, hv⟩ := List.mem_filterMap.1 h
      exact .inr ⟨file.1, path_of_documentAt? hv⟩
    · cases h

/-- All visits to a directory are at paths that begin with its name. -/
theorem heading_of_mem_visitsTo {directory : String × List (String × Node)} {v : Visit}
    (hproper : IsProper directory.1) (h : v ∈ visitsTo root directory) :
    heading root v.path = directory.1.toList := by
  have hall : ∀ c ∈ directory.1.toList, decide (c ≠ '/') = true := fun c hc =>
    decide_eq_true fun heq => hproper.2 (heq ▸ hc)
  obtain hpath | ⟨name, hpath⟩ := mem_visitsTo h
  · rw [heading, hpath, toList_joinPath, List.drop_left, List.takeWhile_eq_self_iff.2 hall]
  · rw [heading, hpath, toList_joinPath, stem_joinPath hproper, List.append_assoc,
      List.append_assoc, List.drop_left, List.takeWhile_append_of_pos hall]
    simp

/-- The entries of a directory as a file system lists them, and of those below it: no two have one
    name. -/
structure IsListing (entries : List (String × Node)) : Prop where
  /-- The names are proper. -/
  proper : ∀ entry ∈ entries, IsProper entry.1
  /-- No two have one name. -/
  names : entries.Pairwise fun a b => a.1 ≠ b.1
  /-- Neither have two in a directory below. -/
  namesBelow : ∀ name below, (name, .directory below) ∈ entries →
    below.Pairwise fun a b => a.1 ≠ b.1

theorem mem_subdirectories {entries : List (String × Node)}
    {directory : String × List (String × Node)} (h : directory ∈ subdirectories root entries) :
    (directory.1, .directory directory.2) ∈ entries := by
  rw [subdirectories, List.mem_filterMap] at h
  obtain ⟨⟨name, node⟩, hmem, h⟩ := h
  cases node with
  | file bytes => cases h
  | directory below =>
    simp only [Option.ite_none_right_eq_some, Option.some.injEq] at h
    rw [← h.2]
    exact hmem

theorem IsListing.subdirectories {entries : List (String × Node)} (h : IsListing entries) :
    (subdirectories root entries).Pairwise fun a b => a.1 ≠ b.1 := by
  refine List.pairwise_filterMap.2 (h.names.imp ?_)
  rintro ⟨a, node⟩ ⟨b, node'⟩ hne directory hd directory' hd'
  cases node <;> cases node' <;>
    simp only [Option.ite_none_right_eq_some, Option.some.injEq, reduceCtorEq] at hd hd'
  rw [← hd.2, ← hd'.2]
  exact hne

/-- No two visits to one directory are at one path. -/
theorem pairwise_visitsTo {directory : String × List (String × Node)}
    (hproper : IsProper directory.1) (hnames : directory.2.Pairwise fun a b => a.1 ≠ b.1) :
    (visitsTo root directory).Pairwise fun v w => v.path ≠ w.path := by
  rw [visitsTo]
  split_ifs
  · refine List.pairwise_cons.2 ⟨fun w hw heq => ?_, ?_⟩
    · -- The path of a document is longer than that of its directory by a slash at least.
      obtain ⟨file, -, hw⟩ := List.mem_filterMap.1 hw
      have hlength := congrArg (·.toList.length) (heq.trans (path_of_documentAt? hw))
      simp only [Visit.path, toList_joinPath, stem_joinPath hproper, List.length_append,
        List.length_singleton] at hlength
      omega
    · refine List.pairwise_filterMap.2 (hnames.imp fun hne v hv w hw => ?_)
      rw [path_of_documentAt? hv, path_of_documentAt? hw]
      exact (joinPath_injective _).ne hne
  · exact List.pairwise_singleton _ _

/-- No two visits of a scan are at one path. -/
theorem nodup_visits {entries : List (String × Node)} (h : IsListing entries) :
    ((visits limits root entries).map Visit.path).Nodup := by
  have hproper : ∀ directory ∈ (subdirectories root entries).take limits.maxDirectories,
      IsProper directory.1 := fun directory hmem =>
    h.proper _ (mem_subdirectories (List.mem_of_mem_take hmem))
  rw [visits, List.nodup_iff_pairwise_ne, List.pairwise_map, List.pairwise_flatMap]
  refine ⟨fun directory hmem => pairwise_visitsTo (hproper directory hmem) ?_, ?_⟩
  · exact h.namesBelow _ _ (mem_subdirectories (List.mem_of_mem_take hmem))
  · -- Visits to different directories are told apart by the first name in their paths.
    refine (h.subdirectories.sublist (List.take_sublist _ _)).imp_of_mem ?_
    intro a b ha hb hne v hv w hw heq
    have hheading := congrArg (heading root) heq
    rw [heading_of_mem_visitsTo (hproper a ha) hv, heading_of_mem_visitsTo (hproper b hb) hw]
      at hheading
    exact hne (String.toList_injective hheading)

end Paths

/-! ## A document more -/

section OneMore

variable {limits : ScanLimits} {root directory name object : String} {bytes : List UInt8}
  {reason : SkipReason} {before after above below : List (String × Node)}

/-- What is too large or no text cannot be read. -/
theorem exists_readDocument_error
    (h : limits.maxBytes < bytes.length ∨ ¬bytes.toByteArray.IsValidUTF8) :
    ∃ reason, readDocument limits bytes = .error reason := by
  rw [readDocument]
  split_ifs with hlarge
  · exact ⟨_, rfl⟩
  · cases hread : Text.readUtf8 bytes with
    | error error => exact ⟨_, rfl⟩
    | ok text =>
      exact absurd (Text.isValidUTF8_of_readUtf8 hread) (h.resolve_left hlarge)

theorem Findings.addFile_of_error (hread : readDocument limits bytes = .error reason)
    (f : Findings) : f.addFile limits object (name, .file bytes) = f := by
  rw [addFile]
  cases DocumentKind.ofFileName? name with
  | none => rfl
  | some kind => simp only [hread]

/-- A document that cannot be read says nothing. -/
theorem directoryFindings_insert (hread : readDocument limits bytes = .error reason) :
    directoryFindings limits root object (directory, above ++ (name, .file bytes) :: below) =
      directoryFindings limits root object (directory, above ++ below) := by
  simp only [directoryFindings, seenIn, List.filter_append, List.foldl_append]
  rw [List.filter_cons]
  split_ifs
  · rw [List.foldl_cons, Findings.addFile_of_error hread]
  · rfl

theorem subdirectories_cons_directory (before after : List (String × Node))
    (hfits : fitsPath (joinPath root directory) = true) :
    subdirectories root (before ++ (directory, .directory above) :: after) =
      subdirectories root before ++ (directory, above) :: subdirectories root after := by
  rw [subdirectories, List.filterMap_append, List.filterMap_cons]
  simp only [if_pos hfits]
  rfl

theorem take_subdirectories (hfits : fitsPath (joinPath root directory) = true)
    (hfirst : (subdirectories root before).length < limits.maxDirectories) :
    (subdirectories root (before ++ (directory, .directory above) :: after)).take
        limits.maxDirectories =
      subdirectories root before ++ (directory, above) :: (subdirectories root after).take
        (limits.maxDirectories - (subdirectories root before).length - 1) := by
  obtain ⟨more, hmore⟩ := Nat.exists_eq_add_of_lt hfirst
  rw [subdirectories_cons_directory _ _ hfits, hmore, Nat.add_assoc, List.take_length_add_append,
    List.take_succ_cons]
  congr 3
  omega

/-- The visits to a directory that is scanned stand between others. -/
theorem exists_visits_eq (before after : List (String × Node))
    (hfits : fitsPath (joinPath root directory) = true)
    (hfirst : (subdirectories root before).length < limits.maxDirectories)
    (hobject : (Name.ofDirectory? directory).isSome) :
    ∃ vs ws, ∀ listing,
      visits limits root (before ++ (directory, .directory listing) :: after) =
        vs ++ documentsIn (joinPath root directory) listing ++ ws := by
  refine ⟨(subdirectories root before).flatMap (visitsTo root) ++
      [.directory (joinPath root directory) directory],
    ((subdirectories root after).take
      (limits.maxDirectories - (subdirectories root before).length - 1)).flatMap (visitsTo root),
    fun listing => ?_⟩
  rw [visits, take_subdirectories hfits hfirst, List.flatMap_append, List.flatMap_cons, visitsTo,
    if_pos hobject]
  simp

/-- A document that cannot be read leaves what is found as it is. -/
theorem entries_insert (hfits : fitsPath (joinPath root directory) = true)
    (hfirst : (subdirectories root before).length < limits.maxDirectories)
    (hread : readDocument limits bytes = .error reason) :
    (scanEntries limits root (before ++
        (directory, .directory (above ++ (name, .file bytes) :: below)) :: after)).entries =
      (scanEntries limits root (before ++
        (directory, .directory (above ++ below)) :: after)).entries := by
  -- Equal as maps: for each object both learn from the same directories in the same order.
  refine SortedMap.ext_get? fun object => ?_
  rw [get?_entries_scanEntries, get?_entries_scanEntries, take_subdirectories hfits hfirst,
    take_subdirectories hfits hfirst]
  simp only [List.foldl_filter, List.foldl_append, List.foldl_cons, learn,
    directoryFindings_insert hread]
  rfl

theorem le_utf8ByteSize_joinPath (root name : String) :
    root.utf8ByteSize + name.utf8ByteSize ≤ (joinPath root name).utf8ByteSize := by
  rw [joinPath]
  split_ifs <;> simp only [String.utf8ByteSize_append] <;> omega

theorem fitsPath_of_joinPath (h : fitsPath (joinPath root name) = true) :
    fitsPath root = true := by
  have hsize := le_utf8ByteSize_joinPath root name
  simp only [fitsPath, decide_eq_true_eq] at h ⊢
  omega

/-- A document that cannot be read adds a record to the report, and nothing else. -/
theorem report_insert (hfits : fitsPath (joinPath (joinPath root directory) name) = true)
    (hfirst : (subdirectories root before).length < limits.maxDirectories)
    (hobject : (Name.ofDirectory? directory).isSome)
    (hkind : (DocumentKind.ofFileName? name).isSome)
    (hread : readDocument limits bytes = .error reason) :
    (scanEntries limits root (before ++
        (directory, .directory (above ++ below)) :: after)).report.AddsRecord
      ⟨joinPath (joinPath root directory) name, reason⟩
      (scanEntries limits root (before ++
        (directory, .directory (above ++ (name, .file bytes) :: below)) :: after)).report := by
  have hbelow := fitsPath_of_joinPath hfits
  obtain ⟨vs, ws, hvisits⟩ := exists_visits_eq before after hbelow hfirst hobject
  have hvisit : documentAt? (joinPath root directory) (name, .file bytes) =
      some (.document (joinPath (joinPath root directory) name) bytes) := by
    obtain ⟨kind, hkind⟩ := Option.isSome_iff_exists.1 hkind
    simp only [documentAt?, hkind, if_pos hfits]
  have hrecord : (Visit.document (joinPath (joinPath root directory) name) bytes).record? limits =
      some ⟨joinPath (joinPath root directory) name, reason⟩ := by
    simp only [Visit.record?, Visit.fault?, hread]
    rfl
  have hwith : documentsIn (joinPath root directory) (above ++ (name, .file bytes) :: below) =
      documentsIn (joinPath root directory) above ++
        .document (joinPath (joinPath root directory) name) bytes ::
          documentsIn (joinPath root directory) below := by
    rw [documentsIn_append, documentsIn_cons, hvisit, Option.toList_some, List.singleton_append]
  have hadds := fun r : ScanReport => r.addsRecord_account hrecord
    (vs ++ documentsIn (joinPath root directory) above)
    (documentsIn (joinPath root directory) below ++ ws)
  rw [report_scanEntries, report_scanEntries, hvisits, hvisits, hwith, documentsIn_append,
    subdirectories_cons_directory _ _ hbelow, subdirectories_cons_directory _ _ hbelow]
  simpa only [List.append_assoc, List.cons_append, List.length_append, List.length_cons] using
    hadds _

theorem scanDirectory_insert_of_long
    (hlong : fitsPath (joinPath (joinPath root directory) name) = false) (s : Scan) (node : Node) :
    scanDirectory limits root s (directory, above ++ (name, node) :: below) =
      scanDirectory limits root s (directory, above ++ below) := by
  simp only [scanDirectory, List.filter_append, List.filter_cons, hlong, if_neg Bool.false_ne_true]

/-- What lies at too long a path is not seen. -/
theorem scanEntries_insert_of_long (after above below : List (String × Node))
    (hlong : fitsPath (joinPath (joinPath root directory) name) = false)
    (hfirst : (subdirectories root before).length < limits.maxDirectories) (node : Node) :
    scanEntries limits root
        (before ++ (directory, .directory (above ++ (name, node) :: below)) :: after) =
      scanEntries limits root (before ++ (directory, .directory (above ++ below)) :: after) := by
  cases hfits : fitsPath (joinPath root directory) with
  | true =>
    rw [scanEntries, scanEntries, take_subdirectories hfits hfirst,
      take_subdirectories hfits hfirst, subdirectories_cons_directory _ _ hfits,
      subdirectories_cons_directory _ _ hfits]
    simp only [List.foldl_append, List.foldl_cons, scanDirectory_insert_of_long hlong,
      List.length_append, List.length_cons]
  | false =>
    have hskip : ∀ listing,
        subdirectories root (before ++ (directory, .directory listing) :: after) =
          subdirectories root before ++ subdirectories root after := fun listing => by
      rw [subdirectories, List.filterMap_append, List.filterMap_cons]
      simp only [hfits, if_neg Bool.false_ne_true]
      rfl
    rw [scanEntries, scanEntries, hskip, hskip]

end OneMore

/-- **The account of a scan** of two listings of a root:

    * each visit is counted, or else recorded, and no two visits are at one path;
    * if the second listing lacks a document of the first that cannot be read, in one of the
      directories that are scanned, the same is found, and the report on the first has the record
      of the document more, unless it lies at too long a path;
    * if all directories are scanned, the same is found of an object for which the same directories
      are named. -/
theorem scan_ledger (limits : ScanLimits) (root : String) (files files' : Files)
    {entries entries' : List (String × Node)} (hentries : files.list root = .ok entries)
    (hentries' : files'.list root = .ok entries') :
    (scan limits files root).report =
        ScanReport.account limits
          { truncated := limits.maxDirectories < (subdirectories root entries).length }
          (visits limits root entries) ∧
      (IsListing entries → ((visits limits root entries).map Visit.path).Nodup) ∧
      (∀ before after above below directory name bytes,
        entries = before ++
          (directory, .directory (above ++ (name, .file bytes) :: below)) :: after →
        entries' = before ++ (directory, .directory (above ++ below)) :: after →
        (subdirectories root before).length < limits.maxDirectories →
        (Name.ofDirectory? directory).isSome → (DocumentKind.ofFileName? name).isSome →
        limits.maxBytes < bytes.length ∨ ¬bytes.toByteArray.IsValidUTF8 →
        if fitsPath (joinPath (joinPath root directory) name) then
          (scan limits files root).entries = (scan limits files' root).entries ∧
            ∃ reason, readDocument limits bytes = .error reason ∧
              (scan limits files' root).report.AddsRecord
                ⟨joinPath (joinPath root directory) name, reason⟩ (scan limits files root).report
        else scan limits files root = scan limits files' root) ∧
      ∀ object,
        (subdirectories root entries).length ≤ limits.maxDirectories →
        (subdirectories root entries').length ≤ limits.maxDirectories →
        (subdirectories root entries).filter (NamedFor object) =
          (subdirectories root entries').filter (NamedFor object) →
        (scan limits files root).entries.get? object =
          (scan limits files' root).entries.get? object := by
  have hscan : scan limits files root = scanEntries limits root entries := by rw [scan, hentries]
  have hscan' : scan limits files' root = scanEntries limits root entries' := by
    rw [scan, hentries']
  rw [hscan, hscan']
  refine ⟨report_scanEntries limits root entries, nodup_visits, ?_, ?_⟩
  · rintro before after above below directory name bytes rfl rfl hfirst hobject hkind hunread
    obtain ⟨reason, hread⟩ := exists_readDocument_error hunread
    -- a path that is too long hides the document in the listing that has it
    split_ifs with hfits
    · exact ⟨entries_insert (fitsPath_of_joinPath hfits) hfirst hread, reason, hread,
        report_insert hfits hfirst hobject hkind hread⟩
    · exact scanEntries_insert_of_long _ _ _ (Bool.eq_false_iff.2 hfits) hfirst (.file bytes)
  · intro object hall hall' hsame
    rw [get?_entries_scanEntries, get?_entries_scanEntries, List.take_of_length_le hall,
      List.take_of_length_le hall', hsame]

/-- What is seen of a file system that has nothing but a folder at a path. -/
def folder (root : String) (entries : List (String × Node)) : Files := fun path =>
  if path = root then .ok (.directory entries) else .error .notFound

theorem list_folder {root : String} {entries : List (String × Node)} (h : IsByName entries)
    (hbelow : ∀ entry ∈ entries, entry.2.IsSorted) :
    (folder root entries).list root = .ok entries :=
  Files.list_eq (by rw [folder, if_pos rfl]) h hbelow

/-- Two exports, the first one with further files. -/
def twoExports (more : List (String × Node)) : List (String × Node) :=
  [("Account_1",
      .directory (("list.md", .file (Text.writeUtf8 "SELECT Id FROM Account")) :: more)),
    ("Case_1", .directory [])]

theorem isListing_twoExports : IsListing (twoExports [("usage.md", .file [0xff])]) where
  proper := by simp [twoExports, IsProper]
  names := by simp [twoExports]
  namesBelow name below h := by
    simp only [twoExports, List.mem_cons, Prod.mk.injEq, Node.directory.injEq, List.not_mem_nil,
      or_false] at h
    obtain ⟨-, rfl⟩ | ⟨-, rfl⟩ := h <;> simp

/-- A document that is no text leaves what is found as it is, and has its record. -/
theorem spoiltUsage_recorded :
    let spoilt := folder "docs" (twoExports [("usage.md", .file [0xff])])
    let plain := folder "docs" (twoExports [])
    ((visits {} "docs" (twoExports [("usage.md", .file [0xff])])).map Visit.path).Nodup ∧
      (scan {} spoilt "docs").entries = (scan {} plain "docs").entries ∧
      (∃ reason, readDocument {} [0xff] = .error reason ∧
        (scan {} plain "docs").report.AddsRecord ⟨"docs/Account_1/usage.md", reason⟩
          (scan {} spoilt "docs").report) ∧
      (scan {} spoilt "docs").entries.get? "Case" =
        (scan {} plain "docs").entries.get? "Case" := by
  intro spoilt plain
  obtain ⟨-, hnodup, hinsert, hother⟩ := scan_ledger {} "docs" spoilt plain
    (list_folder (by decide) (by decide)) (list_folder (by decide) (by decide))
  have hunread := hinsert [] [("Case_1", .directory [])]
    [("list.md", .file (Text.writeUtf8 "SELECT Id FROM Account"))] [] "Account_1" "usage.md" [0xff]
    rfl rfl (by decide) (by decide) (by decide) (.inr (by decide))
  rw [if_pos (by decide)] at hunread
  have hcase : ∀ more, (subdirectories "docs" (twoExports more)).filter (NamedFor "Case") =
      [("Case_1", [])] := fun more => by
    have haccount : ¬NamedFor "Case" ("Account_1",
        ("list.md", .file (Text.writeUtf8 "SELECT Id FROM Account")) :: more) :=
      (by decide : Name.ofDirectory? "Account_1" ≠ some "Case")
    have hnamed : NamedFor "Case" ("Case_1", []) := by decide
    exact (List.filter_cons_of_neg (by simpa using haccount)).trans
      (List.filter_cons_of_pos (by simpa using hnamed))
  exact ⟨hnodup isListing_twoExports, hunread.1, hunread.2,
    hother "Case" (by decide) (by decide) ((hcase _).trans (hcase _).symm)⟩

/-- A path that leads to `d` after a number of steps that stay where they are. -/
def longWay : Nat → String
  | 0 => "d"
  | n + 1 => "./" ++ longWay n

theorem utf8ByteSize_longWay (n : Nat) : (longWay n).utf8ByteSize = 2 * n + 1 := by
  induction n with
  | zero => rfl
  | succ n ih =>
    rw [longWay, String.utf8ByteSize_append, ih]
    have hstep : "./".utf8ByteSize = 2 := rfl
    omega

theorem utf8ByteSize_joinPath_longWay (n : Nat) (name : String) :
    (joinPath (longWay n) name).utf8ByteSize = 2 * n + 2 + name.utf8ByteSize := by
  have hlast : (longWay n).toList.getLast? = some 'd' := by
    induction n with
    | zero => rfl
    | succ n ih => rw [longWay, String.toList_append, List.getLast?_append, ih, Option.some_or]
  have hfull : ¬(longWay n).isEmpty := by
    rw [String.isEmpty_iff_utf8ByteSize_eq_zero, utf8ByteSize_longWay]
    omega
  have hslash : "/".utf8ByteSize = 1 := rfl
  rw [joinPath, if_neg, String.utf8ByteSize_append, String.utf8ByteSize_append,
    utf8ByteSize_longWay, hslash]
  simp only [hlast, hfull]
  decide

/-- What lies at too long a path in a directory of an object is neither counted nor recorded. -/
theorem report_scan_long {root name : String} {bytes : List UInt8}
    (hfits : fitsPath (joinPath root "Account_1") = true)
    (hlong : fitsPath (joinPath (joinPath root "Account_1") name) = false) :
    (scan {} (folder root [("Account_1", .directory [(name, .file bytes)])]) root).report =
      { directories := 1 } := by
  have hfirst : (subdirectories root []).length < ({} : ScanLimits).maxDirectories :=
    Nat.zero_lt_succ 499
  have hseen : scanEntries {} root [("Account_1", .directory [(name, .file bytes)])] =
      scanEntries {} root [("Account_1", .directory [])] :=
    scanEntries_insert_of_long [] [] [] hlong hfirst _
  have hbelow : subdirectories root [("Account_1", .directory [])] = [("Account_1", [])] :=
    subdirectories_cons_directory [] [] hfits
  have hname : Name.ofDirectory? "Account_1" = some "Account" := by decide
  have hdirectory : (Node.directory [(name, .file bytes)]).IsSorted :=
    List.pairwise_singleton _ _
  rw [scan, list_folder (List.pairwise_singleton _ _) fun entry hentry =>
    List.mem_singleton.1 hentry ▸ hdirectory]
  simp only [hseen, report_scanEntries, visits, hbelow]
  simp [visitsTo, ScanReport.account, Visit.record?, Visit.fault?, Visit.isDirectory, documentsIn,
    hname]

/-- A list in a directory of an object that is no text, and is neither counted nor recorded: the
    path to the directory is short enough, that to the list is not. -/
theorem deepList_unseen :
    (scan {} (folder (longWay 2040) [("Account_1", .directory [("list.md", .file [0xff])])])
        (longWay 2040)).report = { directories := 1 } ∧
      (DocumentKind.ofFileName? "list.md").isSome ∧
      ¬([0xff] : List UInt8).toByteArray.IsValidUTF8 := by
  have haccount : "Account_1".utf8ByteSize = 9 := rfl
  have hlist : "list.md".utf8ByteSize = 7 := rfl
  have hbound : maxPathBytes = 4095 := rfl
  have hsize := utf8ByteSize_joinPath_longWay 2040 "Account_1"
  have hbelow := le_utf8ByteSize_joinPath (joinPath (longWay 2040) "Account_1") "list.md"
  exact ⟨report_scan_long (decide_eq_true (by omega)) (decide_eq_false (by omega)), by decide,
    by decide⟩

end QueryGate
