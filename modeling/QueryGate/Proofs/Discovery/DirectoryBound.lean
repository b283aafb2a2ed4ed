import QueryGate.Proofs.Discovery.Ledger

/-!
# The bound on directories

A scan takes no more of the directories below its root than allowed. They are counted in
the order of their names before it is asked what they are named for, so that a directory
that is named for no object takes up a place as well.

The artifact directories that are scanned are the first ones (`scannedArtifacts_prefix`),
and there are as many of them as the other directories leave places. They are all if and
only if none has as many directories before it as are allowed (`artifacts_scanned`). So a
directory that is of no account may hide an export that fits the bound
(`archive_hides_export`).
-/

namespace QueryGate

/-- A directory is named for an object. -/
def IsArtifact (directory : String × List (String × Node)) : Prop :=
  (Name.ofDirectory? directory.1).isSome = true

instance : DecidablePred IsArtifact := fun _ => inferInstanceAs (Decidable (_ = _))

namespace Files

/-- The directories right below a root, whatever they are named for. -/
def directories (files : Files) (root : String) : List (String × List (String × Node)) :=
  match files.list root with
  | .ok entries => subdirectories root entries
  | .error _ => []

/-- Those that are named for an object. -/
def artifacts (files : Files) (root : String) : List (String × List (String × Node)) :=
  (files.directories root).filter IsArtifact

/-- How many places for directories go to such as are named for no object. -/
def placesLost (limits : ScanLimits) (files : Files) (root : String) : Nat :=
  ((files.directories root).take limits.maxDirectories).countP fun directory =>
    ¬IsArtifact directory

end Files

section Bound

variable (limits : ScanLimits) (files : Files) (root : String)

/-- The artifact directories that are scanned. -/
def scannedArtifacts : List (String × List (String × Node)) :=
  ((files.directories root).take limits.maxDirectories).filter IsArtifact

theorem scannedArtifacts_prefix : scannedArtifacts limits files root <+: files.artifacts root :=
  (List.take_prefix _ _).filter _

/-- All artifact directories are scanned if none has too many directories before it. -/
theorem scannedArtifacts_eq_iff : scannedArtifacts limits files root = files.artifacts root ↔
    ∀ before directory after, files.directories root = before ++ directory :: after →
      IsArtifact directory → before.length < limits.maxDirectories := by
  have hsplit : files.artifacts root = scannedArtifacts limits files root ++
      ((files.directories root).drop limits.maxDirectories).filter IsArtifact := by
    rw [scannedArtifacts, ← List.filter_append, List.take_append_drop, Files.artifacts]
  rw [hsplit, List.self_eq_append_right, List.filter_eq_nil_iff]
  constructor
  · intro hnone before directory after heq hartifact
    by_contra! hle
    refine hnone directory ?_ (decide_eq_true hartifact)
    rw [heq, List.drop_append_of_le_length hle]
    exact List.mem_append_right _ List.mem_cons_self
  · intro hbefore directory hmem hartifact
    obtain ⟨above, below, heq⟩ := List.append_of_mem hmem
    have hall : files.directories root =
        ((files.directories root).take limits.maxDirectories ++ above) ++ directory :: below := by
      rw [List.append_assoc, ← heq, List.take_append_drop]
    have hlength := hbefore _ _ _ hall (of_decide_eq_true hartifact)
    have hlong := List.length_pos_of_mem hmem
    rw [List.length_append, List.length_take] at hlength
    rw [List.length_drop] at hlong
    omega

/-- Documents are not counted as directories. -/
theorem directories_account_documentsIn (r : ScanReport) (path : String)
    (below : List (String × Node)) :
    (r.account limits (documentsIn path below)).directories = r.directories := by
  refine (Nat.add_eq_left).2 (List.countP_eq_zero.2 fun v hv => ?_)
  obtain ⟨file, -, hv⟩ := List.mem_filterMap.1 hv
  unfold documentAt? at hv
  split at hv
  · split_ifs at hv
    rw [← Option.some.inj hv]
    exact Bool.false_ne_true
  · cases hv

theorem directories_scanDirectory (s : Scan) (directory : String × List (String × Node)) :
    (scanDirectory limits root s directory).report.directories =
      s.report.directories + if IsArtifact directory then 1 else 0 := by
  rw [report_scanDirectory, account_visitsTo]
  by_cases hartifact : IsArtifact directory
  · rw [if_pos hartifact, if_pos (by exact hartifact), directories_account_documentsIn]
  · rw [if_neg hartifact, if_neg (by exact hartifact)]
    rfl

/-- The report counts the artifact directories that are scanned, and says whether there are more
    directories than allowed. -/
theorem report_scan :
    (scan limits files root).report.directories = (scannedArtifacts limits files root).length ∧
      ((scan limits files root).report.truncated = true ↔
        limits.maxDirectories < (files.directories root).length) := by
  rw [scan, scannedArtifacts, Files.directories]
  cases files.list root with
  | error error => simp [ScanReport.skip]
  | ok entries =>
    refine ⟨?_, ?_⟩
    · -- By induction on the directories, the last one of which is scanned last.
      dsimp only [scanEntries]
      induction List.take _ _ using List.reverseRecOn with
      | nil => rfl
      | append_singleton directories last ih =>
        rw [List.foldl_append, List.foldl_cons, List.foldl_nil, directories_scanDirectory, ih,
          List.filter_append, List.length_append]
        split_ifs with hlast <;> simp [hlast]
    · dsimp only
      rw [report_scanEntries]
      exact decide_eq_true_iff

/-- What a scan finds of an object is learned from the directories named for it, as far as they are
    among the first ones. -/
theorem get?_entries_scan_eq (object : String) : (scan limits files root).entries.get? object =
    (((files.directories root).take limits.maxDirectories).filter (NamedFor object)).foldl
      (learn limits root object) none := by
  rw [scan, Files.directories]
  cases files.list root with
  | error error =>
    dsimp only
    rw [List.take_nil]
    rfl
  | ok entries => exact get?_entries_scanEntries limits root object entries

/-- What is found depends on the artifact directories that are scanned, and on no others. -/
theorem entries_scan_congr {files files' : Files}
    (h : scannedArtifacts limits files root = scannedArtifacts limits files' root) :
    (scan limits files root).entries = (scan limits files' root).entries := by
  have hfound : ∀ files : Files, ∀ object, (scan limits files root).entries.get? object =
      ((scannedArtifacts limits files root).filter (NamedFor object)).foldl
        (learn limits root object) none := by
    intro files object
    have hnamed : ∀ directory, (decide (NamedFor object directory) &&
        decide (IsArtifact directory)) = decide (NamedFor object directory) := fun directory => by
      rw [Bool.and_eq_left_iff_imp, decide_eq_true_iff, decide_eq_true_iff]
      exact fun h => Option.isSome_of_eq_some h
    rw [get?_entries_scan_eq, scannedArtifacts, List.filter_filter]
    simp only [hnamed]
  refine SortedMap.ext_get? fun object => ?_
  rw [hfound, hfound, h]

end Bound

/-- **What the bound on directories counts.** The report says that there are more directories below
    the root than allowed, whatever they are named for, and each place is taken by an artifact
    directory that is scanned or by a directory that is of no account. So the artifact directories
    are all scanned if and only if each has fewer directories before it than are allowed, and
    without the report saying that something is left out only if no more directories of any name
    are there than allowed. And roots with the same artifact directories, as many of which are
    scanned, are found the same. -/
theorem artifacts_scanned (limits : ScanLimits) (files : Files) (root : String) :
    let directories := files.directories root
    let artifacts := files.artifacts root
    let report := (scan limits files root).report
    (report.truncated = true ↔ limits.maxDirectories < directories.length) ∧
    report.directories + files.placesLost limits root =
      min limits.maxDirectories directories.length ∧
    (report.directories = artifacts.length ↔
      ∀ before directory after, directories = before ++ directory :: after →
        IsArtifact directory → before.length < limits.maxDirectories) ∧
    (report.directories = artifacts.length ∧ report.truncated = false ↔
      directories.length ≤ limits.maxDirectories) ∧
    ∀ files' : Files, files'.artifacts root = artifacts →
      (scan limits files' root).report.directories = report.directories →
      (scan limits files' root).entries = (scan limits files root).entries := by
  intro directories artifacts report
  obtain ⟨hcount, htruncated⟩ := report_scan limits files root
  have hfirst := scannedArtifacts_prefix limits files root
  have hall : report.directories = artifacts.length ↔
      scannedArtifacts limits files root = artifacts := by
    rw [hcount]
    exact ⟨hfirst.eq_of_length, congrArg List.length⟩
  refine ⟨htruncated, ?_, ?_, ?_, fun files' hsame hequal => ?_⟩
  · rw [hcount, Files.placesLost, scannedArtifacts, ← List.countP_eq_length_filter,
      ← List.length_take, List.length_eq_countP_add_countP (IsArtifact ·)]
    simp [directories]
  · rw [hall, scannedArtifacts_eq_iff]
  · rw [Bool.eq_false_iff, Ne, htruncated, Nat.not_lt, and_iff_right_iff_imp]
    intro hle
    rw [hall, scannedArtifacts, List.take_of_length_le hle]
    rfl
  · refine entries_scan_congr limits root ?_
    have hfirst' := scannedArtifacts_prefix limits files' root
    rw [hsame] at hfirst'
    rw [(report_scan limits files' root).1, hcount] at hequal
    exact (List.prefix_of_prefix_length_le hfirst' hfirst hequal.le).eq_of_length hequal

/-- An export of accounts, behind whatever else lies below the root. -/
def exportBehind (others : List (String × Node)) : Files := folder "docs" (others ++
  [("Account_1", .directory [("list.md", .file (Text.writeUtf8 "SELECT Id FROM Account"))])])

/-- If there are two places, an archive before the export changes nothing. -/
theorem archive_fits :
    let limits : ScanLimits := { maxDirectories := 2 }
    let archived := exportBehind [("0-archive", .directory [])]
    (scan limits (exportBehind []) "docs").entries = (scan limits archived "docs").entries ∧
      (scan limits archived "docs").entries.defaults "Account" = ["Id"] := by
  intro limits archived
  refine ⟨?_, by decide +kernel⟩
  exact (artifacts_scanned limits archived "docs").2.2.2.2 (exportBehind []) rfl (by decide +kernel)

/-- If there is one place, for one artifact directory, the archive takes it. -/
theorem archive_hides_export :
    let limits : ScanLimits := { maxDirectories := 1 }
    let archived := exportBehind [("0-archive", .directory [])]
    let report := (scan limits archived "docs").report
    (archived.artifacts "docs").length = 1 ∧
      report.truncated = true ∧ report.directories = 0 ∧
      (scan limits archived "docs").entries.get? "Account" = none ∧
      ((scan limits (exportBehind []) "docs").entries.get? "Account").isSome = true := by
  decide +kernel

end QueryGate
