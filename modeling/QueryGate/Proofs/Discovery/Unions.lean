import QueryGate.Proofs.Capability.Merging
import QueryGate.Proofs.Discovery.Coherence
import QueryGate.Proofs.Discovery.DirectoryBound
import QueryGate.Proofs.Discovery.Requests

/-!
# What documents say together

A scan reads documents, directory by directory, and merges what each says of its object:
first the documents of a directory, then the directories. As merging is associative, this
is what the documents say one after the other, however they are spread over directories
(`get?_entries_scan`).

So scans that read the same documents on an object, in whatever order and from whatever
directories, find the same fields and operators, those that some document teaches, and the
same default fields up to their order (`scan_unites_documents`).
-/

namespace QueryGate

/-! ## Entries -/

namespace Entry

variable {entries more : List Entry} {field : String} {op : Operator}

theorem records_joined :
    (joined entries).Records field op ↔ ∃ e ∈ entries, e.Records field op :=
  joined_iff (P := fun e => e.Records field op) (fun ⟨_, hops, _⟩ => by cases hops)
    fun _ _ => records_merge

/-- Lists with the same entries have the same operators. -/
theorem operators_joined_congr (h : ∀ e, e ∈ entries ↔ e ∈ more) :
    (joined entries).operators = (joined more).operators := by
  have hkeys : ∀ field, (joined entries).operators.contains field = true ↔
      (joined more).operators.contains field = true := fun field => by
    simp only [mem_keys_joined, h]
  have hrecords : ∀ field op, (joined entries).Records field op ↔
      (joined more).Records field op := fun field op => by
    simp only [records_joined, h]
  ext1 field
  have hkey := hkeys field
  have hrecord := hrecords field
  simp only [SortedMap.contains, Records] at hkey hrecord
  cases hops : (joined entries).operators.get? field with
  | none =>
    rw [hops] at hkey
    exact (Option.not_isSome_iff_eq_none.1 fun h => Bool.false_ne_true (hkey.2 h)).symm
  | some ops =>
    rw [hops] at hkey hrecord
    obtain ⟨ops', hops'⟩ := Option.isSome_iff_exists.1 (hkey.1 rfl)
    rw [hops'] at hrecord ⊢
    congr 1
    ext op
    simpa using hrecord op

/-- Entries that differ in the order of the default fields at most. -/
structure Alike (e e' : Entry) : Prop where
  /-- The fields are the same. -/
  fields : e.fields = e'.fields
  /-- So are the operators. -/
  operators : e.operators = e'.operators
  /-- The default fields are the same up to their order. -/
  defaults : e.defaults.Perm e'.defaults

namespace Coherent

theorem joined (h : ∀ e ∈ entries, e.Coherent) : (joined entries).Coherent :=
  List.foldlRecOn (motive := Coherent) _ _ .empty fun _ he e hmem => he.merge (h e hmem)

/-- A coherent entry without fields says nothing at all. -/
theorem eq_empty {e : Entry} (h : e.Coherent) (hempty : e.isEmpty = true) : e = .empty :=
  h.eq_empty_or_exists_field.resolve_right fun ⟨field, hfield⟩ =>
    ((isEmpty_iff e).1 hempty).1 field hfield

end Coherent

/-- Lists with the same coherent entries say the same, but for the order of the default fields. -/
theorem alike_joined (hentries : ∀ e ∈ entries, e.Coherent) (h : ∀ e, e ∈ entries ↔ e ∈ more) :
    (joined entries).Alike (joined more) where
  fields := fields_joined_congr h
  operators := operators_joined_congr h
  defaults := by
    have hmore : ∀ e ∈ more, e.Coherent := fun e he => hentries e ((h e).2 he)
    refine (List.perm_ext_iff_of_nodup (Coherent.joined hentries).nodup_defaults
      (Coherent.joined hmore).nodup_defaults).2 fun field => ?_
    simp only [mem_defaults_joined, h]

/-- An entry is there if it says something. -/
def present? (e : Entry) : Option Entry := if e.isEmpty then none else some e

theorem present?_eq_some_iff {e found : Entry} :
    e.present? = some found ↔ e.isEmpty = false ∧ e = found := by
  rw [present?]
  split_ifs with hempty <;> simp [hempty]

theorem Alike.isEmpty_eq {e e' : Entry} (h : e.Alike e') : e.isEmpty = e'.isEmpty := by
  rw [isEmpty, isEmpty, h.fields, h.operators]

theorem rel_present? {e e' : Entry} (h : e.Alike e') :
    Option.Rel Alike e.present? e'.present? := by
  rw [present?, present?, h.isEmpty_eq]
  split_ifs
  · exact .none
  · exact .some h

end Entry

/-! ## Documents -/

/-- What is learned from a document, the issues aside. -/
def Document.learned (document : Document) : Entry := document.findings.entry

/-- The document on an object that a file holds, if it can be read. -/
def Document.ofFile? (limits : ScanLimits) (object : String) (file : String × Node) :
    Option Document :=
  match file.2, DocumentKind.ofFileName? file.1 with
  | .file bytes, some kind =>
    match readDocument limits bytes with
    | .ok text => some (.ofText object kind text)
    | .error _ => none
  | _, _ => none

/-- The documents on an object that are read in a directory below a root. -/
def readings (limits : ScanLimits) (root object : String)
    (directory : String × List (String × Node)) : List Document :=
  (seenIn (joinPath root directory.1) directory.2).filterMap (Document.ofFile? limits object)

/-- The documents on an object that a scan reads, in the order of the scan. -/
def documentsOn (limits : ScanLimits) (files : Files) (root object : String) : List Document :=
  (((files.directories root).take limits.maxDirectories).filter (NamedFor object)).flatMap
    (readings limits root object)

section Documents

variable {limits : ScanLimits} {root object : String}

/-- A file adds what its document says. -/
theorem Findings.entry_addFile (f : Findings) (file : String × Node) :
    (f.addFile limits object file).entry =
      ((Document.ofFile? limits object file).map Document.learned).elim f.entry f.entry.merge := by
  obtain ⟨name, node⟩ := file
  cases node with
  | directory below => rfl
  | file bytes =>
    simp only [addFile, Document.ofFile?]
    cases DocumentKind.ofFileName? name with
    | none => rfl
    | some kind =>
      dsimp only
      cases readDocument limits bytes <;> rfl

/-- What is found in a directory is what its documents say. -/
theorem entry_directoryFindings (limits : ScanLimits) (root object : String)
    (directory : String × List (String × Node)) :
    (directoryFindings limits root object directory).entry =
      .joined ((readings limits root object directory).map Document.learned) := by
  have hfold : ∀ (files : List (String × Node)) (f : Findings),
      (files.foldl (Findings.addFile limits object) f).entry =
        ((files.filterMap (Document.ofFile? limits object)).map Document.learned).foldl
          Entry.merge f.entry := by
    intro files
    induction files with
    | nil => exact fun _ => rfl
    | cons file files ih =>
      intro f
      rw [List.foldl_cons, ih, Findings.entry_addFile, List.filterMap_cons]
      cases Document.ofFile? limits object file <;> rfl
  exact hfold _ _

/-- What documents say together is coherent. -/
theorem coherent_joined_learned (documents : List Document) :
    (Entry.joined (documents.map Document.learned)).Coherent :=
  Entry.Coherent.joined fun _ he => by
    obtain ⟨document, -, rfl⟩ := List.mem_map.1 he
    exact document.findings_coherent

/-- A directory adds what its documents say. -/
theorem learn_present? {e : Entry} (he : e.Coherent) (directory : String × List (String × Node)) :
    learn limits root object e.present? directory =
      (e.merge (.joined
        ((readings limits root object directory).map Document.learned))).present? := by
  have hcoherent := coherent_joined_learned (readings limits root object directory)
  have hknown : e.present?.getD .empty = e := by
    rw [Entry.present?]
    split_ifs with hempty
    · exact (he.eq_empty hempty).symm
    · rfl
  dsimp only [learn]
  rw [hknown, Findings.isEmpty, entry_directoryFindings]
  split_ifs with hempty
  · rw [hcoherent.eq_empty hempty, Entry.merge_empty]
  · have hfull := fun h => hempty ((Entry.isEmpty_merge e _).1 h).2
    exact (Entry.present?_eq_some_iff.2 ⟨Bool.eq_false_iff.2 hfull, rfl⟩).symm

/-- What a scan finds of an object is what the documents on it say, one after the other. -/
theorem get?_entries_scan (limits : ScanLimits) (files : Files) (root object : String) :
    (scan limits files root).entries.get? object =
      (Entry.joined ((documentsOn limits files root object).map Document.learned)).present? := by
  rw [get?_entries_scan_eq, documentsOn]
  -- by induction on the directories, the last one of which is scanned last
  induction List.filter _ _ using List.reverseRecOn with
  | nil => rfl
  | append_singleton directories last ih =>
    rw [List.foldl_append, List.foldl_cons, List.foldl_nil, ih,
      learn_present? (coherent_joined_learned _), ← Entry.joined_append, List.flatMap_append,
      List.flatMap_singleton, List.map_append]

end Documents

/-- **Merging and its order.** Merging entries is associative, absorbs what was merged before, and
    commutes up to the order of the default fields. What a scan finds of an object is what the
    documents on it say one after the other, however they are spread over directories: the union of
    what each of them teaches. And scans that read the same documents on an object find the same of
    it, up to the order of the default fields. -/
theorem scan_unites_documents :
    (∀ a b c : Entry, (a.merge b).merge c = a.merge (b.merge c)) ∧
    (∀ a b : Entry, (a.merge b).merge b = a.merge b ∧ a.merge a = a) ∧
    (∀ a b : Entry, (a.merge b).fields = (b.merge a).fields ∧
      (a.merge b).operators = (b.merge a).operators ∧
      ∀ field, field ∈ (a.merge b).defaults ↔ field ∈ (b.merge a).defaults) ∧
    (∀ limits files root object,
      let documents := documentsOn limits files root object
      let e := Entry.joined (documents.map Document.learned)
      (scan limits files root).entries.get? object = (if e.isEmpty then none else some e) ∧
        (∀ field, field ∈ e.fields ↔ ∃ document ∈ documents, field ∈ document.learned.fields) ∧
        (∀ field, e.operators.contains field = true ↔
          ∃ document ∈ documents, document.learned.operators.contains field = true) ∧
        (∀ field op, e.Records field op ↔
          ∃ document ∈ documents, document.learned.Records field op) ∧
        ∀ field, field ∈ e.defaults ↔
          ∃ document ∈ documents, field ∈ document.learned.defaults) ∧
    ∀ limits limits' files files' root root' object,
      (∀ document, document ∈ documentsOn limits files root object ↔
        document ∈ documentsOn limits' files' root' object) →
      Option.Rel Entry.Alike ((scan limits files root).entries.get? object)
        ((scan limits' files' root').entries.get? object) := by
  refine ⟨Entry.merge_assoc, fun a b => ⟨Entry.merge_merge_self a b, Entry.merge_self a⟩,
    fun a b => ⟨Entry.fields_merge_comm a b, Entry.operators_merge_comm a b, fun field => ?_⟩,
    fun limits files root object => ⟨get?_entries_scan limits files root object, ?_, ?_, ?_, ?_⟩,
    fun limits limits' files files' root root' object hsame => ?_⟩
  · rw [Entry.mem_merge_defaults, Entry.mem_merge_defaults, or_comm]
  · simp only [Entry.mem_fields_joined, List.mem_map, exists_exists_and_eq_and,
      implies_true]
  · simp only [Entry.mem_keys_joined, List.mem_map, exists_exists_and_eq_and,
      implies_true]
  · simp only [Entry.records_joined, List.mem_map, exists_exists_and_eq_and,
      implies_true]
  · simp only [Entry.mem_defaults_joined, List.mem_map, exists_exists_and_eq_and,
      implies_true]
  -- what the documents say depends on which they are, not on their order or number
  · rw [get?_entries_scan, get?_entries_scan]
    refine Entry.rel_present? (Entry.alike_joined (fun e he => ?_) fun e => ?_)
    · obtain ⟨document, -, rfl⟩ := List.mem_map.1 he
      exact document.findings_coherent
    · simp only [List.mem_map, hsame]

deriving instance DecidableEq for Document

/-- A list of accounts. -/
def accountList : Node := .file (Text.writeUtf8 "SELECT Id, Name FROM Account")

/-- A report on accounts, with another list. -/
def accountReport : Node :=
  .file (Text.writeUtf8 "SELECT Phone FROM Account WHERE Phone LIKE '+%'")

/-- From a list and a report the same is found in one directory and in two, in which they are read
    in another order. Only the order of the default fields differs. -/
theorem accountExports_unite :
    let together := folder "docs"
      [("Account_1", .directory [("list.md", accountList), ("report.md", accountReport)])]
    let spread := folder "docs" [("Account_1", .directory [("report.md", accountReport)]),
      ("Account_2", .directory [("list.md", accountList)])]
    Option.Rel Entry.Alike ((scan {} together "docs").entries.get? "Account")
        ((scan {} spread "docs").entries.get? "Account") ∧
      (scan {} together "docs").entries.defaults "Account" = ["Id", "Name", "Phone"] ∧
      (scan {} spread "docs").entries.defaults "Account" = ["Phone", "Id", "Name"] := by
  intro together spread
  have hreversed : documentsOn {} spread "docs" "Account" =
      (documentsOn {} together "docs" "Account").reverse := by decide +kernel
  refine ⟨?_, by decide +kernel, by decide +kernel⟩
  exact scan_unites_documents.2.2.2.2 {} {} together spread "docs" "docs" "Account"
    fun document => by rw [hreversed, List.mem_reverse]

end QueryGate
