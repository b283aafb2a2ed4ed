import QueryGate.Discovery.Store
import QueryGate.Proofs.Capability.Growth
import QueryGate.Proofs.Discovery.Harvest
import QueryGate.Proofs.Discovery.Names
import QueryGate.Proofs.Query.Accounting

/-!
# What a scan names

The names in a snapshot that a scan publishes, and in the queries compiled on it. Objects
have the names of objects. Fields have the names of fields, but for those that only
conditions bring: the search for conditions folds letters, and so takes a name with a
long s or a Kelvin sign for a field (`rescan_names`, `rescan_disguised`).

Each extractor adds nothing else to what is learned, and neither does any step of a scan
(`Entry.NamesFields`, `Scan.NamesFields`).
-/

namespace QueryGate

open Text

/-! ## Entries -/

/-- An entry names fields only, but for odd names that it has operators for. -/
structure Entry.NamesFields (odd : String → Prop) (e : Entry) : Prop where
  /-- The fields are field names, or odd names with operators. -/
  fields : ∀ name ∈ e.fields,
    Name.isField name = true ∨ odd name ∧ e.operators.contains name = true
  /-- The default fields are field names. -/
  defaults : ∀ name ∈ e.defaults, Name.isField name = true
  /-- What has operators is among the fields. -/
  operators : ∀ name, e.operators.contains name = true → name ∈ e.fields

namespace Entry

theorem contains_addOperator {e : Entry} {field name : String} {op : Operator} :
    (e.addOperator field op).operators.contains name = true ↔
      name = field ∨ e.operators.contains name = true := by
  rw [SortedMap.contains, SortedMap.contains, addOperator, SortedMap.get?_alter]
  split_ifs with h <;> simp [h]

namespace NamesFields

variable {odd : String → Prop} {e other : Entry}

theorem empty (odd : String → Prop) : Entry.empty.NamesFields odd where
  fields _ h := absurd h SortedSet.not_mem_empty
  defaults _ h := by cases h
  operators _ h := by cases h

theorem addField (h : e.NamesFields odd) {field : String} (hfield : Name.isField field = true) :
    (e.addField field).NamesFields odd where
  fields name hname := by
    rcases SortedSet.mem_insert.1 hname with rfl | hname
    · exact .inl hfield
    · exact h.fields name hname
  defaults := h.defaults
  operators name hname := SortedSet.mem_insert.2 (.inr (h.operators name hname))

theorem addFields (h : e.NamesFields odd) {fields : List String}
    (hfields : ∀ field ∈ fields, Name.isField field = true) : (e.addFields fields).NamesFields odd :=
  List.foldlRecOn fields Entry.addField h fun _ h field hfield => h.addField (hfields field hfield)

theorem addOperator (h : e.NamesFields odd) {field : String}
    (hfield : Name.isField field = true ∨ odd field) (op : Operator) :
    (e.addOperator field op).NamesFields odd where
  fields name hname := by
    rcases SortedSet.mem_insert.1 hname with rfl | hname
    · exact hfield.imp_right fun hodd => ⟨hodd, contains_addOperator.2 (.inl rfl)⟩
    · exact (h.fields name hname).imp_right (.imp_right fun h => contains_addOperator.2 (.inr h))
  defaults := h.defaults
  operators name hname := by
    refine SortedSet.mem_insert.2 ((contains_addOperator.1 hname).imp_right fun hname => ?_)
    exact h.operators name hname

theorem withDefaults (h : e.NamesFields odd) {fields : List String}
    (hfields : ∀ field ∈ fields, Name.isField field = true) :
    (e.withDefaults fields).NamesFields odd :=
  { fields := h.fields, defaults := hfields, operators := h.operators }

theorem merge (h : e.NamesFields odd) (hother : other.NamesFields odd) :
    (e.merge other).NamesFields odd where
  fields name hname := by
    rcases mem_merge_fields.1 hname with hname | hname
    · exact (h.fields name hname).imp_right (.imp_right fun h => contains_merge.2 (.inl h))
    · exact (hother.fields name hname).imp_right (.imp_right fun h => contains_merge.2 (.inr h))
  defaults name hname := by
    rcases mem_merge_defaults.1 hname with hname | hname
    · exact h.defaults name hname
    · exact hother.defaults name hname
  operators name hname := by
    rcases contains_merge.1 hname with hname | hname
    · exact mem_merge_fields.2 (.inl (h.operators name hname))
    · exact mem_merge_fields.2 (.inr (hother.operators name hname))

end NamesFields

end Entry

/-! ## Documents -/

section Documents

variable {odd : String → Prop} {document : Document} {f : Findings}

namespace Findings

theorem addFragment_namesFields (h : f.entry.NamesFields odd) (object : String)
    (fragment : Fragment) : (f.addFragment object fragment).entry.NamesFields odd := by
  have hfields : ∀ field ∈ fragment.fields, Name.isField field = true :=
    fun _ => SelectList.isField_of_mem_fields
  dsimp only [addFragment]
  split_ifs
  · exact h
  · exact h
  · exact (h.withDefaults hfields).addFields hfields
  · exact h.addFields hfields

theorem addSelectLists_namesFields (h : f.entry.NamesFields odd) (document : Document) :
    (f.addSelectLists document).entry.NamesFields odd :=
  List.foldlRecOn (motive := fun f : Findings => f.entry.NamesFields odd) _ _ h
    fun _ h fragment _ => addFragment_namesFields h document.object fragment

theorem addUsages_namesFields (h : f.entry.NamesFields odd) {usages : List (String × Operator)}
    (husages : ∀ usage ∈ usages, Name.isField usage.1 = true ∨ odd usage.1) :
    (f.addUsages usages).entry.NamesFields odd :=
  List.foldlRecOn (motive := fun e : Entry => e.NamesFields odd) _ _ h
    fun _ h usage husage => h.addOperator (husages usage husage) usage.2

theorem addConditions_namesFields (h : f.entry.NamesFields odd)
    (hodd : ∀ name, Name.Disguised document.text name → odd name) :
    (f.addConditions document).entry.NamesFields odd := by
  refine List.foldlRecOn (motive := fun f : Findings => f.entry.NamesFields odd) _ _ h ?_
  intro f h unit hunit
  rw [addUnit]
  split_ifs
  · exact h
  split
  · exact h
  · refine addUsages_namesFields h fun usage husage => ?_
    refine (WhereClause.isField_or_disguised_of_mem_usages husage).imp_right fun hname => ?_
    exact hodd _ (hname.mono fun letter => WhereClause.mem_of_mem_units hunit)

end Findings

theorem Payload.extract_namesFields (hodd : ∀ name, Name.Disguised document.text name → odd name) :
    (Payload.extract document).entry.NamesFields odd := by
  have hclosed : Harvest.Closed fun h => h.findings.entry.NamesFields odd :=
    { field := fun _ _ hfield h => h.addField hfield
      operator := fun _ _ op hfield h => h.addOperator (.inl hfield) op
      report := fun _ _ h => h }
  have hharvest : (harvest document).findings.entry.NamesFields odd :=
    hclosed.harvest (Entry.NamesFields.empty odd) document
  dsimp only [Payload.extract]
  split_ifs
  · exact hharvest
  · exact Findings.addConditions_namesFields
      (Findings.addSelectLists_namesFields hharvest document) hodd

/-- An extractor finds field names, and names that conditions disguise. -/
theorem Extractor.extract_namesFields (x : Extractor)
    (hodd : ∀ name, Name.Disguised document.text name → odd name) :
    (x.extract document).entry.NamesFields odd := by
  have hempty := Entry.NamesFields.empty odd
  cases x with
  | tabular => exact Findings.addSelectLists_namesFields hempty document
  | payload => exact Payload.extract_namesFields hodd
  | narrative => exact hempty.addFields fun _ => Narrative.isField_of_mem_fields
  | whereOperators => exact Findings.addConditions_namesFields hempty hodd

/-- A document names fields, and what its text disguises. -/
theorem Document.findings_namesFields
    (hodd : ∀ name, Name.Disguised document.text name → odd name) :
    document.findings.entry.NamesFields odd :=
  List.foldlRecOn (motive := fun f : Findings => f.entry.NamesFields odd) _ _
    (Entry.NamesFields.empty odd)
    fun _ h x _ => h.merge (x.extract_namesFields hodd)

end Documents

/-! ## Scans -/

/-- A text is that of a file in a directory among some entries. -/
def HoldsText (entries : List (String × Node)) (text : String) : Prop :=
  ∃ directory below file bytes, (directory, .directory below) ∈ entries ∧
    (file, .file bytes) ∈ below ∧ readUtf8 bytes = .ok text

/-- A name is disguised by a document in the directories below a root. -/
def Files.Disguise (files : Files) (root : String) (name : String) : Prop :=
  ∃ entries text, files.list root = .ok entries ∧ HoldsText entries text ∧
    Name.Disguised text.toList name

/-- A scan has found entries that name fields, for objects. -/
def Scan.NamesFields (odd : String → Prop) (s : Scan) : Prop :=
  ∀ object e, s.entries.get? object = some e → Name.isObject object = true ∧ e.NamesFields odd

section Scans

variable {odd : String → Prop} {limits : ScanLimits}

theorem Name.Disguised.of_ofText {object : String} {kind : DocumentKind} {text name : String}
    (h : Name.Disguised (Document.ofText object kind text).text name) :
    Name.Disguised text.toList name := by
  obtain ⟨hpath, letter, hletter, hfolds, hmem⟩ := h
  refine ⟨hpath, letter, hletter, hfolds, ?_⟩
  rcases mem_replaceAll hmem with hmem | ⟨before, rest, value, rest', hm, hvalue⟩
  · exact hmem
  · -- a line feed that stands for a line end is no such letter
    obtain ⟨after, -, hpair⟩ := Option.map_eq_some_iff.1 hm
    cases hpair
    obtain rfl := List.mem_singleton.1 hvalue
    rcases hfolds with h | h <;> exact absurd h (by decide)

/-- A directory is named for an object. -/
theorem Name.isObject_of_ofDirectory? {name object : String}
    (h : Name.ofDirectory? name = some object) : Name.isObject object = true := by
  rw [ofDirectory?] at h
  split at h
  · next stamped hstamped =>
    cases h
    have hsegment := (Option.filter_eq_some_iff.1 hstamped).2
    rw [isObject, String.toList_ofList]
    exact (Bool.and_eq_true_iff.1 hsegment).1
  · split_ifs at h with hobject
    cases h
    exact hobject

/-- What a file adds names fields. -/
theorem scanFile_namesFields {object directory : String} {state : Findings × ScanReport}
    {file : String × Node} (h : state.1.entry.NamesFields odd)
    (hodd : ∀ bytes text, file.2 = .file bytes → readUtf8 bytes = .ok text →
      ∀ name, Name.Disguised text.toList name → odd name) :
    (scanFile limits object directory state file).1.entry.NamesFields odd := by
  rw [scanFile]
  split
  · next bytes kind hbytes hkind =>
    split
    · next text htext =>
      have hread : readUtf8 bytes = .ok text := by
        rw [readDocument] at htext
        split_ifs at htext
        cases hbytes : readUtf8 bytes with
        | error e =>
          rw [hbytes] at htext
          cases htext
        | ok text' =>
          rw [hbytes] at htext
          exact congrArg _ (Except.ok.inj htext)
      refine h.merge (Document.findings_namesFields fun name hname => ?_)
      exact hodd bytes text hbytes hread name hname.of_ofText
    · exact h
  · exact h

/-- What a directory adds names fields, for an object. -/
theorem scanDirectory_namesFields {root : String} {s : Scan}
    {directory : String × List (String × Node)} (h : s.NamesFields odd)
    (hodd : ∀ file bytes text, (file, .file bytes) ∈ directory.2 → readUtf8 bytes = .ok text →
      ∀ name, Name.Disguised text.toList name → odd name) :
    (scanDirectory limits root s directory).NamesFields odd := by
  dsimp only [scanDirectory]
  split
  · exact h
  · next object hobject =>
    have hfindings : ∀ path report,
        ((directory.2.filter fun file => fitsPath (joinPath path file.1)).foldl
          (scanFile limits object path) (.empty, report)).1.entry.NamesFields odd := by
      intro path report
      refine List.foldlRecOn
        (motive := fun state : Findings × ScanReport => state.1.entry.NamesFields odd) _ _
        (Entry.NamesFields.empty odd) fun state h file hfile => scanFile_namesFields h ?_
      intro bytes text hbytes hread
      refine hodd file.1 bytes text ?_ hread
      rw [← hbytes]
      exact List.mem_of_mem_filter hfile
    intro object' e he
    dsimp only at he
    split_ifs at he
    · exact h object' e he
    · rw [Capabilities.mergeEntry, SortedMap.get?_alter] at he
      split_ifs at he with hsame
      · subst hsame
        cases he
        refine ⟨Name.isObject_of_ofDirectory? hobject, .merge ?_ (hfindings _ _)⟩
        cases hold : s.entries.get? object' with
        | none => exact Entry.NamesFields.empty odd
        | some old => exact (h object' old hold).2
      · exact h object' e he

/-- A scan finds entries that name fields, for objects. -/
theorem scan_namesFields (limits : ScanLimits) (files : Files) (root : String) :
    (scan limits files root).NamesFields (files.Disguise root) := by
  rw [scan]
  split
  · next entries hentries =>
    refine List.foldlRecOn (motive := fun s : Scan => s.NamesFields (files.Disguise root)) _ _
      (fun _ _ h => by cases h) fun s h directory hdirectory => ?_
    refine scanDirectory_namesFields h fun file bytes text hfile hread name hname => ?_
    obtain ⟨⟨top, node⟩, hnode, hbelow⟩ :=
      List.mem_filterMap.1 (List.mem_of_mem_take hdirectory)
    dsimp only at hbelow
    split at hbelow
    · split_ifs at hbelow
      cases hbelow
      exact ⟨entries, text, hentries, ⟨top, _, file, bytes, hnode, hfile, hread⟩, hname⟩
    · cases hbelow
  · exact fun _ _ h => by cases h

end Scans

/-! ## Queries -/

/-- The names of fields in a query. -/
def Query.names (q : Query) : List String :=
  q.fields ++ q.conditions.map Comparison.field ++ q.orderBy.map (·.1)

section Queries

variable {view : View} {options : CompileOptions} {request : Request} {c : Compiled}

/-- The object of a query is known. -/
theorem knows_of_compile (h : compile view options request = .ok c) :
    view.knows c.query.object = true := by
  obtain ⟨refused, unsorted, haccount⟩ := exists_accounts_of_ok h
  rw [haccount.object]
  exact Bool.of_not_eq_false fun hknows => not_unknown_of_ok h (knows_eq_false_iff.1 hknows)

/-- The names in a query are allowed fields, or field names to sort by. -/
theorem mem_fields_or_isField_of_mem_names (h : compile view options request = .ok c)
    {name : String} (hname : name ∈ c.query.names) :
    name ∈ view.fields c.query.object ∨ Name.isField name = true := by
  obtain ⟨refused, unsorted, haccount⟩ := exists_accounts_of_ok h
  rw [Query.names, List.mem_append, List.mem_append] at hname
  rcases hname with (hname | hname) | hname
  · rw [haccount.fields, List.mem_eraseDups, List.mem_filter, decide_eq_true_eq] at hname
    exact .inl hname.2
  · obtain ⟨cmp, hcmp, rfl⟩ := List.mem_map.1 hname
    obtain ⟨item, -, hadmits⟩ := haccount.conditions.exists_of_mem_kept hcmp
    exact .inl hadmits.field_mem
  · obtain ⟨t, ht, rfl⟩ := List.mem_map.1 hname
    obtain ⟨term, -, -, hsortable⟩ := haccount.orderBy.exists_of_mem_kept ht
    rw [Sortable] at hsortable
    split_ifs at hsortable
    · exact .inl hsortable
    · exact .inr hsortable

end Queries

/-- In the snapshot that a scan publishes, objects have object names, and all that an entry names
    are field names, but for names with operators that a document disguises. A query compiled on the
    snapshot has no other names either than those of the registry. -/
theorem rescan_names (store : Store) (files : Files) (root : String) :
    (∀ object e, (store.rescan files root).current.entries.get? object = some e →
      Name.isObject object = true ∧ e.NamesFields (files.Disguise root)) ∧
    ∀ registry options request c,
      compile { registry, snapshot := (store.rescan files root).current } options request = .ok c →
      (registry.contains c.query.object = true ∨ Name.isObject c.query.object = true) ∧
      ∀ name ∈ c.query.names, name ∈ registry.fields c.query.object ∨ Name.isField name = true ∨
        files.Disguise root name := by
  have hscan : ∀ object e, (store.rescan files root).current.entries.get? object = some e →
      Name.isObject object = true ∧ e.NamesFields (files.Disguise root) :=
    scan_namesFields store.limits files root
  refine ⟨hscan, fun registry options request c h => ⟨?_, fun name hname => ?_⟩⟩
  · refine (Bool.or_eq_true_iff.1 (knows_of_compile h)).imp_right fun hfound => ?_
    obtain ⟨e, he⟩ := Option.isSome_iff_exists.1 hfound
    exact (hscan _ e he).1
  · rcases mem_fields_or_isField_of_mem_names h hname with hallowed | hfield
    swap
    · exact .inr (.inl hfield)
    refine (View.mem_fields_iff.1 hallowed).imp_right fun hfound => ?_
    rw [View.found] at hfound
    cases hentry : View.discovered
        { registry, snapshot := (store.rescan files root).current } |>.get? c.query.object with
    | none =>
      rw [hentry] at hfound
      exact absurd hfound SortedSet.not_mem_empty
    | some e =>
      rw [hentry] at hfound
      exact ((hscan _ e hentry).2.fields name hfound).imp_right And.left

/-- Files with a list view that compares a field with a long s in its name. -/
def Files.longStage : Files := fun path =>
  if path = "docs" then
    .ok (.directory [("Account_2024", .directory [
      ("list_views.md", .file (writeUtf8 "SELECT Id FROM Account WHERE ſtage = 1\n"))])])
  else .error .notFound

/-- The field with the long s is found with an operator, and so is disguised by the list view. -/
theorem longStage_disguised :
    (({} : Store).rescan .longStage "docs").current.entries.get? "Account" =
        some (((Entry.empty.withDefaults ["Id"]).addField "Id").addOperator "ſtage" .equal) ∧
      Files.longStage.Disguise "docs" "ſtage" := by
  have hentry : (({} : Store).rescan .longStage "docs").current.entries.get? "Account" =
      some (((Entry.empty.withDefaults ["Id"]).addField "Id").addOperator "ſtage" .equal) := by
    decide +kernel
  have hnames := ((rescan_names {} .longStage "docs").1 _ _ hentry).2
  refine ⟨hentry, ?_⟩
  exact ((hnames.fields "ſtage" (by decide +kernel)).resolve_left (by decide +kernel)).1

/-- Once the files are scanned, a query selects the field with the long s, which is no field name. -/
theorem rescan_disguised :
    (compile { registry := .empty, snapshot := (({} : Store).rescan .longStage "docs").current } {}
      { object := "Account", fields := some ["Id", "ſtage"] }).toOption.map Compiled.text =
        some "SELECT Id, ſtage FROM Account LIMIT 50" ∧
      Name.isField "ſtage" = false := by
  decide +kernel

end QueryGate
