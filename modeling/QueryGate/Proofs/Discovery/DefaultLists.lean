import QueryGate.Proofs.Discovery.Unions

/-!
# Default fields that are mined

Within a document the first select list that reads from its object and names a field gives
the default fields (`Document.defaults_learned`), and the lists behind it are passed over.
Between documents it is otherwise: merging appends default fields. So the default fields
that a scan finds begin with the first list of all documents, and go on with what the first
lists of the further ones have that was not seen before (`mined_defaults`).

They are those of the first list if and only if no other document has a first list with
further fields. The same two lists thus give other default fields when they stand in two
documents than when they stand in one (`secondExport_appended`).
-/

namespace QueryGate

/-- The first of some lists, empty if there is none. -/
def firstOf (lists : List (List String)) : List String := lists.head?.getD []

/-- The fields of a select list, if it reads from an object and names any. -/
def Fragment.fieldsOn? (object : String) (fragment : Fragment) : Option (List String) :=
  if fragment.source = object ∧ fragment.fields ≠ [] then some fragment.fields else none

/-- The lists of fields that a document selects from its object, in the order of the text. -/
def Document.selectLists (document : Document) : List (List String) :=
  (SelectList.fragments document.text).filterMap (Fragment.fieldsOn? document.object)

/-- The lists of fields that count: a library of queries is read for them only if no payload
    contributes, and an account of how fields are used is not. -/
def Document.selections (document : Document) : List (List String) :=
  match document.kind with
  | .tabular => document.selectLists
  | .queryLibrary => if (Payload.harvest document).contributed then [] else document.selectLists
  | .usage => []

theorem Fragment.fieldsOn?_eq_some_iff {fragment : Fragment} {object : String}
    {fields : List String} : fragment.fieldsOn? object = some fields ↔
      (fragment.source = object ∧ fragment.fields ≠ []) ∧ fragment.fields = fields := by
  rw [fieldsOn?, Option.ite_none_right_eq_some, Option.some.injEq]

/-! ## Lists -/

theorem firstOf_append (lists more : List (List String)) :
    firstOf (lists ++ more) = if lists = [] then firstOf more else firstOf lists := by
  cases lists <;> rfl

/-- The first lists of some groups begin with the first list of all. -/
theorem exists_flatMap_firstOf (groups : List (List (List String))) :
    ∃ more, groups.flatMap firstOf = firstOf groups.flatten ++ more := by
  induction groups with
  | nil => exact ⟨[], rfl⟩
  | cons lists groups ih =>
    rw [List.flatMap_cons, List.flatten_cons, firstOf_append]
    split_ifs with hnil
    · rw [hnil]
      exact ih
    · exact ⟨groups.flatMap firstOf, rfl⟩

theorem nodup_firstOf {lists : List (List String)} (h : ∀ names ∈ lists, names.Nodup) :
    (firstOf lists).Nodup := by
  cases lists with
  | nil => exact List.nodup_nil
  | cons names lists => exact h names List.mem_cons_self

/-- Names without repeats are all that is left of a list that begins with them if it has no
    others. -/
theorem eraseDups_append_eq_iff {names more : List String} (h : names.Nodup) :
    (names ++ more).eraseDups = names ↔ more ⊆ names := by
  rw [List.eraseDups_append, eraseDups_of_nodup h, List.append_right_eq_self, ← List.subset_nil]
  constructor
  · intro hnil name hmem
    by_contra hnew
    have hleft : name ∈ (more.removeAll names).eraseDups :=
      List.mem_eraseDups.2 (by simp [List.removeAll, hmem, hnew])
    exact List.not_mem_nil (hnil hleft)
  · intro hsubset name hmem
    have hleft : name ∈ more ∧ name ∉ names := by
      simpa [List.removeAll] using List.mem_eraseDups.1 hmem
    exact absurd (hsubset hleft.1) hleft.2

/-! ## Documents -/

namespace Findings

/-- A select list gives the default fields, unless there are some already. -/
theorem defaults_addFragment (object : String) (f : Findings) (fragment : Fragment) :
    (f.addFragment object fragment).entry.defaults =
      if f.entry.defaults = [] then (fragment.fieldsOn? object).getD [] else f.entry.defaults := by
  dsimp only [addFragment]
  rw [Fragment.fieldsOn?]
  by_cases hsource : fragment.source = object
  · by_cases hfields : fragment.fields = []
    · simp [hsource, hfields]
    · by_cases hdefaults : f.entry.defaults = [] <;>
        simp [hsource, hfields, hdefaults, Entry.defaults_addFields, Entry.withDefaults]
  · simp [hsource, report]

/-- So does the first of the lists that a document selects. -/
theorem defaults_addSelectLists (f : Findings) (document : Document) :
    (f.addSelectLists document).entry.defaults =
      if f.entry.defaults = [] then firstOf document.selectLists else f.entry.defaults := by
  rw [addSelectLists, Document.selectLists]
  induction SelectList.fragments document.text generalizing f with
  | nil => exact (ite_eq_right_iff.2 Eq.symm).symm
  | cons fragment fragments ih =>
    rw [List.foldl_cons, ih, defaults_addFragment, List.filterMap_cons]
    cases hfields : fragment.fieldsOn? document.object with
    | none => by_cases hnil : f.entry.defaults = [] <;> simp [hnil]
    | some fields =>
      -- a list that counts is not empty, so that those behind it find default fields
      have hne : fields ≠ [] := by
        obtain ⟨⟨-, hne⟩, rfl⟩ := Fragment.fieldsOn?_eq_some_iff.1 hfields
        exact hne
      by_cases hnil : f.entry.defaults = [] <;> simp [hnil, hne, firstOf]

end Findings

/-- No payload says which fields are selected by default. -/
theorem Payload.defaults_harvest (document : Document) :
    (harvest document).findings.entry.defaults = [] := by
  have hclosed : Harvest.Closed fun h => h.findings.entry.defaults = [] :=
    { field := fun _ _ _ h => h, operator := fun _ _ _ _ h => h, report := fun _ _ h => h }
  exact hclosed.harvest rfl document

theorem Payload.defaults_extract (document : Document) :
    (extract document).entry.defaults =
      firstOf (if (harvest document).contributed then [] else document.selectLists) := by
  dsimp only [extract]
  split_ifs
  · exact defaults_harvest document
  · rw [Findings.addConditions_entry, Findings.defaults_addUsages,
      Findings.defaults_addSelectLists, if_pos (defaults_harvest document)]

/-- What is learned from a document is what the extractors for it find together. -/
theorem Document.learned_eq (document : Document) :
    document.learned = .joined ((Extractor.all.filter fun x => x.accepts document.kind).map
      fun x => (x.extract document).entry) := by
  rw [learned, findings, Entry.joined, List.foldl_map]
  exact (List.foldl_hom Findings.entry fun _ _ => rfl).symm

/-- Default fields are appended in the order in which they are seen. -/
theorem Entry.defaults_joined (entries : List Entry) :
    (joined entries).defaults = (entries.flatMap Entry.defaults).eraseDups := by
  rw [← foldl_appendNew]
  induction entries using List.reverseRecOn with
  | nil => rfl
  | append_singleton entries last ih =>
    rw [joined_concat, List.flatMap_append, List.flatMap_singleton, List.foldl_append, ← ih]
    rfl

/-- The default fields that a document gives are those of its first list that counts. -/
theorem Document.defaults_learned (document : Document) :
    document.learned.defaults = firstOf document.selections := by
  have hlists : (Extractor.tabular.extract document).entry.defaults =
      firstOf document.selectLists :=
    Findings.defaults_addSelectLists .empty document
  have hconditions : (Extractor.whereOperators.extract document).entry.defaults = [] := by
    change (Findings.empty.addConditions document).entry.defaults = []
    rw [Findings.addConditions_entry, Findings.defaults_addUsages]
    rfl
  have hnarrative : (Extractor.narrative.extract document).entry.defaults = [] :=
    Entry.defaults_addFields .empty _
  have hpayload : (Extractor.payload.extract document).entry.defaults =
      firstOf (if (Payload.harvest document).contributed then [] else document.selectLists) :=
    Payload.defaults_extract document
  have hnodup := fun x : Extractor =>
    eraseDups_of_nodup (x.extract_coherent document).nodup_defaults
  rw [learned_eq, Entry.defaults_joined, selections]
  cases document.kind with
  | tabular => simpa [Extractor.all, Extractor.accepts, hconditions, hlists] using hnodup .tabular
  | queryLibrary => simpa [Extractor.all, Extractor.accepts, hpayload] using hnodup .payload
  | usage => simp [Extractor.all, Extractor.accepts, hnarrative, hconditions, firstOf]

theorem Document.nodup_of_mem_selections (document : Document) {names : List String}
    (h : names ∈ document.selections) : names.Nodup := by
  have hlists : names ∈ document.selectLists → names.Nodup := fun h => by
    obtain ⟨fragment, -, hfields⟩ := List.mem_filterMap.1 h
    obtain ⟨-, rfl⟩ := Fragment.fieldsOn?_eq_some_iff.1 hfields
    exact fragment.nodup_fields
  rw [selections] at h
  split at h
  · exact hlists h
  · split_ifs at h
    · cases h
    · exact hlists h
  · cases h

/-! ## Scans -/

theorem Capabilities.defaults_of_present? {c : Capabilities} {object : String} {e : Entry}
    (h : c.get? object = e.present?) (he : e.Coherent) : c.defaults object = e.defaults := by
  rw [Capabilities.defaults, h, Entry.present?]
  split_ifs with hempty
  · rw [he.eq_empty hempty]
    rfl
  · rfl

/-- The default fields of an object that a scan finds begin with the first list of all documents on
    it, and go on with what is new in the first lists of the further ones. So they are those of the
    first list if and only if no other document has a first list with further fields. -/
theorem mined_defaults (limits : ScanLimits) (files : Files) (root object : String) :
    let groups := (documentsOn limits files root object).map Document.selections
    let defaults := (scan limits files root).entries.defaults object
    defaults = (groups.flatMap firstOf).eraseDups ∧
      firstOf groups.flatten <+: defaults ∧
      (defaults = firstOf groups.flatten ↔
        ∀ lists ∈ groups, firstOf lists ⊆ firstOf groups.flatten) := by
  intro groups defaults
  have hlearned : ∀ document : Document, document.learned.defaults = firstOf document.selections :=
    Document.defaults_learned
  have hdefaults : defaults = (groups.flatMap firstOf).eraseDups := by
    have hfound := Capabilities.defaults_of_present? (get?_entries_scan limits files root object)
      (coherent_joined_learned _)
    rw [Entry.defaults_joined, List.flatMap_map] at hfound
    simp only [hlearned] at hfound
    rw [List.flatMap_map]
    exact hfound
  have hnodup : (firstOf groups.flatten).Nodup := by
    refine nodup_firstOf fun names hnames => ?_
    obtain ⟨lists, hlists, hmem⟩ := List.mem_flatten.1 hnames
    obtain ⟨document, -, rfl⟩ := List.mem_map.1 hlists
    exact document.nodup_of_mem_selections hmem
  obtain ⟨more, hmore⟩ := exists_flatMap_firstOf groups
  refine ⟨hdefaults, ?_, ?_⟩
  · rw [hdefaults, hmore, List.eraseDups_append, eraseDups_of_nodup hnodup]
    exact List.prefix_append _ _
  · have hsubset : more ⊆ firstOf groups.flatten ↔
        groups.flatMap firstOf ⊆ firstOf groups.flatten := by
      rw [hmore, List.append_subset, and_iff_right (List.Subset.refl _)]
    rw [hdefaults, hmore, eraseDups_append_eq_iff hnodup, hsubset]
    exact ⟨fun h lists hlists name hname => h (List.mem_flatMap.2 ⟨lists, hlists, hname⟩),
      fun h name hname => by
        obtain ⟨lists, hlists, hname⟩ := List.mem_flatMap.1 hname
        exact h lists hlists hname⟩

/-- Two exports of widgets, with a select list each. -/
def widgetExports : Files := folder "docs"
  [("Widget_1", .directory [("list.md", .file (Text.writeUtf8 "SELECT Id FROM Widget"))]),
    ("Widget_2", .directory [("list.md", .file (Text.writeUtf8 "SELECT Name FROM Widget"))])]

/-- The list of the second export is appended to that of the first one. -/
theorem secondExport_appended :
    firstOf ((documentsOn {} widgetExports "docs" "Widget").map Document.selections).flatten =
        ["Id"] ∧
      (scan {} widgetExports "docs").entries.defaults "Widget" = ["Id", "Name"] := by
  decide +kernel

end QueryGate
