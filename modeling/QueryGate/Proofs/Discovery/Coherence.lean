import QueryGate.Capability.Standard
import QueryGate.Proofs.Capability.Seeds
import QueryGate.Proofs.Discovery.Conditions
import QueryGate.Proofs.Discovery.Hygiene

/-!
# Coherent entries

An entry is *coherent* if default fields and fields with operators are among its fields, no
default field stands twice and no set of operators is empty. Every extractor finds coherent
entries, and merging keeps them so; hence a scan finds nothing else, and as it passes over
what says nothing, every object it finds has a field (`Scan.IsCoherent`).

The default fields of a view are those of one of its sources, and so all of them may be
selected. A request that names no fields selects them all, or fails where there are none
(`mined_coherent`).
-/

namespace QueryGate

/-! ## Entries -/

/-- Whatever an entry says of a field, the field may be selected. -/
structure Entry.Coherent (e : Entry) : Prop where
  /-- The default fields are among the fields. -/
  defaults : ∀ field ∈ e.defaults, field ∈ e.fields
  /-- No default field stands twice. -/
  nodup_defaults : e.defaults.Nodup
  /-- What has operators is among the fields, and has one at least. -/
  operators : ∀ field ops, e.operators.get? field = some ops → field ∈ e.fields ∧ ∃ op, op ∈ ops

namespace Entry

theorem nodup_foldl_appendNew {names : List String} (h : names.Nodup) (more : List String) :
    (more.foldl appendNew names).Nodup := by
  refine List.foldlRecOn (motive := List.Nodup) more appendNew h fun names h name _ => ?_
  rw [appendNew]
  split_ifs with hmem
  · exact h
  · exact List.nodup_append.2 ⟨h, List.nodup_singleton _, by
      rintro a ha b hb rfl
      exact hmem (List.mem_singleton.1 hb ▸ ha)⟩

theorem defaults_addFields (e : Entry) (fields : List String) :
    (e.addFields fields).defaults = e.defaults :=
  List.foldlRecOn (motive := fun e' : Entry => e'.defaults = e.defaults) _ _ rfl fun _ h _ _ => h

namespace Coherent

variable {e other : Entry}

theorem empty : Entry.empty.Coherent where
  defaults _ h := by cases h
  nodup_defaults := List.nodup_nil
  operators _ _ h := by cases h

theorem addFields (h : e.Coherent) (fields : List String) : (e.addFields fields).Coherent where
  defaults field hfield := by
    rw [defaults_addFields] at hfield
    exact mem_addFields.2 (.inl (h.defaults field hfield))
  nodup_defaults := by
    rw [defaults_addFields]
    exact h.nodup_defaults
  operators field ops hops := by
    rw [operators_addFields] at hops
    obtain ⟨hfield, hop⟩ := h.operators field ops hops
    exact ⟨mem_addFields.2 (.inl hfield), hop⟩

theorem addField (h : e.Coherent) (field : String) : (e.addField field).Coherent :=
  h.addFields [field]

/-- Default fields may be set to what is added to the fields as well. -/
theorem withDefaults (h : e.Coherent) {fields : List String} (hfields : fields.Nodup) :
    ((e.withDefaults fields).addFields fields).Coherent where
  defaults field hfield := by
    rw [defaults_addFields] at hfield
    exact mem_addFields.2 (.inr hfield)
  nodup_defaults := by
    rw [defaults_addFields]
    exact hfields
  operators := by
    intro field ops hops
    rw [operators_addFields] at hops
    obtain ⟨hfield, hop⟩ := h.operators field ops hops
    exact ⟨mem_addFields.2 (.inl hfield), hop⟩

theorem addOperator (h : e.Coherent) (field : String) (op : Operator) :
    (e.addOperator field op).Coherent where
  defaults name hname := SortedSet.mem_insert.2 (.inr (h.defaults name hname))
  nodup_defaults := h.nodup_defaults
  operators name ops hops := by
    rw [Entry.addOperator, SortedMap.get?_alter] at hops
    split_ifs at hops with hname
    · cases hops
      exact ⟨SortedSet.mem_insert.2 (.inl hname), op, SortedSet.mem_insert.2 (.inl rfl)⟩
    · obtain ⟨hmem, hop⟩ := h.operators name ops hops
      exact ⟨SortedSet.mem_insert.2 (.inr hmem), hop⟩

theorem merge (h : e.Coherent) (hother : other.Coherent) : (e.merge other).Coherent where
  defaults field hfield := by
    refine mem_merge_fields.2 ((mem_merge_defaults.1 hfield).imp ?_ ?_)
    · exact h.defaults field
    · exact hother.defaults field
  nodup_defaults := nodup_foldl_appendNew h.nodup_defaults other.defaults
  operators field ops hops := by
    rw [get?_merge_operators] at hops
    cases hmore : other.operators.get? field with
    | none =>
      rw [hmore] at hops
      obtain ⟨hfield, hop⟩ := h.operators field ops hops
      exact ⟨mem_merge_fields.2 (.inl hfield), hop⟩
    | some more =>
      rw [hmore] at hops
      cases hops
      obtain ⟨hfield, op, hop⟩ := hother.operators field more hmore
      exact ⟨mem_merge_fields.2 (.inr hfield), op, SortedSet.mem_union.2 (.inr hop)⟩

/-- A coherent entry has a field, or says nothing at all. -/
theorem eq_empty_or_exists_field (h : e.Coherent) : e = .empty ∨ ∃ field, field ∈ e.fields := by
  obtain ⟨⟨fields, hfields⟩, defaults, ⟨operators, hoperators⟩⟩ := e
  cases fields with
  | cons field fields => exact .inr ⟨field, List.mem_cons_self⟩
  | nil =>
    have hdefaults : defaults = [] :=
      List.eq_nil_iff_forall_not_mem.2 fun field hfield => by cases h.defaults field hfield
    have hnone : operators = [] := List.eq_nil_iff_forall_not_mem.2 fun (field, ops) hmem => by
      cases (h.operators field ops (SortedMap.get?_eq_some_iff.2 hmem)).1
    subst hdefaults hnone
    exact .inl rfl

end Coherent

end Entry

/-! ## Documents -/

section Documents

variable {f : Findings}

theorem Fragment.nodup_fields (fragment : Fragment) : fragment.fields.Nodup :=
  (nodup_eraseDups _).map fun _ _ => String.ofList_injective

namespace Findings

theorem addSelectLists_coherent (h : f.entry.Coherent) (document : Document) :
    (f.addSelectLists document).entry.Coherent := by
  refine List.foldlRecOn (motive := fun f : Findings => f.entry.Coherent) _ _ h
    fun f h fragment _ => ?_
  dsimp only [addFragment]
  split_ifs
  · exact h
  · exact h
  · exact h.withDefaults fragment.nodup_fields
  · exact h.addFields fragment.fields

theorem addConditions_coherent (h : f.entry.Coherent) (document : Document) :
    (f.addConditions document).entry.Coherent := by
  rw [addConditions_entry]
  exact List.foldlRecOn (motive := Entry.Coherent) _ _ h
    fun _ h usage _ => h.addOperator usage.1 usage.2

end Findings

theorem Payload.extract_coherent (document : Document) : (extract document).entry.Coherent := by
  have hclosed : Harvest.Closed fun h => h.findings.entry.Coherent :=
    { field := fun _ field _ h => h.addField field
      operator := fun _ field op _ h => h.addOperator field op
      report := fun _ _ h => h }
  have hharvest := hclosed.harvest Entry.Coherent.empty document
  dsimp only [Payload.extract]
  split_ifs
  · exact hharvest
  · exact Findings.addConditions_coherent (Findings.addSelectLists_coherent hharvest document)
      document

/-- What an extractor finds is coherent. -/
theorem Extractor.extract_coherent (x : Extractor) (document : Document) :
    (x.extract document).entry.Coherent := by
  cases x with
  | tabular => exact Findings.addSelectLists_coherent .empty document
  | payload => exact Payload.extract_coherent document
  | narrative => exact Entry.Coherent.empty.addFields _
  | whereOperators => exact Findings.addConditions_coherent .empty document

theorem Document.findings_coherent (document : Document) : document.findings.entry.Coherent :=
  List.foldlRecOn (motive := fun f : Findings => f.entry.Coherent) _ _ Entry.Coherent.empty
    fun _ h x _ => h.merge (x.extract_coherent document)

end Documents

/-! ## Scans -/

/-- What was found of each object is coherent, and has a field. -/
def Capabilities.Coherent (c : Capabilities) : Prop :=
  ∀ object e, c.get? object = some e → e.Coherent ∧ ∃ field, field ∈ e.fields

section Scans

variable {limits : ScanLimits} {root : String}

theorem scanFile_coherent {object directory : String} {state : Findings × ScanReport}
    (h : state.1.entry.Coherent) (file : String × Node) :
    (scanFile limits object directory state file).1.entry.Coherent := by
  rw [scanFile]
  split
  · split
    · exact h.merge (Document.findings_coherent _)
    · exact h
  · exact h

theorem scanDirectory_coherent {s : Scan} (h : s.entries.Coherent)
    (directory : String × List (String × Node)) :
    (scanDirectory limits root s directory).entries.Coherent := by
  dsimp only [scanDirectory]
  split
  · exact h
  · next object _ =>
    set state := List.foldl _ _ _ with hstate
    have hfound : state.1.entry.Coherent :=
      List.foldlRecOn (motive := fun state : Findings × ScanReport => state.1.entry.Coherent) _ _
        Entry.Coherent.empty fun _ h file _ => scanFile_coherent h file
    intro other e he
    dsimp only at he
    split_ifs at he with hempty
    · exact h other e he
    · rw [Capabilities.mergeEntry, SortedMap.get?_alter] at he
      split_ifs at he with hobject
      · subst hobject
        cases he
        have hold : ((s.entries.get? other).getD .empty).Coherent := by
          cases hget : s.entries.get? other with
          | none => exact Entry.Coherent.empty
          | some old => exact (h other old hget).1
        refine ⟨hold.merge hfound, ?_⟩
        -- what says something has a field
        rcases hfound.eq_empty_or_exists_field with hnone | ⟨field, hfield⟩
        · exact absurd (by rw [Findings.isEmpty, hnone]; rfl) hempty
        · exact ⟨field, Entry.mem_merge_fields.2 (.inr hfield)⟩
      · exact h other e he

/-- A scan finds coherent entries with fields, whatever it scans. -/
theorem scan_coherent (limits : ScanLimits) (files : Files) (root : String) :
    (scan limits files root).entries.Coherent := by
  rw [scan]
  split
  · exact List.foldlRecOn (motive := fun s : Scan => s.entries.Coherent) _ _
      (fun _ _ h => by cases h) fun _ h directory _ => scanDirectory_coherent h directory
  · exact fun _ _ h => by cases h

end Scans

/-! ## Default fields -/

/-- The default fields of every object are among its fields. -/
def Capabilities.ListsDefaults (c : Capabilities) : Prop :=
  ∀ object, ∀ field ∈ c.defaults object, field ∈ c.fields object

namespace Capabilities

variable {c : Capabilities}

theorem listsDefaults_iff : c.ListsDefaults ↔
    ∀ object e, c.get? object = some e → ∀ field ∈ e.defaults, field ∈ e.fields := by
  refine forall_congr' fun object => ?_
  rw [defaults, fields]
  cases c.get? object <;> simp

theorem Coherent.listsDefaults (h : c.Coherent) : c.ListsDefaults :=
  listsDefaults_iff.2 fun object e he => (h object e he).1.defaults

/-- A seed lists its default fields among the fields. -/
theorem listsDefaults_of_ofText {text : String} (h : Seed.ofText text = .ok c) :
    c.ListsDefaults := by
  refine listsDefaults_iff.2 fun object e he field hfield => ?_
  obtain ⟨-, s, hproper, hheld⟩ := (Seed.sayable_of_ofText h).sayable object e he
  rw [hheld.defaults] at hfield
  refine (hheld.fields field).2 ?_
  cases hdefaults : s.defaults with
  | none => simp [hdefaults] at hfield
  | some names =>
    exact hproper.defaults_listed names hdefaults field (by simpa [hdefaults] using hfield)

theorem standard_listsDefaults : Standard.capabilities.ListsDefaults := by
  have hall : ∀ entry ∈ Standard.capabilities.entries, ∀ field ∈ entry.2.defaults,
      field ∈ entry.2.fields := by decide +kernel
  exact listsDefaults_iff.2 fun object e he => hall (object, e) (SortedMap.get?_eq_some_iff.1 he)

end Capabilities

section Views

variable {view : View} {options : CompileOptions} {request : Request} {object : String}

theorem View.defaults_eq_nil_iff : view.defaults object = [] ↔
    view.registry.defaults object = [] ∧ view.discovered.defaults object = [] := by
  dsimp only [View.defaults]
  split_ifs with h
  · exact (and_iff_right (List.isEmpty_iff.1 h)).symm
  · have hne : view.registry.defaults object ≠ [] := fun hnil => h (List.isEmpty_iff.2 hnil)
    exact iff_of_false hne fun hnil => hne hnil.1

/-- The default fields of a view may be selected, if its sources list theirs. -/
theorem View.mem_fields_of_mem_defaults (hregistry : view.registry.ListsDefaults)
    (hfound : view.discovered.ListsDefaults) {field : String}
    (h : field ∈ view.defaults object) : field ∈ view.fields object := by
  dsimp only [View.defaults] at h
  refine SortedSet.mem_union.2 ?_
  split_ifs at h
  · exact .inr (hfound object field h)
  · exact .inl (hregistry object field h)

/-- What becomes of a request that names no fields, if the sources list their default fields. -/
theorem compile_defaults (hregistry : view.registry.ListsDefaults)
    (hfound : view.discovered.ListsDefaults) (hfields : request.normalize.fields = [])
    (hknown : ¬Unknown view request) :
    (view.defaults request.normalize.object = [] ∧
      compile view { options with strict := false } request =
        .error (.noAllowedFields request.normalize.object [])) ∨
    (view.defaults request.normalize.object ≠ [] ∧ ∃ c refused unsorted,
      compile view { options with strict := false } request = .ok c ∧
      Accounts view options request c refused unsorted ∧
      c.query.fields = (view.defaults request.normalize.object).eraseDups ∧
      c.dropped = refused ++ unsorted) := by
  have hrequested : requestedFields view request.normalize =
      view.defaults request.normalize.object := by
    rw [requestedFields, hfields]
    rfl
  -- default fields are among those that are listed, so that none of them is dropped
  have hallowed : ∀ field ∈ view.defaults request.normalize.object,
      field ∈ view.fields request.normalize.object :=
    fun _ => View.mem_fields_of_mem_defaults hregistry hfound
  by_cases hnil : view.defaults request.normalize.object = []
  · have hfruitless : Fruitless view request := by
      intro field hfield
      rw [hrequested, hnil] at hfield
      cases hfield
    refine .inl ⟨hnil, ?_⟩
    rw [compile_fruitless hknown hfruitless, hrequested, hnil]
  · have hfruitful : ¬Fruitless view request := fun hfruitless => by
      obtain ⟨field, hfield⟩ := List.exists_mem_of_ne_nil _ hnil
      exact hfruitless field (hrequested ▸ hfield) (hallowed field hfield)
    obtain ⟨conditions, order, haccount, hcompile, -⟩ :=
      exists_assemble options hknown hfruitful
    refine .inr ⟨hnil, _, _, _, hcompile, haccount, ?_, ?_⟩
    · rw [haccount.fields, hrequested]
      exact congrArg List.eraseDups (List.filter_eq_self.2 fun field hfield =>
        decide_eq_true (hallowed field hfield))
    · have hnone : (view.defaults request.normalize.object).filter
          (· ∉ view.fields request.normalize.object) = [] :=
        List.filter_eq_nil_iff.2 fun field hfield => by simp [hallowed field hfield]
      rw [haccount.dropped, hrequested]
      change (List.map _ ((view.defaults request.normalize.object).filter
        (· ∉ view.fields request.normalize.object))) ++ _ ++ _ = _
      rw [hnone]
      rfl

/-- Every extractor finds coherent entries, merging keeps them so, and a scan finds coherent
    entries with fields. So on the snapshot of a scan, with the standard capabilities or those of
    an accepted seed, a lenient compilation of a request that names no fields fails where neither
    source has default fields for the object, and else selects all that the view has. -/
theorem mined_coherent :
    (∀ (x : Extractor) (document : Document), (x.extract document).entry.Coherent ∧
      ((x.extract document).entry = .empty ∨
        ∃ field, field ∈ (x.extract document).entry.fields)) ∧
    (∀ e other : Entry, e.Coherent → other.Coherent → (e.merge other).Coherent) ∧
    (∀ limits files root, (scan limits files root).entries.Coherent) ∧
    ∀ (registry : Capabilities) (store : Store) (files : Files) (root : String)
      (options : CompileOptions) (request : Request) (view : View),
      (registry = Standard.capabilities ∨ ∃ text, Seed.ofText text = .ok registry) →
      view = { registry, snapshot := (store.rescan files root).current } →
      request.normalize.fields = [] → view.knows request.normalize.object = true →
      (∀ e, compile view { options with strict := false } request = .error e ↔
        (registry.defaults request.normalize.object = [] ∧
          view.discovered.defaults request.normalize.object = []) ∧
        e = .noAllowedFields request.normalize.object []) ∧
      ((registry.defaults request.normalize.object ≠ [] ∨
          view.discovered.defaults request.normalize.object ≠ []) →
        ∃ c refused unsorted, compile view { options with strict := false } request = .ok c ∧
          Accounts view options request c refused unsorted ∧
          c.query.fields = (view.defaults request.normalize.object).eraseDups ∧
          c.dropped = refused ++ unsorted) := by
  refine ⟨fun x document => ⟨x.extract_coherent document,
      (x.extract_coherent document).eq_empty_or_exists_field⟩,
    fun _ _ h hother => h.merge hother, scan_coherent, ?_⟩
  rintro registry store files root options request view hregistry rfl hfields hknows
  set view : View := { registry, snapshot := (store.rescan files root).current }
  have hlists : view.registry.ListsDefaults := by
    change registry.ListsDefaults
    rcases hregistry with rfl | ⟨text, htext⟩
    · exact Capabilities.standard_listsDefaults
    · exact Capabilities.listsDefaults_of_ofText htext
  have hmined : view.discovered.ListsDefaults :=
    (scan_coherent store.limits files root).listsDefaults
  have hknown : ¬Unknown view request := fun hunknown => by
    rw [knows_eq_false_iff.2 hunknown] at hknows
    cases hknows
  have hnil : view.defaults request.normalize.object = [] ↔ _ := View.defaults_eq_nil_iff
  -- the view has no default fields where neither source has any
  rcases compile_defaults hlists hmined hfields hknown with
    ⟨hempty, hcompile⟩ | ⟨hne, c, refused, unsorted, hcompile, haccount, hselects, hdropped⟩
  · have hboth := hnil.1 hempty
    rw [hcompile]
    refine ⟨fun e => ?_, ?_⟩
    · rw [Except.error.injEq, and_iff_right hboth, eq_comm]
    · rintro (h | h)
      · exact absurd hboth.1 h
      · exact absurd hboth.2 h
  · have hnot := fun h => hne (hnil.2 h)
    refine ⟨fun e => ?_, fun _ => ⟨c, refused, unsorted, hcompile, haccount, hselects, hdropped⟩⟩
    rw [hcompile]
    exact iff_of_false (by rintro ⟨⟩) fun h => hnot h.1

/-- Files with a list view of an object that is not in the standard table. -/
def Files.widgetViews : Files := fun path =>
  if path = "docs" then
    .ok (.directory [("Widget_2024", .directory [("list_views.md",
      .file (Text.writeUtf8 "SELECT Id, Name, Id FROM Widget WHERE Size > 1\n"))])])
  else .error .notFound

/-- The object is known for its list view, whose fields are selected where a request names none. -/
theorem widget_selected :
    ∃ view : View,
      view = ⟨Standard.capabilities, (({} : Store).rescan .widgetViews "docs").current⟩ ∧
      view.knows "Widget" = true ∧ view.registry.defaults "Widget" = [] ∧
      view.discovered.defaults "Widget" = ["Id", "Name"] ∧
      ∃ c refused unsorted,
        compile view { strict := false } { object := " Widget " } = .ok c ∧
        Accounts view {} { object := " Widget " } c refused unsorted ∧
        c.query.fields = (view.defaults "Widget").eraseDups ∧ c.dropped = refused ++ unsorted := by
  have hknows : (View.mk Standard.capabilities
      (({} : Store).rescan .widgetViews "docs").current).knows "Widget" = true := by decide +kernel
  have hdefaults : (View.mk Standard.capabilities
      (({} : Store).rescan .widgetViews "docs").current).discovered.defaults "Widget" =
        ["Id", "Name"] := by decide +kernel
  have hne : ["Id", "Name"] ≠ [] := by decide
  refine ⟨_, rfl, hknows, by decide +kernel, hdefaults, ?_⟩
  exact (mined_coherent.2.2.2 Standard.capabilities {} .widgetViews "docs" {}
    { object := " Widget " } _ (.inl rfl) rfl rfl hknows).2 (.inr (hdefaults ▸ hne))

end Views

end QueryGate
