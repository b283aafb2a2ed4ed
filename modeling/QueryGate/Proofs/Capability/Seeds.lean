import Mathlib.Data.Set.List
import QueryGate.Capability.Seed
import QueryGate.Proofs.Json.Canonical
import QueryGate.Proofs.Json.Printing

/-!
# Seeds that are accepted

What an entry of a seed may say is a `Sheet`: a list of fields, perhaps one of default
fields, and perhaps lists of operators. A sheet is *proper* if it has a field, the fields
are named by the grammar and everything else that is named is one of them. A seed is
*well formed* if it writes a proper sheet for each of its objects (`IsSeed`).

* `accepts_exactly`: the two rounds of the check together accept the well-formed seeds
  and no others; the capabilities they yield hold what the sheets say, and are read back
  from their own text.

The two rounds look at different things. The first one fixes the shape of an entry up to
the names in it (`entryFaults_eq_nil_iff`), after which the second one reads the lists
that the shape put there (`entryNameFault?_eq_none_iff`).
-/

namespace QueryGate

namespace Json

theorem strings?_ofStrings (names : List String) : (ofStrings names).strings? = some names := by
  change (names.map Json.string).mapM Json.string? = _
  have h := mapM_map_eq_some (l := names) (f := Json.string) (g := Json.string?) (h := id)
    fun _ _ => rfl
  rwa [List.map_id] at h

theorem canonical_ofStrings (names : List String) :
    (ofStrings names).canonical = ofStrings names := by
  rw [ofStrings, canonical, canonicalItems_eq, List.map_map]
  rfl

end Json

namespace Seed

/-! ## Sheets -/

/-- What is written of an object: the list of its fields, perhaps one of default fields, and
    perhaps lists of operators for some fields. -/
structure Sheet where
  /-- The fields. -/
  fields : List String
  /-- The default fields, if they are said. -/
  defaults : Option (List String)
  /-- The operators of some fields, if they are said. -/
  operators : Option (List (String × List Operator))

/-- Lists of operators by field. -/
def operatorLists (lists : List (String × List Operator)) : Json :=
  .object (lists.map fun (field, ops) => (field, .ofStrings (ops.map Operator.spelling)))

namespace Sheet

/-- The members of an object say what is on the sheet, in any order, and nothing else. -/
structure WrittenAs (s : Sheet) (members : List (String × Json)) : Prop where
  keys : ∀ member ∈ members, member.1 ∈ entryKeys
  fields : members.lookup "fields" = some (.ofStrings s.fields)
  defaults : members.lookup "defaultFields" = s.defaults.map .ofStrings
  operators : members.lookup "operators" = s.operators.map operatorLists

/-- There is a field, fields are named by the grammar, and whatever else is named is a field. -/
structure IsProper (s : Sheet) : Prop where
  fields_ne_nil : s.fields ≠ []
  isField : ∀ field ∈ s.fields, Name.isField field = true
  defaults_listed : ∀ names ∈ s.defaults, ∀ field ∈ names, field ∈ s.fields
  operators_listed : ∀ lists ∈ s.operators, ∀ member ∈ lists, member.1 ∈ s.fields

/-- An entry has the fields, the default fields and the operators of a sheet, and no others. -/
structure HeldBy (s : Sheet) (e : Entry) : Prop where
  fields : ∀ field, field ∈ e.fields ↔ field ∈ s.fields
  defaults : e.defaults = s.defaults.getD []
  operators : ∀ field, e.operators.get? field = ((s.operators.getD []).lookup field).map .ofList

/-- The entry that a sheet stands for. -/
def entry (s : Sheet) : Entry where
  fields := .ofList s.fields
  defaults := s.defaults.getD []
  operators := .ofList ((s.operators.getD []).map fun (field, ops) => (field, .ofList ops))

end Sheet

/-- A seed says something of one object at least; each is named by the grammar and has a proper
    sheet. -/
def IsSeed (seed : Json) : Prop :=
  ∃ members, seed = .object members ∧ members ≠ [] ∧ ∀ member ∈ members,
    Name.isObject member.1 = true ∧
      ∃ (sheet : Sheet) (parts : List (String × Json)),
        member.2 = .object parts ∧ sheet.WrittenAs parts ∧ sheet.IsProper

/-- Capabilities hold what a seed says of its objects, and nothing of any other. -/
def Describes (c : Capabilities) (seed : Json) : Prop :=
  ∃ members, seed = .object members ∧
    (∀ object, c.contains object = true ↔ object ∈ members.map (·.1)) ∧
    ∀ object parts, (object, .object parts) ∈ members → ∀ sheet : Sheet, sheet.WrittenAs parts →
      ∃ e, c.get? object = some e ∧ sheet.HeldBy e

/-! ## Shape -/

section Shape

variable {value : Json}

theorem listFaults_eq_nil_iff {itemFaults : Json → List ShapeFault} :
    listFaults itemFaults value = [] ↔
      ∃ items, value = .array items ∧ ∀ item ∈ items, itemFaults item = [] := by
  cases value <;> simp [listFaults]

theorem operatorFaults_eq_nil_iff :
    operatorFaults value = [] ↔ ∃ op : Operator, .string op.spelling = value := by
  have hall : ∀ op : Operator, op ∈ Operator.all := by
    intro op
    cases op <;> decide
  cases value <;> simp [operatorFaults, hall]

theorem exists_map_eq {α β : Type} {f : α → β} {items : List β}
    (h : ∀ item ∈ items, ∃ a, f a = item) : ∃ l : List α, l.map f = items := by
  have hmem : items ∈ Set.range (List.map f) := by
    rw [Set.range_list_map]
    exact h
  exact hmem

/-- A list of fields is a list of strings that are not empty. -/
theorem listFaults_fieldFaults_eq_nil_iff : listFaults fieldFaults value = [] ↔
    ∃ names, value = .ofStrings names ∧ "" ∉ names := by
  rw [listFaults_eq_nil_iff]
  constructor
  · rintro ⟨items, rfl, hitems⟩
    obtain ⟨names, rfl⟩ := exists_map_eq (f := Json.string) fun item hitem => by
      have hitem := hitems item hitem
      cases item with
      | string s => exact ⟨s, rfl⟩
      | _ => cases hitem
    refine ⟨names, rfl, fun hempty => ?_⟩
    have hfault := hitems _ (List.mem_map_of_mem hempty)
    cases hfault
  · rintro ⟨names, rfl, hempty⟩
    refine ⟨_, rfl, fun item hitem => ?_⟩
    obtain ⟨name, hname, rfl⟩ := List.mem_map.1 hitem
    have hne : name ≠ "" := fun h => hempty (h ▸ hname)
    simp [fieldFaults, hne]

theorem fieldsFaults_eq_nil_iff : fieldsFaults value = [] ↔
    ∃ names, value = .ofStrings names ∧ "" ∉ names ∧ names ≠ [] := by
  by_cases hvalue : value = .array []
  · subst hvalue
    refine iff_of_false (fun h => by cases h) ?_
    rintro ⟨names, h, -, hne⟩
    rw [Json.ofStrings, Json.array.injEq] at h
    exact hne (List.map_eq_nil_iff.1 h.symm)
  · have hlist : fieldsFaults value = listFaults fieldFaults value := by
      unfold fieldsFaults
      split
      · exact absurd rfl hvalue
      · rfl
    rw [hlist, listFaults_fieldFaults_eq_nil_iff]
    refine exists_congr fun names => and_congr_right fun h => (and_iff_left ?_).symm
    rintro rfl
    exact hvalue h

theorem listFaults_operatorFaults_eq_nil_iff : listFaults operatorFaults value = [] ↔
    ∃ ops : List Operator, .ofStrings (ops.map Operator.spelling) = value := by
  simp only [listFaults_eq_nil_iff, operatorFaults_eq_nil_iff]
  constructor
  · rintro ⟨items, rfl, hitems⟩
    obtain ⟨ops, rfl⟩ := exists_map_eq hitems
    exact ⟨ops, by rw [Json.ofStrings, List.map_map]; rfl⟩
  · rintro ⟨ops, rfl⟩
    refine ⟨_, rfl, fun item hitem => ?_⟩
    rw [List.map_map] at hitem
    obtain ⟨op, -, rfl⟩ := List.mem_map.1 hitem
    exact ⟨op, rfl⟩

theorem operatorMapFaults_eq_nil_iff : operatorMapFaults value = [] ↔
    ∃ lists, value = operatorLists lists := by
  cases value with
  | object members =>
    simp only [operatorMapFaults, List.flatMap_eq_nil_iff, Prod.forall,
      listFaults_operatorFaults_eq_nil_iff]
    constructor
    · intro h
      have hform : ∀ member ∈ members, ∃ p : String × List Operator,
          (p.1, Json.ofStrings (p.2.map Operator.spelling)) = member := by
        rintro ⟨field, value⟩ hmember
        obtain ⟨ops, rfl⟩ := h field value hmember
        exact ⟨(field, ops), rfl⟩
      obtain ⟨lists, rfl⟩ := exists_map_eq hform
      exact ⟨lists, rfl⟩
    · rintro ⟨lists, hlists⟩ field value hmember
      rw [operatorLists, Json.object.injEq] at hlists
      subst hlists
      obtain ⟨⟨_, ops⟩, -, hpair⟩ := List.mem_map.1 hmember
      cases hpair
      exact ⟨ops, rfl⟩
  | _ => simp [operatorMapFaults, operatorLists]

section Parts

variable {parts : List (String × Json)} (hparts : Ascending parts)

include hparts

/-- What stands at a key that an entry may lack, if all that may stand there has one form. -/
theorem exists_lookup_eq_map {α : Type} {f : α → Json} {P : α → Prop} {key : String}
    (h : ∀ value, (key, value) ∈ parts → ∃ a, value = f a ∧ P a) :
    ∃ a? : Option α, parts.lookup key = a?.map f ∧ ∀ a ∈ a?, P a := by
  cases hkey : parts.lookup key with
  | none => exact ⟨none, rfl, by rintro _ ⟨⟩⟩
  | some value =>
    obtain ⟨a, rfl, ha⟩ := h value (hparts.lookup_eq_some_iff.1 hkey)
    refine ⟨some a, rfl, ?_⟩
    rintro _ ⟨⟩
    exact ha

/-- What stands at a key has one form, if what is found there has. -/
theorem exists_of_lookup_eq_map {α : Type} {f : α → Json} {key : String} {value : Json}
    {a? : Option α} (h : parts.lookup key = a?.map f) (hvalue : (key, value) ∈ parts) :
    ∃ a ∈ a?, value = f a := by
  rw [hparts.lookup_eq_some_iff.2 hvalue] at h
  obtain ⟨a, rfl, ha⟩ := Option.map_eq_some_iff.1 h.symm
  exact ⟨a, rfl, ha.symm⟩

/-- The first round fixes the shape of an entry, up to its names. -/
theorem entryFaults_eq_nil_iff : entryFaults (.object parts) = [] ↔
    ∃ s : Sheet, s.WrittenAs parts ∧ s.fields ≠ [] ∧ "" ∉ s.fields ∧
      ∀ names ∈ s.defaults, "" ∉ names := by
  have hfaults : entryFaults (.object parts) = [] ↔
      (∀ key value, (key, value) ∈ parts → memberFaults key value = []) ∧
        (∀ member ∈ parts, member.1 ∈ entryKeys) ∧ "fields" ∈ parts.map (·.1) := by
    simp only [entryFaults, List.append_eq_nil_iff, List.flatMap_eq_nil_iff, Prod.forall, and_assoc]
    refine and_congr_right' (and_congr ?_ ?_)
    · simp [List.isEmpty_iff, List.filter_eq_nil_iff]
    · simp
  rw [hfaults]
  constructor
  · rintro ⟨hmembers, hkeys, hfields⟩
    obtain ⟨⟨_, value⟩, hvalue, rfl⟩ := List.mem_map.1 hfields
    obtain ⟨fields, rfl, hempty, hne⟩ := fieldsFaults_eq_nil_iff.1 (hmembers _ _ hvalue)
    obtain ⟨defaults, hdefaults, hnames⟩ := exists_lookup_eq_map hparts fun value hvalue =>
      listFaults_fieldFaults_eq_nil_iff.1 (hmembers "defaultFields" value hvalue)
    obtain ⟨operators, hoperators, -⟩ :=
      exists_lookup_eq_map hparts (f := operatorLists) (P := fun _ => True) fun value hvalue => by
        obtain ⟨lists, hlists⟩ :=
          operatorMapFaults_eq_nil_iff.1 (hmembers "operators" value hvalue)
        exact ⟨lists, hlists, trivial⟩
    exact ⟨⟨fields, defaults, operators⟩,
      ⟨hkeys, hparts.lookup_eq_some_iff.2 hvalue, hdefaults, hoperators⟩, hne, hempty, hnames⟩
  · rintro ⟨s, hs, hne, hempty, hnames⟩
    have hfields := hparts.lookup_eq_some_iff.1 hs.fields
    refine ⟨fun key value hvalue => ?_, hs.keys, List.mem_map_of_mem hfields⟩
    -- a member has one of three keys, and the sheet says what stands under it
    have hkey := hs.keys _ hvalue
    simp only [entryKeys, List.mem_cons, List.not_mem_nil, or_false] at hkey
    rcases hkey with rfl | rfl | rfl
    · have hvalue := hparts.lookup_eq_some_iff.2 hvalue
      rw [hs.fields, Option.some.injEq] at hvalue
      exact fieldsFaults_eq_nil_iff.2 ⟨s.fields, hvalue.symm, hempty, hne⟩
    · obtain ⟨names, hsome, rfl⟩ := exists_of_lookup_eq_map hparts hs.defaults hvalue
      exact listFaults_fieldFaults_eq_nil_iff.2 ⟨names, rfl, hnames names hsome⟩
    · obtain ⟨lists, -, rfl⟩ := exists_of_lookup_eq_map hparts hs.operators hvalue
      exact operatorMapFaults_eq_nil_iff.2 ⟨lists, rfl⟩

end Parts

end Shape

/-! ## Names -/

section Names

variable {s : Sheet} {parts : List (String × Json)}

theorem namesAt_eq {key : String} (names? : Option (List String))
    (h : parts.lookup key = names?.map .ofStrings) :
    namesAt (.object parts) key = names?.getD [] := by
  rw [namesAt, Json.get?, Json.object?, Option.bind_some, h]
  cases names? with
  | none => rfl
  | some names =>
    change (names.map Json.string).filterMap Json.string? = names
    rw [List.filterMap_map]
    exact List.filterMap_some

/-- The second round looks at the lists that the first one found. -/
theorem entryNameFault?_eq_none_iff (hs : s.WrittenAs parts) (object : String) :
    entryNameFault? object (.object parts) = none ↔
      Name.isObject object = true ∧ (∀ field ∈ s.fields, Name.isField field = true) ∧
        (∀ names ∈ s.defaults, ∀ field ∈ names, field ∈ s.fields) ∧
          ∀ lists ∈ s.operators, ∀ member ∈ lists, member.1 ∈ s.fields := by
  have hfields : namesAt (.object parts) "fields" = s.fields :=
    namesAt_eq (some s.fields) hs.fields
  have hdefaults := namesAt_eq s.defaults hs.defaults
  have hkeys : ((((Json.object parts).get? "operators").bind Json.object?).getD []).map (·.1) =
      (s.operators.getD []).map (·.1) := by
    rw [Json.get?, Json.object?, Option.bind_some, hs.operators]
    cases s.operators with
    | none => rfl
    | some lists => simp [operatorLists, Json.object?]
  rw [entryNameFault?, hfields, hdefaults, hkeys]
  simp only [Option.orElse_eq_orElse, Option.orElse_eq_or, Option.or_eq_none_iff,
    List.findSome?_eq_none_iff]
  have hname : ∀ fault : NameFault, ∀ p : Bool,
      (if p then none else some fault) = none ↔ p = true := by
    intro fault p
    cases p <;> simp
  have hlisted : ∀ fault : NameFault, ∀ field,
      (if field ∈ s.fields then none else some fault) = none ↔ field ∈ s.fields := by
    intro fault field
    by_cases h : field ∈ s.fields <;> simp [h]
  simp only [hname, hlisted]
  refine and_congr_right' (and_congr_right fun hfield => and_congr ?_ ?_)
  · cases s.defaults <;> simp
  · -- a key that is among the fields is named by the grammar, as they are
    have hkey : ∀ field, (if (!Name.isField field) = true then
        some (NameFault.operatorKeyName object field)
        else if field ∈ s.fields then none else some (.operatorKeyNotListed object field)) = none ↔
          field ∈ s.fields := by
      intro field
      by_cases h : field ∈ s.fields
      · simp [h, hfield field h]
      · cases Name.isField field <;> simp [h]
    simp only [hkey]
    cases s.operators <;> simp

/-- The two rounds accept an entry together if it writes a proper sheet. -/
theorem entry_accepted_iff (object : String) (value : Json) :
    entryFaults value.canonical = [] ∧ entryNameFault? object value.canonical = none ↔
      Name.isObject object = true ∧ ∃ (sheet : Sheet) (parts : List (String × Json)),
        value.canonical = .object parts ∧ sheet.WrittenAs parts ∧ sheet.IsProper := by
  have hempty : Name.isField "" = false := by decide
  constructor
  · rintro ⟨hshape, hname⟩
    cases hvalue : value.canonical with
    | object parts =>
      rw [hvalue] at hshape hname
      obtain ⟨s, hs, hne, -, -⟩ :=
        (entryFaults_eq_nil_iff (Json.ascending_of_canonical hvalue)).1 hshape
      obtain ⟨hobject, hfield, hdefaults, hoperators⟩ :=
        (entryNameFault?_eq_none_iff hs object).1 hname
      exact ⟨hobject, s, parts, rfl, hs, hne, hfield, hdefaults, hoperators⟩
    | _ => simp [hvalue, entryFaults] at hshape
  · rintro ⟨hobject, s, parts, hvalue, hs, hproper⟩
    have hnonempty : "" ∉ s.fields := fun h => by
      simpa [hempty] using hproper.isField "" h
    rw [hvalue, entryFaults_eq_nil_iff (Json.ascending_of_canonical hvalue),
      entryNameFault?_eq_none_iff hs]
    exact ⟨⟨s, hs, hproper.fields_ne_nil, hnonempty,
        fun names hnames h => hnonempty (hproper.defaults_listed names hnames _ h)⟩,
      hobject, hproper.isField, hproper.defaults_listed, hproper.operators_listed⟩

theorem check_eq_ok_iff (seed : Json) : check seed = .ok () ↔
    ∃ members, seed = .object members ∧ members ≠ [] ∧
      ∀ member ∈ members, entryFaults member.2 = [] ∧ entryNameFault? member.1 member.2 = none := by
  have hcheck : check seed = .ok () ↔ shapeFaults seed = [] ∧ nameFault? seed = none := by
    unfold check
    split
    · next h => cases hname : nameFault? seed <;> simp [h]
    · next h => simpa using fun h' => absurd h' h
  rw [hcheck]
  cases seed with
  | object members =>
    cases members with
    | nil => simp [shapeFaults]
    | cons member members =>
      simp [shapeFaults, nameFault?, Json.object?, forall_and, -Prod.forall]
  | _ => simp [shapeFaults]

/-- The check accepts the well-formed seeds and no others. -/
theorem check_canonical_eq_ok_iff (value : Json) :
    check value.canonical = .ok () ↔ IsSeed value.canonical := by
  rw [check_eq_ok_iff, IsSeed]
  refine exists_congr fun members => and_congr_right fun hvalue => and_congr_right fun _ =>
    forall₂_congr fun member hmember => ?_
  obtain ⟨u, hu⟩ := Json.exists_of_mem_canonical hvalue hmember
  rw [hu]
  exact entry_accepted_iff member.1 u

end Names

/-! ## Reading -/

section Reading

variable {s : Sheet} {parts : List (String × Json)}

theorem parse?_spelling (op : Operator) : Operator.parse? op.spelling = some op := by
  cases op <;> decide

theorem operatorsOfJson?_ofStrings (ops : List Operator) :
    Entry.operatorsOfJson? (.ofStrings (ops.map Operator.spelling)) = some (.ofList ops) := by
  rw [Entry.operatorsOfJson?, Json.strings?_ofStrings, Option.bind_some,
    mapM_map_eq_some (h := id) fun op _ => parse?_spelling op, List.map_id]
  rfl

theorem operatorMapOfJson?_operatorLists (lists : List (String × List Operator)) :
    Entry.operatorMapOfJson? (operatorLists lists) =
      some (.ofList (lists.map fun (field, ops) => (field, .ofList ops))) := by
  rw [Entry.operatorMapOfJson?, operatorLists, Json.object?, Option.bind_some,
    mapM_map_eq_some (h := fun (p : String × List Operator) => (p.1, .ofList p.2)) fun p _ => ?_]
  · rfl
  · rw [operatorsOfJson?_ofStrings]
    rfl

/-- The entry that a sheet is written as stands for the sheet. -/
theorem Sheet.WrittenAs.ofJson? (h : s.WrittenAs parts) :
    Entry.ofJson? (.object parts) = some s.entry := by
  obtain ⟨fields, defaults, operators⟩ := s
  rw [Entry.ofJson?, h.fields, h.defaults, h.operators]
  cases defaults <;> cases operators <;>
    simp [Entry.ofParts?, Json.strings?_ofStrings, operatorMapOfJson?_operatorLists,
      Sheet.entry] <;> rfl

/-- The operators of a sheet, whose fields are all different, are those of its entry. -/
theorem Sheet.heldBy_entry (h : ∀ lists ∈ s.operators, (lists.map (·.1)).Nodup) :
    s.HeldBy s.entry where
  fields _ := SortedSet.mem_ofList
  defaults := rfl
  operators field := by
    have hnodup : ((s.operators.getD []).map (·.1)).Nodup := by
      cases hlists : s.operators with
      | none => exact List.nodup_nil
      | some lists => exact h lists hlists
    rw [Sheet.entry, SortedMap.get?_ofList, lookup_map_entries]
    rw [List.map_map]
    exact hnodup

/-- What a canonical entry writes has different fields at its operators. -/
theorem Sheet.WrittenAs.nodup_operators {value : Json} (h : s.WrittenAs parts)
    (hvalue : value.canonical = .object parts) :
    ∀ lists ∈ s.operators, (lists.map (·.1)).Nodup := by
  intro lists hlists
  have hmem : ("operators", operatorLists lists) ∈ parts :=
    (Json.ascending_of_canonical hvalue).lookup_eq_some_iff.1 (by rw [h.operators, hlists]; rfl)
  obtain ⟨u, hu⟩ := Json.exists_of_mem_canonical hvalue hmem
  have hnodup := (Json.ascending_of_canonical hu.symm).nodup_keys
  rwa [List.map_map] at hnodup

/-- Entries that are read one by one are read together, each for its object. -/
theorem exists_ofJson?_object {members : List (String × Json)} (hmembers : Ascending members)
    (hread : ∀ member ∈ members, ∃ e, Entry.ofJson? member.2 = some e) :
    ∃ c, Capabilities.ofJson? (.object members) = some c ∧
      ∀ object, c.get? object = (members.lookup object).bind Entry.ofJson? := by
  set read : Json → Entry := fun value => (Entry.ofJson? value).getD .empty with hdef
  have hmember : ∀ member ∈ members,
      (Entry.ofJson? member.2).map (fun e => (member.1, e)) = some (member.1, read member.2) := by
    intro member hmem
    obtain ⟨e, he⟩ := hread member hmem
    simp [hdef, he]
  have hmap := mapM_map_eq_some (f := fun member : String × Json => member) hmember
  rw [List.map_id'] at hmap
  refine ⟨.ofList (members.map fun member => (member.1, read member.2)), ?_, fun object => ?_⟩
  · rw [Capabilities.ofJson?, Json.object?, Option.bind_some, hmap]
    rfl
  · rw [SortedMap.get?_ofList, lookup_map_entries]
    · cases hobject : members.lookup object with
      | none => rfl
      | some value =>
        obtain ⟨e, he⟩ := hread _ (hmembers.lookup_eq_some_iff.1 hobject)
        simp [hdef, he]
    · rw [List.map_map]
      exact hmembers.nodup_keys

theorem ofJson_of_check {seed : Json} (h : check seed = .ok ()) :
    ofJson seed = match Capabilities.ofJson? seed with
      | some c => .ok c
      | none => .error .unreadable := by
  rw [ofJson, h]
  rfl

/-- Capabilities as a seed may say them: of objects named by the grammar, one at least, and with
    an entry that a proper sheet stands for. -/
structure Sayable (c : Capabilities) : Prop where
  entries_ne_nil : c.entries ≠ []
  sayable : ∀ object e, c.get? object = some e →
    Name.isObject object = true ∧ ∃ s : Sheet, s.IsProper ∧ s.HeldBy e

/-- A well-formed seed is read as the capabilities it describes. -/
theorem IsSeed.exists_ofJson {value : Json} (h : IsSeed value.canonical) :
    ∃ c, ofJson value.canonical = .ok c ∧ Describes c value.canonical ∧ Sayable c := by
  have hcheck := (check_canonical_eq_ok_iff value).2 h
  obtain ⟨members, hvalue, hne, hmembers⟩ := h
  have hascending := Json.ascending_of_canonical hvalue
  -- each member is read as the entry of its sheet, and found again under its name
  have hread : ∀ member ∈ members, ∃ e, Entry.ofJson? member.2 = some e := by
    intro member hmember
    obtain ⟨-, s, parts, hparts, hs, -⟩ := hmembers member hmember
    exact ⟨s.entry, by rw [hparts, hs.ofJson?]⟩
  obtain ⟨c, hc, hget⟩ := exists_ofJson?_object hascending hread
  have hfound : ∀ {object e}, c.get? object = some e ↔
      ∃ value, (object, value) ∈ members ∧ Entry.ofJson? value = some e := by
    intro object e
    rw [hget, Option.bind_eq_some_iff]
    exact exists_congr fun value => and_congr_left' hascending.lookup_eq_some_iff
  refine ⟨c, ?_, ⟨members, hvalue, fun object => ?_, ?_⟩, ?_, ?_⟩
  · rw [ofJson_of_check hcheck, hvalue, hc]
  · rw [SortedMap.contains, Option.isSome_iff_exists, List.mem_map]
    constructor
    · rintro ⟨e, he⟩
      obtain ⟨value, hmember, -⟩ := hfound.1 he
      exact ⟨_, hmember, rfl⟩
    · rintro ⟨member, hmember, rfl⟩
      obtain ⟨e, he⟩ := hread member hmember
      exact ⟨e, hfound.2 ⟨member.2, hmember, he⟩⟩
  · intro object parts hmember s hs
    obtain ⟨u, hu⟩ := Json.exists_of_mem_canonical hvalue hmember
    exact ⟨s.entry, hfound.2 ⟨_, hmember, hs.ofJson?⟩,
      s.heldBy_entry (hs.nodup_operators hu.symm)⟩
  · intro hnil
    obtain ⟨member, hmember⟩ := List.exists_mem_of_ne_nil members hne
    obtain ⟨e, he⟩ := hread member hmember
    have hmem := SortedMap.get?_eq_some_iff.1 (hfound.2 ⟨member.2, hmember, he⟩)
    simp [hnil] at hmem
  · intro object e he
    obtain ⟨written, hmember, hwritten⟩ := hfound.1 he
    obtain ⟨hobject, s, parts, hparts, hs, hproper⟩ := hmembers _ hmember
    obtain ⟨u, hu⟩ := Json.exists_of_mem_canonical hvalue hmember
    dsimp only at hparts hu
    rw [hparts, hs.ofJson?, Option.some.injEq] at hwritten
    have hheld := s.heldBy_entry (hs.nodup_operators (hu.symm.trans hparts))
    exact ⟨hobject, s, hproper, hwritten ▸ hheld⟩

end Reading

/-! ## Reading what was written -/

section Writing

/-- The sheet that an entry is written from. -/
def sheetOf (e : Entry) : Sheet where
  fields := e.fields.toList
  defaults := some e.defaults
  operators := some (e.operators.entries.map fun (field, ops) => (field, ops.toList))

theorem ofList_toList {α : Type} [Ord α] [Std.TransOrd α] [Std.LawfulEqOrd α] (s : SortedSet α) :
    SortedSet.ofList s.toList = s :=
  SortedSet.ext_mem fun _ => SortedSet.mem_ofList

theorem entry_sheetOf (e : Entry) : (sheetOf e).entry = e := by
  have hops : e.operators.entries.map (fun (field, ops) => (field, SortedSet.ofList ops.toList)) =
      e.operators.entries := by
    simp [ofList_toList]
  rw [Sheet.entry, sheetOf, ofList_toList, Option.getD_some, Option.getD_some, List.map_map]
  exact congrArg (fun ops => { e with operators := ops })
    ((congrArg SortedMap.ofList hops).trans (SortedMap.ofList_entries _))

/-- What a proper sheet stands for is written from a proper sheet. -/
theorem Sheet.IsProper.sheetOf {s : Sheet} {e : Entry} (h : s.IsProper) (he : s.HeldBy e) :
    (sheetOf e).IsProper := by
  refine ⟨fun hnil => ?_, fun field hfield => h.isField field ((he.fields field).1 hfield), ?_, ?_⟩
  · refine h.fields_ne_nil (List.eq_nil_iff_forall_not_mem.2 fun field hfield => ?_)
    have hfield : field ∈ (Seed.sheetOf e).fields := (he.fields field).2 hfield
    rw [hnil] at hfield
    cases hfield
  · rintro _ ⟨⟩ field hfield
    refine (he.fields field).2 ?_
    rw [he.defaults] at hfield
    cases hdefaults : s.defaults with
    | none => simp [hdefaults] at hfield
    | some names =>
      exact h.defaults_listed names hdefaults field (by simpa [hdefaults] using hfield)
  · rintro _ ⟨⟩ _ hlist
    obtain ⟨⟨field, ops⟩, hmember, rfl⟩ := List.mem_map.1 hlist
    refine (he.fields field).2 ?_
    have hget := SortedMap.get?_eq_some_iff.2 hmember
    rw [he.operators] at hget
    obtain ⟨list, hlist, -⟩ := Option.map_eq_some_iff.1 hget
    obtain ⟨before, after, hlists, -⟩ := List.lookup_eq_some_iff.1 hlist
    cases hoperators : s.operators with
    | none => simp [hoperators] at hlists
    | some lists =>
      rw [hoperators, Option.getD_some] at hlists
      exact h.operators_listed lists hoperators (field, list) (by simp [hlists])

theorem canonical_operatorsJson (operators : SortedMap String Operators) :
    (Entry.operatorsJson operators).canonical = Entry.operatorsJson operators := by
  have hascending : Ascending (operators.entries.map fun (field, ops) =>
      (field, Json.ofStrings (ops.toList.map Operator.spelling))) :=
    List.pairwise_map.2 operators.ascending
  rw [Entry.operatorsJson, Json.canonical_object hascending, List.map_map]
  refine congrArg Json.object (List.map_congr_left fun (field, ops) _ => ?_)
  exact congrArg (field, ·) (Json.canonical_ofStrings _)

/-- An entry is written as its sheet says, up to the order of the parts. -/
theorem exists_canonical_toJson (e : Entry) :
    ∃ parts, e.toJson.canonical = .object parts ∧ (sheetOf e).WrittenAs parts := by
  have hcanonical : e.toJson.canonical = .object [("defaultFields", .ofStrings e.defaults),
      ("fields", .ofStrings e.fields.toList), ("operators", Entry.operatorsJson e.operators)] := by
    rw [Entry.toJson, Json.canonical]
    simp only [Json.canonicalMembers, Json.canonical_ofStrings, canonical_operatorsJson]
    rfl
  have hlists : Entry.operatorsJson e.operators = operatorLists
      (e.operators.entries.map fun (field, ops) => (field, ops.toList)) := by
    rw [Entry.operatorsJson, operatorLists, List.map_map]
    rfl
  refine ⟨_, hcanonical, by simp [entryKeys], rfl, rfl, ?_⟩
  rw [hlists]
  rfl

/-- Capabilities are written object by object. -/
theorem canonical_toJson (c : Capabilities) :
    c.toJson.canonical =
      .object (c.entries.map fun (object, e) => (object, e.toJson.canonical)) := by
  have hascending : Ascending (c.entries.map fun (object, e) => (object, e.toJson)) :=
    List.pairwise_map.2 c.ascending
  rw [Capabilities.toJson, Json.canonical_object hascending, List.map_map]
  rfl

/-- What a seed may say is written as a well-formed seed. -/
theorem Sayable.isSeed {c : Capabilities} (h : Sayable c) : IsSeed c.toJson.canonical := by
  rw [canonical_toJson]
  refine ⟨_, rfl, by simpa using h.entries_ne_nil, fun member hmember => ?_⟩
  obtain ⟨⟨object, e⟩, he, rfl⟩ := List.mem_map.1 hmember
  obtain ⟨hobject, s, hproper, hheld⟩ := h.sayable object e (SortedMap.get?_eq_some_iff.2 he)
  obtain ⟨parts, hparts, hwritten⟩ := exists_canonical_toJson e
  exact ⟨hobject, sheetOf e, parts, hparts, hwritten, hproper.sheetOf hheld⟩

/-- What a seed may say is read back from how it is written. -/
theorem Sayable.ofJson_toJson {c : Capabilities} (h : Sayable c) :
    ofJson c.toJson.canonical = .ok c := by
  have hread : ∀ e : Entry, Entry.ofJson? e.toJson.canonical = some e := fun e => by
    obtain ⟨parts, hparts, hwritten⟩ := exists_canonical_toJson e
    rw [hparts, hwritten.ofJson?, entry_sheetOf]
  have hascending : Ascending (c.entries.map fun (object, e) => (object, e.toJson.canonical)) :=
    List.pairwise_map.2 c.ascending
  obtain ⟨d, hd, hget⟩ := exists_ofJson?_object hascending fun member hmember => by
    obtain ⟨⟨object, e⟩, -, rfl⟩ := List.mem_map.1 hmember
    exact ⟨e, hread e⟩
  have hsame : d = c := SortedMap.ext_get? fun object => by
    rw [hget, lookup_map_entries (fun e : Entry => e.toJson.canonical), SortedMap.get?]
    cases c.entries.lookup object with
    | none => rfl
    | some e => exact hread e
  rw [ofJson_of_check ((check_canonical_eq_ok_iff _).2 h.isSeed), canonical_toJson, hd, hsame]

end Writing

/-! ## The text of what was written -/

section Text

open Json

theorem printable_toJson (c : Capabilities) : Printable c.toJson := by
  refine .object fun member hmember => ?_
  obtain ⟨⟨object, e⟩, -, rfl⟩ := List.mem_map.1 hmember
  refine .object fun part hpart => ?_
  simp only [List.mem_cons, List.not_mem_nil, or_false] at hpart
  rcases hpart with rfl | rfl | rfl
  · exact printable_strings _
  · exact printable_strings _
  · refine .object fun list hlist => ?_
    obtain ⟨⟨field, ops⟩, -, rfl⟩ := List.mem_map.1 hlist
    exact printable_strings _

theorem depth_ofStrings (names : List String) : (ofStrings names).depth = 1 := by
  have hitems : itemsDepth (names.map .string) = 0 := by
    induction names with
    | nil => rfl
    | cons name names ih => rw [List.map_cons, itemsDepth, ih]; rfl
  rw [ofStrings, depth, hitems]

theorem depth_toJson_le (c : Capabilities) : c.toJson.depth ≤ 4 := by
  refine Nat.succ_le_succ (membersDepth_le_iff.2 fun member hmember => ?_)
  obtain ⟨⟨object, e⟩, -, rfl⟩ := List.mem_map.1 hmember
  refine Nat.succ_le_succ (membersDepth_le_iff.2 fun part hpart => ?_)
  simp only [List.mem_cons, List.not_mem_nil, or_false] at hpart
  rcases hpart with rfl | rfl | rfl
  · simp [depth_ofStrings]
  · simp [depth_ofStrings]
  · refine Nat.succ_le_succ (membersDepth_le_iff.2 fun list hlist => ?_)
    obtain ⟨⟨field, ops⟩, -, rfl⟩ := List.mem_map.1 hlist
    simp [depth_ofStrings]

theorem Sayable.ofText_compact {c : Capabilities} (h : Sayable c) :
    ofText c.toJson.compact = .ok c := by
  have hdepth : c.toJson.depth ≤ maxDepth := (depth_toJson_le c).trans (by decide)
  rw [ofText, (printable_toJson c).parse?_compact hdepth]
  exact h.ofJson_toJson

end Text

/-! ## Accepted seeds -/

/-- A text is read as what a seed may say, or refused by the check at the latest: what passes the
    check can be read. -/
theorem ofText_cases (text : String) :
    (∃ c, ofText text = .ok c ∧ Sayable c) ∨ ∃ fault, ofText text = .error fault ∧
      fault ≠ .unreadable := by
  rw [ofText, Json.parse?]
  cases Json.ofText? text with
  | none => exact .inr ⟨.notJson, rfl, by rintro ⟨⟩⟩
  | some value =>
    cases hcheck : check value.canonical with
    | ok =>
      obtain ⟨c, hc, -, hsayable⟩ := ((check_canonical_eq_ok_iff value).1 hcheck).exists_ofJson
      exact .inl ⟨c, hc, hsayable⟩
    | error fault =>
      refine .inr ⟨fault, ?_, ?_⟩
      · rw [Option.map_some]
        dsimp only
        rw [ofJson, hcheck]
        rfl
      · rintro rfl
        unfold check at hcheck
        split at hcheck
        · split at hcheck <;> cases hcheck
        · cases hcheck

theorem sayable_of_ofText {text : String} {c : Capabilities} (h : ofText text = .ok c) :
    Sayable c := by
  rcases ofText_cases text with ⟨d, hd, hsayable⟩ | ⟨fault, hfault, -⟩
  · rw [h] at hd
    cases hd
    exact hsayable
  · rw [h] at hfault
    cases hfault

/-- A seed is accepted exactly if it is well formed. It is then read as the capabilities that it
    describes, which are read back from their own text. -/
theorem accepts_exactly (value : Json) :
    (check value.canonical = .ok () ↔ IsSeed value.canonical) ∧
      (check value.canonical = .ok () → ∃ c, ofJson value.canonical = .ok c ∧
        Describes c value.canonical ∧ ofText c.toJson.compact = .ok c) ∧
      ∀ text, ofText text ≠ .error .unreadable := by
  refine ⟨check_canonical_eq_ok_iff value, fun h => ?_, fun text htext => ?_⟩
  · obtain ⟨c, hc, hdescribes, hsayable⟩ := ((check_canonical_eq_ok_iff value).1 h).exists_ofJson
    exact ⟨c, hc, hdescribes, hsayable.ofText_compact⟩
  · rcases ofText_cases text with ⟨c, hc, -⟩ | ⟨fault, hfault, hne⟩
    · rw [htext] at hc
      cases hc
    · rw [htext] at hfault
      cases hfault
      exact hne rfl

/-- A seed of one object, its parts out of order, with a field that has operators. -/
def accountSeed : Json :=
  .object [("Account", .object [("operators", operatorLists [("Owner.Name", [.like, .equal])]),
    ("fields", .ofStrings ["Owner.Name", "Id"]), ("defaultFields", .ofStrings ["Id"])])]

theorem accountSeed_accepted : check accountSeed.canonical = .ok () ∧
    ∃ c, ofJson accountSeed.canonical = .ok c ∧ Describes c accountSeed.canonical ∧
      ofText c.toJson.compact = .ok c :=
  have h : check accountSeed.canonical = .ok () := by rfl
  ⟨h, (accepts_exactly accountSeed).2.1 h⟩

end Seed

end QueryGate
