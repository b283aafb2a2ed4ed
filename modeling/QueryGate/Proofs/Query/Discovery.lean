import QueryGate.Proofs.Capability.Growth
import QueryGate.Proofs.Query.Accounting

/-!
# Discovery only adds

Whatever was discovered, a view lets requests have all that its registry lets them have
(`View.extends_registry`). A request that compiles on the registry alone therefore
compiles on the view, leniently or strictly, to a query that selects, compares and sorts
by at least the same; and to the same query if nothing was left out (`compile_discovered`).

The fields asked for are the same on both. Those that a request without fields asks for
are the default ones, and the registry has some if the request compiles on it.
-/

namespace QueryGate

variable {view wider : View} {object : String}

/-! ## Wider views -/

/-- A view lets an object have all the fields that another lets it have, and all the operators on
    them. -/
structure View.Extends (wider view : View) (object : String) : Prop where
  /-- The object is known if it was. -/
  knows : view.knows object = true → wider.knows object = true
  /-- Fields that were allowed are allowed. -/
  fields : ∀ field ∈ view.fields object, field ∈ wider.fields object
  /-- Operators that such a field accepted are accepted. -/
  operators : ∀ field ∈ view.fields object, ∀ op ∈ view.operators object field,
    op ∈ wider.operators object field

/-- A view extends that of its registry. -/
theorem View.extends_registry (registry : Capabilities) (snapshot : Snapshot) (object : String) :
    View.Extends { registry, snapshot } { registry } object where
  knows h := by
    rw [knows, Bool.or_eq_true] at h ⊢
    exact .inl (h.resolve_right Bool.false_ne_true)
  fields field h := by
    rw [mem_fields_iff] at h ⊢
    exact .inl (h.resolve_right SortedSet.not_mem_empty)
  operators field hfield op hop := by
    have hregistry : field ∈ registry.fields object :=
      (mem_fields_iff.1 hfield).resolve_right SortedSet.not_mem_empty
    rw [mem_operators_iff hfield] at hop
    rw [mem_operators_iff (mem_fields_iff.2 (.inl hregistry))]
    -- nothing was discovered that could mention the field
    exact .inl (hop.resolve_right fun h => absurd h.1 Bool.false_ne_true)

section Wider

variable {options : CompileOptions} (h : wider.Extends view object)

include h

theorem Admits.extend {clause : Clause} {cmp : Comparison} (hadmits : Admits view object clause cmp) :
    Admits wider object clause cmp := by
  obtain ⟨hfield, hne, hallowed, hparse, hop, hoperand⟩ := hadmits
  exact .intro hfield hne (h.fields _ hallowed) hparse (h.operators _ hallowed _ hop) hoperand

theorem Sortable.extend {field : String} (hsortable : Sortable view object options field) :
    Sortable wider object options field := by
  rw [Sortable] at hsortable ⊢
  split_ifs at hsortable ⊢
  · exact h.fields field hsortable
  · exact hsortable

end Wider

/-! ## The fields asked for -/

theorem eraseDups_filter (p : String → Bool) (names : List String) :
    (names.filter p).eraseDups = names.eraseDups.filter p := by
  induction names using List.reverseRecOn with
  | nil => rfl
  | append_singleton names name ih =>
    rw [List.filter_append, List.eraseDups_append, List.eraseDups_append, List.filter_append, ih]
    congr 1
    by_cases hp : p name = true
    · by_cases hname : name ∈ names
      · simp [hp, hname, List.removeAll]
      · simp [hp, hname, List.removeAll, List.eraseDups_cons]
    · by_cases hname : name ∈ names
      · simp [hp, hname, List.removeAll]
      · simp [hp, hname, List.removeAll, List.eraseDups_cons]

/-- The allowed ones of some fields stay in their order if more are allowed. -/
theorem eraseDups_filter_sublist {allowed more : Names} (h : ∀ field ∈ allowed, field ∈ more)
    (requested : List String) :
    (requested.filter (· ∈ allowed)).eraseDups.Sublist
      (requested.filter (· ∈ more)).eraseDups := by
  have hfilter : requested.filter (· ∈ allowed) =
      (requested.filter (· ∈ more)).filter (· ∈ allowed) := by
    rw [List.filter_filter]
    refine List.filter_congr fun field _ => ?_
    by_cases hfield : field ∈ allowed
    · simp [hfield, h field hfield]
    · simp [hfield]
  rw [hfilter, eraseDups_filter]
  exact List.filter_sublist

/-- A request that asks the registry for some field asks a view of it for the same ones. -/
theorem requestedFields_discovered {registry : Capabilities} {request : Request}
    (h : ¬Fruitless { registry } request) (snapshot : Snapshot) :
    requestedFields { registry, snapshot } request.normalize =
      requestedFields { registry } request.normalize := by
  rw [requestedFields, requestedFields]
  split_ifs with hfields
  swap
  · rfl
  have hnone : View.defaults { registry } request.normalize.object =
      registry.defaults request.normalize.object := by
    dsimp only [View.defaults]
    split_ifs with hempty
    · rw [List.isEmpty_iff.1 hempty]
      rfl
    · rfl
  rw [hnone]
  dsimp only [View.defaults]
  -- without default fields in the registry there would be nothing to select
  rw [if_neg]
  intro hempty
  refine h fun field hfield => ?_
  rw [requestedFields, if_pos hfields, hnone, List.isEmpty_iff.1 hempty] at hfield
  cases hfield

/-! ## Accounts -/

section Accounts

variable {options : CompileOptions} {request : Request} {c c' : Compiled}
  {refused refused' unsorted unsorted' : List CompileError}

/-- What a strict compilation answers leaves nothing out but fields. -/
theorem exists_accounts_strict (hc : compile view options request = .ok c)
    (hstrict : options.strict = true) : Accounts view options request c [] [] := by
  have hknown := not_unknown_of_ok hc
  obtain ⟨conditions, order, haccount, -, hanswer⟩ :=
    exists_assemble options hknown (not_fruitless_of_ok hc)
  rw [show ({ options with strict := true } : CompileOptions) = options by rw [← hstrict], hc]
    at hanswer
  cases herrors : conditions.2 ++ order.2 with
  | nil =>
    obtain ⟨hrefused, hunsorted⟩ := List.append_eq_nil_iff.1 herrors
    rw [herrors] at hanswer
    rw [hrefused, hunsorted] at haccount
    rwa [Except.ok.inj hanswer]
  | cons e errors =>
    rw [herrors] at hanswer
    cases hanswer

variable (hext : wider.Extends view (Text.trimmed request.object))
  (hrequested : requestedFields wider request.normalize = requestedFields view request.normalize)
  (haccount : Accounts view options request c refused unsorted)
  (haccount' : Accounts wider options request c' refused' unsorted')

include hext haccount haccount'

/-- The conditions are still admitted, and as the same comparisons. -/
theorem Accounts.conditions_extend :
    c.query.conditions.Sublist c'.query.conditions ∧
      (refused = [] → c'.query.conditions = c.query.conditions ∧ refused' = []) := by
  have hconditions := haccount.conditions
  have hconditions' := haccount'.conditions
  rw [haccount.object] at hconditions
  rw [haccount'.object] at hconditions'
  have hkept : ∀ (item : ConditionItem × ℕ) (cmp cmp' : Comparison),
      Admits view (Text.trimmed request.object) item.1.clause cmp →
      Admits wider (Text.trimmed request.object) item.1.clause cmp' → cmp' = cmp :=
    fun item cmp cmp' hadmits hadmits' => hadmits'.unique (hadmits.extend hext)
  refine ⟨hconditions.sublist hconditions' hkept fun item cmp e hadmits hrefuses => ?_, ?_⟩
  · exact hrefuses.2 cmp (hadmits.extend hext)
  · rintro rfl
    refine hconditions.eq_of_nil hconditions' hkept fun item cmp e hadmits hrefuses => ?_
    exact hrefuses.2 cmp (hadmits.extend hext)

/-- The terms to sort by are still terms to sort by. -/
theorem Accounts.orderBy_extend :
    c.query.orderBy.Sublist c'.query.orderBy ∧
      (unsorted = [] → c'.query.orderBy = c.query.orderBy ∧ unsorted' = []) := by
  have horder := haccount.orderBy
  have horder' := haccount'.orderBy
  rw [haccount.object] at horder
  rw [haccount'.object] at horder'
  constructor
  · refine horder.sublist horder' (fun term t t' ht ht' => ht'.1.trans ht.1.symm) ?_
    rintro term t e ⟨rfl, hsortable⟩ hleft
    exact hleft.2 (hsortable.extend hext)
  · rintro rfl
    refine horder.eq_of_nil horder' (fun term t t' ht ht' => ht'.1.trans ht.1.symm) ?_
    rintro term t e ⟨rfl, hsortable⟩ hleft
    exact hleft.2 (hsortable.extend hext)

include hrequested

/-- The fields are still selected, in the same order. -/
theorem Accounts.fields_extend : c.query.fields.Sublist c'.query.fields := by
  rw [haccount.fields, haccount'.fields, hrequested, haccount.object, haccount'.object]
  exact eraseDups_filter_sublist hext.fields _

/-- If nothing was left out, nothing is, and the query is the same. -/
theorem Accounts.eq_of_extends (hdropped : c.dropped = []) : c' = c := by
  have hparts := haccount.dropped
  rw [hdropped, eq_comm, List.append_eq_nil_iff, List.append_eq_nil_iff, List.map_eq_nil_iff,
    List.filter_eq_nil_iff, haccount.object] at hparts
  obtain ⟨⟨hfields, hrefused⟩, hunsorted⟩ := hparts
  obtain ⟨hconditions, hrefused'⟩ := (haccount.conditions_extend hext haccount').2 hrefused
  obtain ⟨horderBy, hunsorted'⟩ := (haccount.orderBy_extend hext haccount').2 hunsorted
  have hallowed : ∀ field ∈ requestedFields view request.normalize,
      field ∈ view.fields (Text.trimmed request.object) := by
    intro field hfield
    simpa using hfields field hfield
  have hquery : c'.query = c.query := by
    have hobject : c'.query.object = c.query.object := haccount'.object.trans haccount.object.symm
    have hlimit : c'.query.limit = c.query.limit := haccount'.limit.trans haccount.limit.symm
    have hselected : c'.query.fields = c.query.fields := by
      rw [haccount.fields, haccount'.fields, hrequested, haccount.object, haccount'.object]
      congr 1
      refine List.filter_congr fun field hfield => ?_
      simp [hallowed field hfield, hext.fields field (hallowed field hfield)]
    cases hq : c.query
    cases hq' : c'.query
    simp_all
  have hdropped' : c'.dropped = c.dropped := by
    rw [hdropped, haccount'.dropped, hrequested, haccount'.object, hrefused', hunsorted',
      List.append_nil, List.append_nil, List.map_eq_nil_iff, List.filter_eq_nil_iff]
    intro field hfield
    simpa using hext.fields field (hallowed field hfield)
  cases c
  cases c'
  simp_all

end Accounts

/-! ## Compilations -/

/-- A request that compiles on the registry alone compiles on every view of it, to a query that has
    its fields, its conditions and its terms to sort by in the same order, and its limit. It is the
    same query, and nothing is left out, if nothing was. -/
theorem compile_discovered {registry : Capabilities} {options : CompileOptions} {request : Request}
    {c : Compiled} (h : compile { registry } options request = .ok c) (snapshot : Snapshot) :
    ∃ c', compile { registry, snapshot } options request = .ok c' ∧
      c.query.fields.Sublist c'.query.fields ∧
      c.query.conditions.Sublist c'.query.conditions ∧
      c.query.orderBy.Sublist c'.query.orderBy ∧
      c'.query.limit = c.query.limit ∧
      (c.dropped = [] → c' = c) := by
  have hext := View.extends_registry registry snapshot (Text.trimmed request.object)
  have hrequested := requestedFields_discovered (not_fruitless_of_ok h) snapshot
  have hknown : ¬Unknown { registry, snapshot } request := by
    intro hunknown
    refine not_unknown_of_ok h ?_
    rw [← knows_eq_false_iff, Bool.eq_false_iff] at hunknown ⊢
    exact fun hknows => hunknown (hext.knows hknows)
  have hfields : ¬Fruitless { registry, snapshot } request := by
    intro hfruitless
    refine not_fruitless_of_ok h fun field hfield hallowed => ?_
    rw [← hrequested] at hfield
    exact hfruitless field hfield (hext.fields field hallowed)
  obtain ⟨conditions, order, haccount', hlenient, hstrict⟩ :=
    exists_assemble options hknown hfields
  obtain ⟨refused, unsorted, haccount, hnothing⟩ : ∃ refused unsorted,
      Accounts { registry } options request c refused unsorted ∧
        (options.strict = true → refused = [] ∧ unsorted = []) := by
    cases hmode : options.strict with
    | true => exact ⟨[], [], exists_accounts_strict h hmode, fun _ => ⟨rfl, rfl⟩⟩
    | false =>
      obtain ⟨refused, unsorted, haccount⟩ := exists_accounts_of_ok h
      exact ⟨refused, unsorted, haccount, fun h => by cases h⟩
  have hconditions := haccount.conditions_extend hext haccount'
  have horderBy := haccount.orderBy_extend hext haccount'
  refine ⟨assemble { registry, snapshot } options request.normalize conditions order, ?_,
    haccount.fields_extend hext hrequested haccount', hconditions.1, horderBy.1,
    haccount'.limit.trans haccount.limit.symm, haccount.eq_of_extends hext hrequested haccount'⟩
  cases hmode : options.strict with
  | false => rwa [show ({ options with strict := false } : CompileOptions) = options by rw [← hmode]]
    at hlenient
  | true =>
    -- what was not left out under the registry is not left out now
    rw [show ({ options with strict := true } : CompileOptions) = options by rw [← hmode]]
      at hstrict
    rw [hstrict, (hconditions.2 (hnothing hmode).1).2, (horderBy.2 (hnothing hmode).2).2]
    rfl

/-- A registry in which accounts have a name that is compared by `LIKE`. -/
def Capabilities.namedAccounts : Capabilities :=
  .ofList [("Account", (Entry.empty.addOperator "Name" .like).withDefaults ["Name"])]

/-- A snapshot in which accounts have a region, and names are compared by `=`. -/
def Snapshot.accountRegions : Snapshot :=
  .ofEntries (.ofList [("Account",
    ((Entry.empty.addOperator "Region__c" .equal).addOperator "Name" .equal).withDefaults
      ["Region__c"])])

/-- A request for the accounts of a region with a name like a pattern. -/
def Request.regionalAccounts : Request where
  object := "Account"
  conditions := some <| .list [
    .condition { field := "Region__c", value := some (.string "EMEA") },
    .condition { field := "Name", op := some "like", value := some (.string "A%") }]

/-- The query on names keeps its condition, and gains the one on regions. -/
theorem regionalAccounts_discovered :
    ∃ c c', compile { registry := .namedAccounts } {} .regionalAccounts = .ok c ∧
      compile { registry := .namedAccounts, snapshot := .accountRegions } {} .regionalAccounts =
        .ok c' ∧
      c.query.fields.Sublist c'.query.fields ∧
      c.query.conditions.Sublist c'.query.conditions ∧
      c.query.orderBy.Sublist c'.query.orderBy ∧ c'.query.limit = c.query.limit ∧
      (c.dropped = [] → c' = c) ∧
      c.text = "SELECT Name FROM Account WHERE Name LIKE 'A%' LIMIT 50" ∧
      c'.text = "SELECT Name FROM Account WHERE Region__c = 'EMEA' AND Name LIKE 'A%' LIMIT 50" := by
  have hc : ∃ c, compile { registry := .namedAccounts } {} .regionalAccounts = .ok c ∧
      c.text = "SELECT Name FROM Account WHERE Name LIKE 'A%' LIMIT 50" :=
    ⟨_, rfl, by decide +kernel⟩
  have hc' : ∃ c, compile { registry := .namedAccounts, snapshot := .accountRegions } {}
      .regionalAccounts = .ok c ∧
      c.text = "SELECT Name FROM Account WHERE Region__c = 'EMEA' AND Name LIKE 'A%' LIMIT 50" :=
    ⟨_, rfl, by decide +kernel⟩
  obtain ⟨c, hok, htext⟩ := hc
  obtain ⟨c₁, hok₁, htext₁⟩ := hc'
  obtain ⟨c', hok', hfields, hconditions, horderBy, hlimit, hsame⟩ :=
    compile_discovered hok .accountRegions
  obtain rfl : c₁ = c' := Except.ok.inj (hok₁.symm.trans hok')
  exact ⟨c, c₁, hok, hok', hfields, hconditions, horderBy, hlimit, hsame, htext, htext₁⟩

end QueryGate
