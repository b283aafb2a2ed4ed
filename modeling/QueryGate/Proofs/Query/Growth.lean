import QueryGate.Proofs.Capability.Growth
import QueryGate.Proofs.Query.Accounting

/-!
# Queries on growing views

When one more entry is discovered for the object of a request, a lenient compilation
still succeeds, and still keeps every term to sort by and every condition but those
with `=` on a field that loses equality (`compile_mined`). Those are dropped, although
the documents say more of the field than before (`mined_drops_condition`).
-/

namespace QueryGate

variable {view : View} {options : CompileOptions} {request : Request} {e : Entry}

/-- A condition that is lost when an entry is discovered. -/
def Comparison.IsLost (c : Comparison) (view : View) (object : String) (e : Entry) : Prop :=
  c.op = .equal ∧ view.LosesEquality object e c.field

instance (c : Comparison) (object : String) : Decidable (c.IsLost view object e) :=
  inferInstanceAs (Decidable (_ ∧ _))

/-- A condition on the object stays admitted unless it is lost. -/
theorem Admits.mined_iff {object : String} {clause : Clause} {cmp : Comparison}
    (h : Admits view object clause cmp) :
    Admits (view.mined object e) object clause cmp ↔ ¬cmp.IsLost view object e := by
  have hops := View.mem_operators_mined_iff (e := e) h.field_mem h.op_mem
  constructor
  · exact fun h' => hops.1 h'.op_mem
  · intro hkept
    obtain ⟨hfield, hne, hallowed, hparse, -, hoperand⟩ := h
    exact .intro hfield hne (View.mem_fields_mined.2 (.inl hallowed)) hparse (hops.2 hkept) hoperand

theorem Sortable.mined {object field : String} (h : Sortable view object options field) :
    Sortable (view.mined object e) object options field := by
  rw [Sortable] at h ⊢
  split_ifs at h ⊢
  · exact View.mem_fields_mined.2 (.inl h)
  · exact h

/-- The fields asked for are asked for still, the default ones included. -/
theorem mem_requestedFields_mined {field : String}
    (h : field ∈ requestedFields view request.normalize) :
    field ∈ requestedFields (view.mined request.normalize.object e) request.normalize := by
  rw [requestedFields] at h ⊢
  split_ifs at h ⊢
  · exact View.mem_defaults_mined h
  · exact h

theorem not_fruitless_mined (h : ¬Fruitless view request) :
    ¬Fruitless (view.mined request.normalize.object e) request := by
  intro hfruitless
  refine h fun field hfield hallowed => ?_
  exact hfruitless field (mem_requestedFields_mined hfield)
    (View.mem_fields_mined.2 (.inl hallowed))

theorem not_unknown_mined (view : View) (request : Request) (e : Entry) :
    ¬Unknown (view.mined request.normalize.object e) request := by
  intro hunknown
  rw [← knows_eq_false_iff, View.knows_mined] at hunknown
  cases hunknown

section Accounts

variable {c c' : Compiled} {refused refused' unsorted unsorted' : List CompileError}
  (h : Accounts view options request c refused unsorted)
  (h' : Accounts (view.mined (Text.trimmed request.object) e) options request c' refused' unsorted')

include h h'

/-- The conditions that are not lost are kept. -/
theorem Accounts.conditions_sublist :
    (c.query.conditions.filter
      fun cmp => ¬cmp.IsLost view (Text.trimmed request.object) e).Sublist c'.query.conditions := by
  have hconditions := h.conditions
  have hconditions' := h'.conditions
  rw [h.object] at hconditions
  rw [h'.object] at hconditions'
  refine hconditions.filter_sublist hconditions' ?_ ?_
  · intro item cmp cmp' hadmits hp hadmits'
    exact hadmits'.unique (hadmits.mined_iff.2 (of_decide_eq_true hp))
  · intro item cmp error hadmits hp hrefuses
    exact hrefuses.2 cmp (hadmits.mined_iff.2 (of_decide_eq_true hp))

/-- The conditions that are lost are not. -/
theorem Accounts.not_mem_of_isLost {cmp : Comparison} (hcmp : cmp ∈ c.query.conditions)
    (hlost : cmp.IsLost view (Text.trimmed request.object) e) : cmp ∉ c'.query.conditions := by
  intro hmem
  obtain ⟨item, -, hadmits⟩ := h.conditions.exists_of_mem_kept hcmp
  obtain ⟨item', -, hadmits'⟩ := h'.conditions.exists_of_mem_kept hmem
  rw [h.object] at hadmits
  rw [h'.object] at hadmits'
  have hops := View.mem_operators_mined_iff (e := e) hadmits.field_mem hadmits.op_mem
  exact hops.1 hadmits'.op_mem hlost

/-- All terms to sort by are kept. -/
theorem Accounts.orderBy_sublist : c.query.orderBy.Sublist c'.query.orderBy := by
  have horder := h.orderBy
  have horder' := h'.orderBy
  rw [h.object] at horder
  rw [h'.object] at horder'
  refine horder.sublist horder' (fun term t t' hkept hkept' => ?_) fun term t error hkept hleft => ?_
  · rw [hkept.1, hkept'.1]
  · obtain ⟨rfl, hsortable⟩ := hkept
    exact hleft.2 hsortable.mined

end Accounts

/-- The operators of a field are kept unless it loses equality. So if one more entry is discovered,
    a lenient compilation that succeeded does so again, with every condition that is not lost and
    no other of those it had, and with every term to sort by. -/
theorem compile_mined (view : View) (e : Entry) :
    (∀ object, ∀ field ∈ view.fields object,
      (∀ op ∈ view.operators object field, op ∈ (view.mined object e).operators object field) ↔
        ¬view.LosesEquality object e field) ∧
    ∀ (options : CompileOptions) (request : Request) (c : Compiled),
      compile view { options with strict := false } request = .ok c →
      ∃ c', compile (view.mined (Text.trimmed request.object) e) { options with strict := false }
          request = .ok c' ∧
        (c.query.conditions.filter
          fun cmp => ¬cmp.IsLost view (Text.trimmed request.object) e).Sublist
            c'.query.conditions ∧
        (∀ cmp ∈ c.query.conditions, cmp.IsLost view (Text.trimmed request.object) e →
          cmp ∉ c'.query.conditions) ∧
        c.query.orderBy.Sublist c'.query.orderBy := by
  constructor
  · intro object field hfield
    constructor
    · intro hall hloses
      have hequal := hloses.mem_operators
      exact (View.mem_operators_mined_iff hfield hequal).1 (hall _ hequal) ⟨rfl, hloses⟩
    · intro hkept op hop
      exact (View.mem_operators_mined_iff hfield hop).2 fun h => hkept h.2
  · intro options request c hc
    obtain ⟨refused, unsorted, haccount⟩ := exists_accounts hc
    obtain ⟨conditions, order, haccount', hc', -⟩ := exists_assemble options
      (not_unknown_mined view request e) (not_fruitless_mined (not_fruitless_of_ok hc))
    exact ⟨_, hc', haccount.conditions_sublist haccount',
      fun cmp hcmp => haccount.not_mem_of_isLost haccount' hcmp, haccount.orderBy_sublist haccount'⟩

/-- A view of invoices of which a list of names was discovered. -/
def View.invoiceNames : View where
  registry := .empty
  snapshot := .ofEntries (.ofList [("Invoice__c", Entry.empty.addField "Name")])

/-- A request for the invoices with a name. -/
def Request.invoicesNamed (name : String) : Request where
  object := "Invoice__c"
  fields := some ["Name"]
  conditions := some (.equalities [("Name", .string name)])

/-- A document that compares names by `LIKE` takes `=` away from them: the same request then selects
    all invoices. -/
theorem mined_drops_condition :
    ∃ c c', compile .invoiceNames {} (.invoicesNamed "Acme") = .ok c ∧
      compile (View.invoiceNames.mined "Invoice__c" (Entry.empty.addOperator "Name" .like)) {}
        (.invoicesNamed "Acme") = .ok c' ∧
      c.text = "SELECT Name FROM Invoice__c WHERE Name = 'Acme' LIMIT 50" ∧
      c'.text = "SELECT Name FROM Invoice__c LIMIT 50" :=
  ⟨_, _, rfl, rfl, by decide +kernel, by decide +kernel⟩

end QueryGate
