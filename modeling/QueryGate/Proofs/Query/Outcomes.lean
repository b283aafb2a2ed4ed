import QueryGate.Proofs.Capability.Growth
import QueryGate.Proofs.Query.Accounting
import QueryGate.Proofs.Query.Rendering

/-!
# Outcomes of requests

What a compilation makes of a request, from the request as it was given to the text of the
query. A request has its fields, the elements of its conditions and the terms of its order in
one shape or another (`Request.Asks`, `Request.Elements`, `Request.Terms`). Each of them is
rendered in the text or reported, once and in the order of the request (`Outcome`).

* `compile_lenient_account`: a lenient compilation fails for the object and the fields alone,
  and else has an outcome;
* `compile_strict_refines`: a strict one does the same, up to the first condition or term that
  would be left out, so that it leaves out none.
-/

namespace QueryGate

/-! ## Sources -/

theorem Capabilities.mem_fields {c : Capabilities} {object field : String} :
    field ∈ c.fields object ↔ ∃ e, c.get? object = some e ∧ field ∈ e.fields := by
  rw [fields]
  cases c.get? object <;> simp

namespace View

variable {view : View} {object field : String} {op : Operator}

/-- The registry has an entry for an object, or it was discovered. -/
def Holds (view : View) (object : String) (e : Entry) : Prop :=
  view.registry.get? object = some e ∨ view.discovered.get? object = some e

theorem holds_iff {e : Entry} : view.Holds object e ↔ e ∈ view.entriesOf object := by
  rw [Holds, entriesOf, List.mem_append, Option.mem_toList, Option.mem_toList]

/-- The fields of an object are those of its entries. -/
theorem mem_fields_iff_holds :
    field ∈ view.fields object ↔ ∃ e, view.Holds object e ∧ field ∈ e.fields := by
  rw [fields, SortedSet.mem_union, Capabilities.mem_fields, Capabilities.mem_fields]
  simp only [Holds, or_and_right, exists_or]

/-- The operators of a field that may be selected are those of the entries that mention it. -/
theorem mem_operators_iff_holds (hfield : field ∈ view.fields object) :
    op ∈ view.operators object field ↔
      ∃ e, view.Holds object e ∧ e.mentions field = true ∧ op ∈ e.operatorsOf field := by
  simp only [holds_iff]
  rw [mem_operators_iff hfield, Grants, ← exists_mentions_iff]

theorem knows_iff_holds : view.knows object = true ↔ ∃ e, view.Holds object e := by
  simp only [knows, Bool.or_eq_true, SortedMap.contains, Option.isSome_iff_exists, Holds, exists_or]

/-- The default fields of an object are those of the registry, if it has any. -/
theorem defaults_eq (view : View) (object : String) : view.defaults object =
    if ((view.registry.get? object).elim [] Entry.defaults).isEmpty
      then (view.discovered.get? object).elim [] Entry.defaults
      else (view.registry.get? object).elim [] Entry.defaults := by
  rw [View.defaults, Capabilities.defaults, Capabilities.defaults]
  cases view.registry.get? object <;> cases view.discovered.get? object <;> rfl

end View

/-! ## Requests -/

/-- An item of a list of conditions is an element: a condition, whose operator is `=` if it has
    none, or something else. -/
inductive ConditionItem.IsElement : ConditionItem → Clause → Prop where
  | given {c : Condition} {op : String} (h : c.op = some op) :
      IsElement (.condition c) (.condition c.field op c.value)
  | equality {c : Condition} (h : c.op = none) :
      IsElement (.condition c) (.condition c.field "=" c.value)
  | other (value : Json) : IsElement (.other value) (.malformed value)

namespace Request

/-- The fields that a request asks for: those that it names, without the blanks around them, and if
    it names none the default ones of the registry, or of what was discovered if that has none. -/
inductive Asks (view : View) (r : Request) : List String → Prop where
  | named {fields : List String} (h : r.fields = some fields) (hne : fields ≠ []) :
      Asks view r (fields.map Text.trimmed)
  | fixed {e : Entry} (h : ∀ fields, r.fields = some fields → fields = [])
      (he : view.registry.get? (Text.trimmed r.object) = some e) (hne : e.defaults ≠ []) :
      Asks view r e.defaults
  | discovered (h : ∀ fields, r.fields = some fields → fields = [])
      (hfixed : ∀ e, view.registry.get? (Text.trimmed r.object) = some e → e.defaults = []) :
      Asks view r ((view.discovered.get? (Text.trimmed r.object)).elim [] Entry.defaults)

/-- The elements of the conditions of a request, in their order: the items of a list, or for each
    key of a map that the field of this name be equal to the value. -/
inductive Elements (r : Request) : List Clause → Prop where
  | nil (h : r.conditions = none) : Elements r []
  | list {items : List ConditionItem} {elements : List Clause}
      (h : r.conditions = some (.list items))
      (hitems : List.Forall₂ ConditionItem.IsElement items elements) : Elements r elements
  | equalities {members : List (String × Json)} (h : r.conditions = some (.equalities members)) :
      Elements r (members.map fun (field, value) => .condition field "=" (some value))

/-- The terms of the order of a request. -/
inductive Terms (r : Request) : List OrderTerm → Prop where
  | nil (h : r.orderBy = none) : Terms r []
  | one {term : OrderTerm} (h : r.orderBy = some (.one term)) : Terms r [term]
  | many {terms : List OrderTerm} (h : r.orderBy = some (.many terms)) : Terms r terms

/-- The number of list items or of keys in the conditions of a request. -/
def elementCount (r : Request) : ℕ :=
  match r.conditions with
  | none => 0
  | some (.list items) => items.length
  | some (.equalities members) => members.length

/-- The number of terms in the order of a request. -/
def termCount (r : Request) : ℕ :=
  match r.orderBy with
  | none => 0
  | some (.one _) => 1
  | some (.many terms) => terms.length

section

variable {view : View} {r : Request} {asked : List String} {elements : List Clause}
  {terms : List OrderTerm}

theorem requestedFields_named {fields : List String} (h : r.fields = some fields)
    (hne : fields ≠ []) : requestedFields view r.normalize = fields.map Text.trimmed := by
  have hfields : r.normalize.fields = fields.map Text.trimmed := by rw [normalize, h]; rfl
  rw [requestedFields, hfields, if_neg]
  rwa [List.isEmpty_iff, List.map_eq_nil_iff]

theorem requestedFields_unnamed (h : ∀ fields, r.fields = some fields → fields = []) :
    requestedFields view r.normalize = view.defaults (Text.trimmed r.object) := by
  have hfields : r.normalize.fields = [] := by
    rw [normalize, List.map_eq_nil_iff]
    cases hr : r.fields with
    | none => rfl
    | some fields => exact h fields hr
  rw [requestedFields, hfields, if_pos List.isEmpty_nil]
  rfl

/-- The fields asked for are those that are looked up. -/
theorem asks_iff : r.Asks view asked ↔ asked = requestedFields view r.normalize := by
  constructor
  · intro h
    cases h with
    | named h hne => exact (requestedFields_named h hne).symm
    | fixed h he hne =>
      rw [requestedFields_unnamed h, View.defaults_eq, he, Option.elim_some,
        if_neg (mt List.isEmpty_iff.1 hne)]
    | discovered h hfixed =>
      -- an entry without defaults counts as none
      have hempty : (view.registry.get? (Text.trimmed r.object)).elim [] Entry.defaults = [] := by
        cases he : view.registry.get? (Text.trimmed r.object) with
        | none => rfl
        | some e => exact hfixed e he
      rw [requestedFields_unnamed h, View.defaults_eq, hempty, if_pos List.isEmpty_nil]
  · rintro rfl
    -- an empty list of fields names none, like no list
    by_cases h : ∀ fields, r.fields = some fields → fields = []
    · rw [requestedFields_unnamed h, View.defaults_eq]
      cases he : view.registry.get? (Text.trimmed r.object) with
      | none => exact .discovered h fun e he' => by rw [he] at he'; cases he'
      | some e =>
        rw [Option.elim_some]
        split_ifs with hempty
        · refine .discovered h fun e' he' => ?_
          obtain rfl := Option.some.inj (he.symm.trans he')
          exact List.isEmpty_iff.1 hempty
        · exact .fixed h he (mt List.isEmpty_iff.2 hempty)
    · push Not at h
      obtain ⟨fields, hfields, hne⟩ := h
      rw [requestedFields_named hfields hne]
      exact .named hfields hne

theorem elements_normalize (r : Request) : r.Elements r.normalize.clauses := by
  have hitem : ∀ item : ConditionItem, item.IsElement item.clause := by
    intro item
    cases item with
    | condition c =>
      cases h : c.op with
      | none => simpa [ConditionItem.clause, Condition.clause, h] using .equality h
      | some op => simpa [ConditionItem.clause, Condition.clause, h] using .given h
    | other value => exact .other value
  rw [normalize]
  cases h : r.conditions with
  | none => exact .nil h
  | some conditions =>
    cases conditions with
    | list items =>
      refine .list h (List.forall₂_map_right_iff.2 (List.forall₂_same.2 fun item _ => hitem item))
    | equalities members => exact .equalities h

theorem terms_terms (r : Request) : r.Terms r.terms := by
  rw [terms]
  cases h : r.orderBy with
  | none => exact .nil h
  | some order =>
    cases order with
    | one term => exact .one h
    | many terms => exact .many h

theorem Elements.length_eq (h : r.Elements elements) : elements.length = r.elementCount := by
  rw [elementCount]
  cases h with
  | nil h => rw [h]; rfl
  | list h hitems =>
    rw [h]
    exact hitems.length_eq.symm
  | equalities h =>
    rw [h]
    exact List.length_map _

theorem Terms.length_eq (h : r.Terms terms) : terms.length = r.termCount := by
  rw [termCount]
  cases h with
  | nil h => rw [h]; rfl
  | one h => rw [h]; rfl
  | many h => rw [h]

end

end Request

/-! ## Texts -/

/-- A part of a query that is left out if it has no items. -/
def optionalPart (keyword separator : String) (items : List String) : String :=
  if items.isEmpty then "" else keyword ++ separator.intercalate items

theorem toList_optionalPart {α : Type} (keyword separator : String) (write : α → List Char)
    (items : List α) :
    (optionalPart keyword separator (items.map fun item => String.ofList (write item))).toList =
      if items.isEmpty then [] else keyword.toList ++ joined separator (items.map write) := by
  rw [optionalPart, List.isEmpty_map]
  split_ifs
  · rfl
  · rw [String.toList_append, String.toList_intercalate, List.map_map, joined]
    simp only [Function.comp_def, String.toList_ofList]

/-- The text of a query, from the texts of its parts. -/
theorem Query.text_parts (q : Query) : q.text = ("SELECT " ++ ", ".intercalate q.fields ++
    " FROM " ++ q.object ++
    optionalPart " WHERE " " AND " (q.conditions.map fun c => String.ofList c.text) ++
    optionalPart " ORDER BY " ", " (q.orderBy.map fun term => String.ofList (orderTermText term)) ++
    " LIMIT " ++ toString q.limit).toList := by
  simp only [String.toList_append, String.toList_intercalate, toList_optionalPart]
  rfl

/-! ## Outcomes -/

/-- What becomes of the parts of a request, on a view that allows some of them. -/
structure Outcome (view : View) (options : CompileOptions) (request : Request) (c : Compiled) where
  /-- The fields asked for. -/
  asked : List String
  /-- Those of them that are allowed, as often as they are asked for. -/
  allowed : List String
  /-- The errors on the others. -/
  disallowed : List CompileError
  /-- The elements of the conditions. -/
  elements : List Clause
  /-- The texts of the conditions. -/
  conditions : List String
  /-- The errors on the elements that are no conditions. -/
  refused : List CompileError
  /-- The terms of the order. -/
  terms : List OrderTerm
  /-- The texts of the terms to sort by. -/
  order : List String
  /-- The errors on the other terms. -/
  unsorted : List CompileError
  asks : request.Asks view asked
  isElements : request.Elements elements
  isTerms : request.Terms terms
  /-- The object is the one asked for, without the blanks around it. -/
  object : c.query.object = Text.trimmed request.object
  /-- Every field asked for is allowed or an error. -/
  sifted : Sifted (fun field kept => kept = field ∧ field ∈ view.fields c.query.object)
    (fun field e => e = .disallowedField c.query.object field ∧ field ∉ view.fields c.query.object)
    asked allowed disallowed
  /-- The fields of the query are the allowed ones, each where it first occurs. -/
  fields : c.query.fields = allowed.eraseDups
  /-- Every element of the conditions is rendered as a condition, or else an error. -/
  rendered : Sifted (fun element text => element.1.Renders view c.query.object text)
    (fun element e => Refuses view c.query.object element.2 element.1 e ∧
      ∀ text, ¬element.1.Renders view c.query.object text)
    elements.zipIdx conditions refused
  /-- Every term may be sorted by and is rendered, or else an error. -/
  ordered : Sifted
    (fun term text => term.Renders text ∧
      Sortable view c.query.object options (Text.trimmed term.field))
    (fun term e => e = .disallowedOrderBy (Text.trimmed term.field) ∧
      ¬Sortable view c.query.object options (Text.trimmed term.field))
    terms order unsorted
  /-- The errors are reported in this order. -/
  dropped : c.dropped = disallowed ++ refused ++ unsorted
  /-- The limit is the one of the options. -/
  limit : c.query.limit = options.limitOf request.normalize
  /-- The text is put together from the fields and the texts of the conditions and of the terms. -/
  text : c.text = "SELECT " ++ ", ".intercalate c.query.fields ++ " FROM " ++ c.query.object ++
    optionalPart " WHERE " " AND " conditions ++ optionalPart " ORDER BY " ", " order ++
      " LIMIT " ++ toString c.query.limit

namespace Outcome

variable {view : View} {options : CompileOptions} {request : Request} {c : Compiled}
  {refused unsorted : List CompileError}

/-- The outcome that an account tells of. -/
def ofAccounts (h : Accounts view options request c refused unsorted) :
    Outcome view options request c where
  asked := requestedFields view request.normalize
  allowed := (requestedFields view request.normalize).filter (· ∈ view.fields c.query.object)
  disallowed := ((requestedFields view request.normalize).filter
    (· ∉ view.fields c.query.object)).map (.disallowedField c.query.object)
  elements := request.normalize.clauses
  conditions := c.query.conditions.map fun cmp => String.ofList cmp.text
  refused := refused
  terms := request.terms
  order := c.query.orderBy.map fun term => String.ofList (orderTermText term)
  unsorted := unsorted
  asks := Request.asks_iff.2 rfl
  isElements := request.elements_normalize
  isTerms := request.terms_terms
  object := h.object
  sifted := .of_filter (· ∈ view.fields c.query.object) _ _
  fields := h.fields
  rendered := by
    -- the account is of conditions, and what is kept of a clause here is their text
    rw [Request.normalize_clauses, List.zipIdx_map]
    refine Sifted.to_map (Sifted.map_kept (h.conditions.imp (fun _ _ _ hadmits => hadmits) ?_) ?_)
    · rintro item - e ⟨hrefuses, hadmits⟩
      refine ⟨hrefuses, fun text htext => ?_⟩
      obtain ⟨cmp, hcmp, -⟩ := Clause.renders_iff.1 htext
      exact hadmits cmp hcmp
    · exact fun item cmp hadmits => Clause.renders_iff.2 ⟨cmp, hadmits, rfl⟩
  ordered := by
    refine h.orderBy.map_kept fun term t ht => ?_
    obtain ⟨rfl, hsortable⟩ := ht
    exact ⟨term.renders_normalize, hsortable⟩
  dropped := h.dropped
  limit := h.limit
  text := by rw [Compiled.text, Query.text_parts, String.ofList_toList]

/-- There are as many errors on fields as fields asked for that are not allowed. -/
theorem length_disallowed (o : Outcome view options request c) :
    o.disallowed.length = o.asked.countP (· ∉ view.fields c.query.object) :=
  o.sifted.length_dropped (fun _ _ h => h.2) fun _ _ h => h.2

/-- Where no element is refused, all are rendered. -/
theorem forall₂_renders (o : Outcome view options request c) (h : o.refused = []) :
    List.Forall₂ (·.Renders view c.query.object) o.elements o.conditions := by
  have hall := o.rendered
  rw [h] at hall
  rw [← List.zipIdx_map_fst 0 o.elements]
  exact List.forall₂_map_left_iff.2 hall.forall₂_of_nil

/-- Where no term is left unsorted, all are rendered. -/
theorem forall₂_order (o : Outcome view options request c) (h : o.unsorted = []) :
    List.Forall₂ OrderTerm.Renders o.terms o.order := by
  have hall := o.ordered
  rw [h] at hall
  exact hall.forall₂_of_nil.imp fun _ _ h => h.1

end Outcome

/-! ## Lenient and strict compilations -/

theorem unknown_iff {view : View} {request : Request} :
    Unknown view request ↔ ∀ e, ¬view.Holds (Text.trimmed request.object) e := by
  rw [← knows_eq_false_iff, ← Bool.not_eq_true, View.knows_iff_holds, not_exists]
  rfl

/-- A view allows on an object what its entries say, be they of the registry or discovered. A
    lenient compilation fails for an object without an entry, and for a list of fields of which
    none is allowed, and for nothing else. If it succeeds, it selects no field twice, and every
    part of the request is in the text of the query or among the errors. -/
theorem compile_lenient_account (view : View) (options : CompileOptions) (request : Request) :
    (∀ object field, field ∈ view.fields object ↔
      ∃ e, view.Holds object e ∧ field ∈ e.fields) ∧
    (∀ object, ∀ field ∈ view.fields object, ∀ op, op ∈ view.operators object field ↔
      ∃ e, view.Holds object e ∧ e.mentions field = true ∧ op ∈ e.operatorsOf field) ∧
    (∀ e, compile view { options with strict := false } request = .error e ↔
      (∀ entry, ¬view.Holds (Text.trimmed request.object) entry) ∧
        e = .unknownObject (Text.trimmed request.object) ∨
      (∃ entry, view.Holds (Text.trimmed request.object) entry) ∧
        ∃ asked, request.Asks view asked ∧
          (∀ field ∈ asked, field ∉ view.fields (Text.trimmed request.object)) ∧
          e = .noAllowedFields (Text.trimmed request.object) asked) ∧
    ∀ c, compile view { options with strict := false } request = .ok c →
      c.query.fields.Nodup ∧ Nonempty (Outcome view options request c) := by
  refine ⟨fun _ _ => View.mem_fields_iff_holds,
    fun _ _ hfield _ => View.mem_operators_iff_holds hfield, fun e => ?_, fun c hc => ?_⟩
  · have hasked : (∃ asked, request.Asks view asked ∧
        (∀ field ∈ asked, field ∉ view.fields (Text.trimmed request.object)) ∧
          e = .noAllowedFields (Text.trimmed request.object) asked) ↔
        Fruitless view request ∧ e = .noAllowedFields (Text.trimmed request.object)
          (requestedFields view request.normalize) := by
      simp only [Request.asks_iff, exists_eq_left]
      rfl
    have hknown : (∃ entry, view.Holds (Text.trimmed request.object) entry) ↔
        ¬Unknown view request := by rw [unknown_iff, not_forall_not]
    -- the object is looked up before the fields, so that at most one of the two errors is due
    rw [hasked, hknown, ← unknown_iff]
    by_cases hunknown : Unknown view request
    · rw [compile_unknown hunknown, Except.error.injEq]
      exact ⟨fun h => .inl ⟨hunknown, h.symm⟩,
        fun h => h.elim (fun h => h.2.symm) fun h => absurd hunknown h.1⟩
    by_cases hfruitless : Fruitless view request
    · rw [compile_fruitless hunknown hfruitless, Except.error.injEq]
      exact ⟨fun h => .inr ⟨hunknown, hfruitless, h.symm⟩,
        fun h => h.elim (fun h => absurd h.1 hunknown) fun h => h.2.2.symm⟩
    · obtain ⟨conditions, order, -, heq, -⟩ := exists_assemble options hunknown hfruitless
      rw [heq]
      refine ⟨fun h => (by cases h), fun h => ?_⟩
      exact h.elim (fun h => absurd h.1 hunknown) fun h => absurd h.2.1 hfruitless
  · obtain ⟨refused, unsorted, haccount⟩ := exists_accounts hc
    refine ⟨?_, ⟨.ofAccounts haccount⟩⟩
    rw [haccount.fields]
    exact nodup_eraseDups _

/-- A view of accounts: their registry has the names, and their regions were discovered. -/
def View.regionalSales : View where
  registry := .ofList [("Account", (Entry.empty.addField "Id").addOperator "Name" .like)]
  snapshot := .ofEntries (.ofList [("Account", Entry.empty.addOperator "Region__c" .isIn)])

/-- The condition that accounts have a name like a pattern. -/
def Condition.likeNeil : Condition where
  field := "Name"
  op := some "like"
  value := some (.string "O'Neil%")

/-- The condition that accounts are in a region. -/
def Condition.inEmea : Condition where
  field := " Region__c "
  op := some "in"
  value := some (.string "EMEA")

/-- A request of which about half is allowed: a field, a condition and a term are not, an operator
    is not, and an element is no condition. -/
def Request.salesInRegions : Request where
  object := " Account "
  fields := some ["Id", "Secret__c", " Name", "Id"]
  conditions := some <| .list [.condition .likeNeil, .other (.bool true),
    .condition { field := "Secret__c", value := some .null },
    .condition { field := "Name", value := some (.string "Acme") }, .condition .inEmea]
  orderBy := some <| .many [{ field := "Name", direction := some "Desc" }, { field := "Secret__c" }]

/-- What is allowed of the request is in the text, and the rest is among the errors. -/
theorem salesInRegions_account :
    ∃ c, compile .regionalSales {} .salesInRegions = .ok c ∧
      c.text = "SELECT Id, Name FROM Account WHERE Name LIKE 'O''Neil%' AND " ++
        "Region__c IN ('EMEA') ORDER BY Name DESC LIMIT 50" ∧
      c.dropped = [.disallowedField "Account" "Secret__c",
        .malformedCondition 1 (.notCondition (.bool true)),
        .disallowedField "Account" "Secret__c", .disallowedOperator "Name" "=",
        .disallowedOrderBy "Secret__c"] ∧
      Nonempty (Outcome .regionalSales {} .salesInRegions c) := by
  refine ⟨_, rfl, by decide +kernel, rfl, ?_⟩
  exact ((compile_lenient_account .regionalSales {} .salesInRegions).2.2.2 _ rfl).2

/-- A strict compilation fails where the lenient one does. Where that one succeeds, it succeeds in
    the same way unless an error stands behind those on fields, and then it fails with the first
    such error. So if it succeeds, there is a condition for every element of the request's
    conditions and a term for every one of its order, all of them rendered in the text. -/
theorem compile_strict_refines (view : View) (options : CompileOptions) (request : Request) :
    (∀ e, compile view { options with strict := false } request = .error e →
      compile view { options with strict := true } request = .error e) ∧
    (∀ c, compile view { options with strict := false } request = .ok c →
      ∃ o : Outcome view options request c,
        c.dropped.drop (o.asked.countP (· ∉ view.fields c.query.object)) =
          o.refused ++ o.unsorted ∧
        compile view { options with strict := true } request =
          match o.refused ++ o.unsorted with
          | [] => .ok c
          | e :: _ => .error e) ∧
    ∀ c, compile view { options with strict := true } request = .ok c →
      ∃ o : Outcome view options request c, c.dropped = o.disallowed ∧
        List.Forall₂ (·.Renders view c.query.object) o.elements o.conditions ∧
        o.conditions.length = request.elementCount ∧
        List.Forall₂ OrderTerm.Renders o.terms o.order ∧
        o.order.length = request.termCount := by
  rcases compile_modes view options request with
    ⟨e, hlenient, hstrict⟩ | ⟨c, refused, unsorted, haccount, hlenient, hstrict⟩
  · -- both fail
    rw [hlenient, hstrict]
    exact ⟨fun e' he => he, fun c hc => (by cases hc), fun c hc => (by cases hc)⟩
  rw [hlenient, hstrict]
  refine ⟨fun e he => (by cases he), ?_, ?_⟩
  · intro c' hc
    obtain rfl := Except.ok.inj hc
    refine ⟨.ofAccounts haccount, ?_, ?_⟩
    -- errors on fields come first, one for each field that is not allowed
    · rw [← Outcome.length_disallowed, (Outcome.ofAccounts haccount).dropped, List.append_assoc]
      exact List.drop_left
    · cases herrors : refused ++ unsorted <;> simp only [Outcome.ofAccounts, herrors, firstErrorOr]
  · -- a strict success has left nothing out
    intro c' hc
    cases herrors : refused ++ unsorted with
    | cons e errors =>
      rw [herrors] at hc
      cases hc
    | nil =>
      rw [herrors] at hc
      obtain rfl := Except.ok.inj hc
      obtain ⟨rfl, rfl⟩ := List.append_eq_nil_iff.1 herrors
      let o := Outcome.ofAccounts haccount
      have hconditions := o.forall₂_renders rfl
      have horder := o.forall₂_order rfl
      refine ⟨o, ?_, hconditions, ?_, horder, ?_⟩
      · rw [o.dropped]
        exact (List.append_nil _).trans (List.append_nil _)
      · rw [← hconditions.length_eq, o.isElements.length_eq]
      · rw [← horder.length_eq, o.isTerms.length_eq]

/-- The request without the conditions and the term that are not allowed. -/
def Request.salesInEmea : Request :=
  { salesInRegions with
    conditions := some <| .list [.condition .likeNeil, .condition .inEmea]
    orderBy := some <| .one { field := "Name" } }

/-- The first condition that is not allowed ends a strict compilation, and a field that is not does
    not. -/
theorem salesInRegions_strict :
    compile .regionalSales { strict := true } .salesInRegions =
      .error (.malformedCondition 1 (.notCondition (.bool true))) ∧
    ∃ c, compile .regionalSales { strict := true } .salesInEmea = .ok c ∧
      c.text = "SELECT Id, Name FROM Account WHERE Name LIKE 'O''Neil%' AND " ++
        "Region__c IN ('EMEA') ORDER BY Name ASC LIMIT 50" ∧
      c.dropped = [.disallowedField "Account" "Secret__c"] ∧
      ∃ o : Outcome .regionalSales {} .salesInEmea c,
        o.conditions.length = 2 ∧ o.order.length = 1 := by
  refine ⟨rfl, _, rfl, by decide +kernel, rfl, ?_⟩
  obtain ⟨o, -, -, hconditions, -, horder⟩ :=
    (compile_strict_refines .regionalSales {} .salesInEmea).2.2 _ rfl
  exact ⟨o, hconditions, horder⟩

end QueryGate
