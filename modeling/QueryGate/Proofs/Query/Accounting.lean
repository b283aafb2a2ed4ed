import Mathlib.Data.List.Induction
import QueryGate.Proofs.Query.Clauses
import QueryGate.Proofs.Query.Sifting

/-!
# The account of a compilation

A compilation says of every part of a request what became of it: a field is selected
once or reported each time it is asked for, a condition and a term to sort by stand in
the query or among the errors, in the order of the request.

* `compile_unknown`, `compile_fruitless`, `compile_course`: a compilation fails for the
  object, or for the fields, or else goes through the conditions and then the order;
* `Accounts`: what a query and its errors are for a request;
* `compile_modes`: a lenient compilation fails for the object and the fields alone, and
  else gives an account; a strict one does the same, up to the first condition or term
  that would be left out.
-/

namespace QueryGate

/-! ## Requests -/

namespace Request

/-- The items of the conditions of a request. -/
def items (r : Request) : List ConditionItem := (r.conditions.map Conditions.items).getD []

/-- The terms of the order of a request. -/
def terms (r : Request) : List OrderTerm := (r.orderBy.map OrderTerms.terms).getD []

theorem normalize_orderBy (r : Request) :
    r.normalize.orderBy = r.terms.map OrderTerm.normalize := rfl

/-- Each item of the conditions is one clause. -/
theorem normalize_clauses (r : Request) :
    r.normalize.clauses = r.items.map ConditionItem.clause := by
  cases h : r.conditions with
  | none => simp [normalize, items, h]
  | some conditions =>
    cases conditions with
    | list items => simp [normalize, Request.items, h, Conditions.clauses, Conditions.items]
    | equalities members =>
      simp only [normalize, items, h, Option.map_some, Option.getD_some, Conditions.clauses,
        Conditions.items, List.map_map]
      rfl

end Request

/-! ## Fields -/

/-- Adding names one by one to the end, unless they are there, keeps the first of equal ones. -/
theorem foldl_appendNew (names : List String) :
    names.foldl Entry.appendNew [] = names.eraseDups := by
  induction names using List.reverseRecOn with
  | nil => rfl
  | append_singleton names name ih =>
    rw [List.foldl_append, List.foldl_cons, List.foldl_nil, ih, List.eraseDups_append,
      Entry.appendNew]
    by_cases h : name ∈ names
    · simp [h, List.removeAll]
    · simp [h, List.removeAll, List.eraseDups_cons]

theorem nodup_eraseDups {α : Type} [BEq α] [LawfulBEq α] (names : List α) :
    names.eraseDups.Nodup := by
  induction names using List.reverseRecOn with
  | nil => exact List.nodup_nil
  | append_singleton names name ih =>
    rw [List.eraseDups_append]
    by_cases h : name ∈ names
    · simpa [h, List.removeAll] using ih
    · rw [List.nodup_append]
      refine ⟨ih, by simp [h, List.removeAll, List.eraseDups_cons], ?_⟩
      rintro a ha b hb rfl
      obtain rfl : a = name := by simpa [h, List.removeAll] using List.mem_eraseDups.1 hb
      exact h (List.mem_eraseDups.1 ha)

theorem eraseDups_of_nodup {α : Type} [BEq α] [LawfulBEq α] {names : List α} (h : names.Nodup) :
    names.eraseDups = names := by
  induction names with
  | nil => rfl
  | cons name names ih =>
    obtain ⟨hname, hnames⟩ := List.nodup_cons.1 h
    have hfilter : (names.filter fun other => !other == name) = names := by
      refine List.filter_eq_self.2 fun other hother => ?_
      rw [Bool.not_eq_true', beq_eq_false_iff_ne]
      rintro rfl
      exact hname hother
    rw [List.eraseDups_cons, hfilter, ih hnames]

theorem Selection.allowed_eq (allowed : Names) (requested : List String) :
    (Selection.ofFields allowed requested).allowed =
      (requested.filter (· ∈ allowed)).eraseDups := foldl_appendNew _

/-! ## The course of a compilation -/

/-- What a compilation answers once it has gone through the conditions and the order: for each,
    what is kept and what is dropped. -/
def assemble (view : View) (options : CompileOptions) (request : NormalRequest)
    (conditions : List Comparison × List CompileError)
    (order : List (String × Direction) × List CompileError) : Compiled where
  query := {
    fields := ((requestedFields view request).filter (· ∈ view.fields request.object)).eraseDups
    object := request.object
    conditions := conditions.1
    orderBy := order.1
    limit := options.limitOf request }
  dropped :=
    ((requestedFields view request).filter (· ∉ view.fields request.object)).map
      (.disallowedField request.object) ++ conditions.2 ++ order.2

section Course

variable {view : View} {options : CompileOptions} {request : Request}

/-- No source knows the object. -/
def Unknown (view : View) (request : Request) : Prop :=
  view.registry.contains request.normalize.object = false ∧
    view.discovered.contains request.normalize.object = false

/-- None of the fields asked for is allowed. -/
def Fruitless (view : View) (request : Request) : Prop :=
  ∀ field ∈ requestedFields view request.normalize, field ∉ view.fields request.normalize.object

theorem knows_eq_false_iff :
    view.knows request.normalize.object = false ↔ Unknown view request := by
  rw [View.knows, Bool.or_eq_false_iff, Unknown]

theorem allowed_isEmpty_iff :
    (Selection.ofFields (view.fields request.normalize.object)
      (requestedFields view request.normalize)).allowed.isEmpty = true ↔
        Fruitless view request := by
  rw [Selection.allowed_eq, List.isEmpty_iff, Fruitless, List.eq_nil_iff_forall_not_mem]
  simp only [List.mem_eraseDups, List.mem_filter, decide_eq_true_eq, not_and]

/-- A compilation fails for an object that no source knows. -/
theorem compile_unknown (hunknown : Unknown view request) :
    compile view options request = .error (.unknownObject request.normalize.object) := by
  dsimp only [compile, compileNormal]
  rw [knows_eq_false_iff.2 hunknown, Bool.not_false, if_pos rfl]

/-- A compilation fails for fields of which none is allowed. -/
theorem compile_fruitless (hknown : ¬Unknown view request) (hfruitless : Fruitless view request) :
    compile view options request = .error
      (.noAllowedFields request.normalize.object (requestedFields view request.normalize)) := by
  have hknows := Bool.of_not_eq_false fun h => hknown (knows_eq_false_iff.1 h)
  dsimp only [compile, compileNormal]
  rw [hknows, Bool.not_true, if_neg Bool.false_ne_true, if_pos (allowed_isEmpty_iff.2 hfruitless)]

/-- A compilation that does not fail so goes through the conditions, and then the order. -/
theorem compile_course (hknown : ¬Unknown view request) (hfields : ¬Fruitless view request) :
    compile view options request =
      (gather options.strict
        (comparisons view request.normalize.object request.normalize.clauses)).bind
          fun conditions => (gather options.strict (request.normalize.orderBy.map
            (orderTerm view request.normalize.object options))).map fun order =>
              assemble view options request.normalize conditions order := by
  have hknows := Bool.of_not_eq_false fun h => hknown (knows_eq_false_iff.1 h)
  dsimp only [compile, compileNormal]
  rw [hknows, Bool.not_true, if_neg Bool.false_ne_true,
    if_neg fun h => hfields (allowed_isEmpty_iff.1 h), Selection.allowed_eq]
  cases gather options.strict
      (comparisons view request.normalize.object request.normalize.clauses) with
  | error e => rfl
  | ok conditions =>
    cases gather options.strict (request.normalize.orderBy.map
        (orderTerm view request.normalize.object options)) with
    | error e => rfl
    | ok order => rfl

end Course

/-! ## The account -/

/-- A field may be sorted by: it is allowed, or, where any field name will do, it is one. -/
def Sortable (view : View) (object : String) (options : CompileOptions) (field : String) : Prop :=
  if options.validateOrderBy then field ∈ view.fields object else Name.isField field = true

section Order

variable {view : View} {object : String} {options : CompileOptions} {term : String × Direction}

theorem orderTerm_eq_ok {t : String × Direction} (h : orderTerm view object options term = .ok t) :
    t = term ∧ Sortable view object options term.1 := by
  rw [orderTerm] at h
  rw [Sortable]
  split_ifs at h ⊢ with hvalidate hallowed hname
  · exact ⟨(Except.ok.inj h).symm, of_decide_eq_true hallowed⟩
  · exact ⟨(Except.ok.inj h).symm, hname⟩

theorem orderTerm_eq_error {e : CompileError} (h : orderTerm view object options term = .error e) :
    e = .disallowedOrderBy term.1 ∧ ¬Sortable view object options term.1 := by
  rw [orderTerm] at h
  rw [Sortable]
  split_ifs at h ⊢ with hvalidate hallowed hname
  · exact ⟨(Except.error.inj h).symm, fun hmem => hallowed (decide_eq_true hmem)⟩
  · exact ⟨(Except.error.inj h).symm, hname⟩

end Order

/-- The account of a compilation: what the query has of the request, and for what reasons the
    rest is `refused` as a condition, or left `unsorted`. -/
structure Accounts (view : View) (options : CompileOptions) (request : Request) (c : Compiled)
    (refused unsorted : List CompileError) : Prop where
  /-- The object is the one asked for. -/
  object : c.query.object = Text.trimmed request.object
  /-- The fields are the allowed ones of those asked for, each where it first occurs. -/
  fields : c.query.fields = ((requestedFields view request.normalize).filter
    (· ∈ view.fields c.query.object)).eraseDups
  /-- The limit is the one of the options. -/
  limit : c.query.limit = options.limitOf request.normalize
  /-- Every item of the conditions is a condition or an error. -/
  conditions : Sifted (fun item cmp => Admits view c.query.object item.1.clause cmp)
    (fun item e => Refuses view c.query.object item.2 item.1.clause e ∧
      ∀ cmp, ¬Admits view c.query.object item.1.clause cmp)
    request.items.zipIdx c.query.conditions refused
  /-- Every term of the order is a term or an error. -/
  orderBy : Sifted
    (fun term t => t = term.normalize ∧ Sortable view c.query.object options t.1)
    (fun term e => e = .disallowedOrderBy term.normalize.1 ∧
      ¬Sortable view c.query.object options term.normalize.1)
    request.terms c.query.orderBy unsorted
  /-- The errors are those on the fields asked for, one each time, on conditions and on terms. -/
  dropped : c.dropped = ((requestedFields view request.normalize).filter
    (· ∉ view.fields c.query.object)).map (.disallowedField c.query.object) ++ refused ++ unsorted

section Account

variable {view : View} {options : CompileOptions} {request : Request}

/-- The clauses of a request, in the form in which they are sifted. -/
theorem comparisons_items (object : String) :
    comparisons view object request.normalize.clauses =
      request.items.zipIdx.map fun item => comparison view object item.2 item.1.clause := by
  rw [comparisons, Request.normalize_clauses, List.mapIdx_eq_zipIdx_map, List.zipIdx_map,
    List.map_map]
  rfl

/-- What is gathered to the end is an account. -/
theorem accounts_assemble {strict : Bool} {conditions : List Comparison × List CompileError}
    {order : List (String × Direction) × List CompileError}
    (hconditions : gather strict
      (comparisons view request.normalize.object request.normalize.clauses) = .ok conditions)
    (horder : gather strict (request.normalize.orderBy.map
      (orderTerm view request.normalize.object options)) = .ok order) :
    Accounts view options request (assemble view options request.normalize conditions order)
      conditions.2 order.2 where
  object := rfl
  fields := rfl
  limit := rfl
  conditions := by
    rw [comparisons_items] at hconditions
    refine (Sifted.of_gather hconditions).of_map.imp (fun item _ cmp h => ?_) fun item _ e h => ?_
    · exact comparison_ok_iff.1 h
    · exact refuses_of_comparison_error h
  orderBy := by
    rw [Request.normalize_orderBy, List.map_map] at horder
    refine (Sifted.of_gather horder).of_map.imp (fun term _ t h => ?_) fun term _ e h => ?_
    · obtain ⟨rfl, hsortable⟩ := orderTerm_eq_ok h
      exact ⟨rfl, hsortable⟩
    · exact orderTerm_eq_error h
  dropped := rfl

theorem not_unknown_of_ok {c : Compiled} (h : compile view options request = .ok c) :
    ¬Unknown view request := by
  intro hunknown
  rw [compile_unknown hunknown] at h
  cases h

theorem not_fruitless_of_ok {c : Compiled} (h : compile view options request = .ok c) :
    ¬Fruitless view request := by
  intro hfruitless
  rw [compile_fruitless (not_unknown_of_ok h) hfruitless] at h
  cases h

/-- A query has an account, however strict the compilation was. -/
theorem exists_accounts {strict : Bool} {c : Compiled}
    (h : compile view { options with strict } request = .ok c) :
    ∃ refused unsorted, Accounts view options request c refused unsorted := by
  rw [compile_course (not_unknown_of_ok h) (not_fruitless_of_ok h)] at h
  cases hconditions : gather strict
      (comparisons view request.normalize.object request.normalize.clauses) with
  | error e =>
    rw [hconditions] at h
    cases h
  | ok conditions =>
    cases horder : gather strict (request.normalize.orderBy.map
        (orderTerm view request.normalize.object { options with strict })) with
    | error e =>
      rw [hconditions, horder] at h
      cases h
    | ok order =>
      rw [hconditions, horder] at h
      cases h
      exact ⟨_, _, accounts_assemble hconditions horder⟩

theorem exists_accounts_of_ok {c : Compiled} (h : compile view options request = .ok c) :
    ∃ refused unsorted, Accounts view options request c refused unsorted := by
  have hmode : compile view { options with strict := options.strict } request = .ok c := h
  exact exists_accounts hmode

/-- If the object is known and some field is allowed, a lenient compilation succeeds, and a strict
    one answers the same unless there is an error behind those on fields. -/
theorem exists_assemble (options : CompileOptions) (hknown : ¬Unknown view request)
    (hfields : ¬Fruitless view request) :
    ∃ conditions order,
      Accounts view options request (assemble view options request.normalize conditions order)
        conditions.2 order.2 ∧
      compile view { options with strict := false } request =
        .ok (assemble view options request.normalize conditions order) ∧
      compile view { options with strict := true } request =
        firstErrorOr (assemble view options request.normalize conditions order)
          (conditions.2 ++ order.2) := by
  obtain ⟨conditions, refused, hconditions⟩ := exists_gather_lenient
    (comparisons view request.normalize.object request.normalize.clauses)
  obtain ⟨order, unsorted, horder⟩ := exists_gather_lenient
    (request.normalize.orderBy.map (orderTerm view request.normalize.object options))
  have hcourse : ∀ strict, compile view { options with strict } request =
      (gather strict (comparisons view request.normalize.object request.normalize.clauses)).bind
        fun conditions => (gather strict (request.normalize.orderBy.map
          (orderTerm view request.normalize.object options))).map fun order =>
            assemble view options request.normalize conditions order :=
    fun strict => compile_course hknown hfields
  refine ⟨(conditions, refused), (order, unsorted), accounts_assemble hconditions horder, ?_, ?_⟩
  · rw [hcourse, hconditions, horder]
    rfl
  · rw [hcourse, gather_strict hconditions, gather_strict horder]
    cases refused with
    | nil =>
      cases unsorted with
      | nil => rfl
      | cons e errors => rfl
    | cons e errors => rfl

/-- A lenient and a strict compilation fail together, or the lenient one has an account, in which
    the strict one fails with the first error on a condition or a term, if there is one. -/
theorem compile_modes (view : View) (options : CompileOptions) (request : Request) :
    (∃ e, compile view { options with strict := false } request = .error e ∧
      compile view { options with strict := true } request = .error e) ∨
    ∃ c refused unsorted, Accounts view options request c refused unsorted ∧
      compile view { options with strict := false } request = .ok c ∧
      compile view { options with strict := true } request =
        firstErrorOr c (refused ++ unsorted) := by
  by_cases hunknown : Unknown view request
  · exact .inl ⟨_, compile_unknown hunknown, compile_unknown hunknown⟩
  by_cases hfruitless : Fruitless view request
  · exact .inl ⟨_, compile_fruitless hunknown hfruitless, compile_fruitless hunknown hfruitless⟩
  · obtain ⟨conditions, order, haccount, hlenient, hstrict⟩ :=
      exists_assemble options hunknown hfruitless
    exact .inr ⟨_, _, _, haccount, hlenient, hstrict⟩

end Account

end QueryGate
