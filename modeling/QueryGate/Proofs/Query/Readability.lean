import QueryGate.Proofs.Query.Accounting
import QueryGate.Proofs.Query.QueryReading

/-!
# Compiled queries read back

A view with plain names, ones that hold no delimiter, lets nothing into a query but
those names and literals. So the text of a compiled query is read back as the query,
whatever strings the request holds, and what is read in the place of a value is the
value that the request gives (`compile_readable`).

* `View.HasPlainNames`: what is asked of a view;
* `Operator.expected`: the value that an operator compares with for a value given;
* `Supplies`: a clause gives the field, the operator and the value of a condition.
-/

namespace QueryGate

/-! ## Plain names -/

/-- A character of a text stands in one of its pieces, or parts them. -/
theorem mem_splitWhere {p : Char → Bool} {c : Char} {cs : List Char} (hc : c ∈ cs) :
    p c = true ∨ ∃ piece ∈ Text.splitWhere p cs, c ∈ piece := by
  induction cs with
  | nil => cases hc
  | cons d cs ih =>
    by_cases hd : p d = true
    · rw [Text.splitWhere, if_pos hd]
      rcases List.mem_cons.1 hc with rfl | hc
      · exact .inl hd
      · rcases ih hc with h | ⟨piece, hpiece, hmem⟩
        · exact .inl h
        · exact .inr ⟨piece, List.mem_cons_of_mem _ hpiece, hmem⟩
    · rw [Text.splitWhere, if_neg hd]
      cases hpieces : Text.splitWhere p cs with
      | nil =>
        rcases List.mem_cons.1 hc with rfl | hc
        · exact .inr ⟨[c], List.mem_singleton_self _, List.mem_singleton_self _⟩
        · rcases ih hc with h | ⟨piece, hpiece, -⟩
          · exact .inl h
          · rw [hpieces] at hpiece
            cases hpiece
      | cons first pieces =>
        rcases List.mem_cons.1 hc with rfl | hc
        · exact .inr ⟨c :: first, List.mem_cons_self, List.mem_cons_self⟩
        · rcases ih hc with h | ⟨piece, hpiece, hmem⟩
          · exact .inl h
          · rw [hpieces] at hpiece
            rcases List.mem_cons.1 hpiece with rfl | hpiece
            · exact .inr ⟨d :: piece, List.mem_cons_self, List.mem_cons_of_mem _ hmem⟩
            · exact .inr ⟨piece, List.mem_cons_of_mem _ hpiece, hmem⟩

namespace Name

theorem bounds_of_isAlphanum {c : Char} (hc : c.isAlphanum = true) :
    48 ≤ c.toNat ∧ c.toNat ≤ 122 := by
  change (decide (c.val ≥ 'A'.val ∧ c.val ≤ 'Z'.val) ||
    (decide (c.val ≥ 'a'.val) && decide (c.val ≤ 'z'.val)) || c.isDigit) = true at hc
  simp only [Bool.or_eq_true, Bool.and_eq_true, decide_eq_true_eq, ge_iff_le,
    UInt32.le_iff_toNat_le, Char.isDigit_iff_toNat] at hc
  change ((65 ≤ c.toNat ∧ c.toNat ≤ 90) ∨ (97 ≤ c.toNat ∧ c.toNat ≤ 122)) ∨
    (48 ≤ c.toNat ∧ c.toNat ≤ 57) at hc
  omega

theorem isDelimiter_of_isPart {c : Char} (hc : isPart c = true) : isDelimiter c = false := by
  rw [isPart, Bool.or_eq_true, beq_iff_eq] at hc
  rcases hc with hc | rfl
  · obtain ⟨hlow, hhigh⟩ := bounds_of_isAlphanum hc
    refine isDelimiter_eq_false (lt_of_lt_of_le (by decide) hlow) (by omega) ?_
    rintro rfl
    exact absurd hlow (by decide)
  · decide

theorem isPart_of_isSegment {cs : List Char} (h : isSegment cs = true) {c : Char} (hc : c ∈ cs) :
    isPart c = true := by
  cases cs with
  | nil => cases hc
  | cons d cs =>
    rw [isSegment, Bool.and_eq_true] at h
    rcases List.mem_cons.1 hc with rfl | hc
    · have hstart := h.1
      rw [isStart, Bool.or_eq_true] at hstart
      rw [isPart, Bool.or_eq_true]
      exact hstart.imp_left fun halpha => Bool.or_eq_true_iff.2 (.inl halpha)
    · exact List.all_eq_true.1 h.2 c hc

/-- The names of fields are plain. -/
theorem isPlain_of_isField {s : String} (h : isField s = true) : IsPlain s where
  ne_empty := by
    rintro rfl
    exact absurd h (by decide)
  token := by
    intro c hc
    rcases mem_splitWhere (p := (· == '.')) hc with hdot | ⟨piece, hpiece, hmem⟩
    · obtain rfl := beq_iff_eq.1 hdot
      decide
    · have hsegment := List.all_eq_true.1 h piece hpiece
      exact isDelimiter_of_isPart (isPart_of_isSegment hsegment hmem)

/-- The names of objects are plain. -/
theorem isPlain_of_isObject {s : String} (h : isObject s = true) : IsPlain s where
  ne_empty := by
    rintro rfl
    exact absurd h (by decide)
  token _ hc := isDelimiter_of_isPart (isPart_of_isSegment h hc)

end Name

/-- The names of a view are plain. -/
structure View.HasPlainNames (view : View) : Prop where
  object : ∀ object, view.knows object = true → Name.IsPlain object
  field : ∀ object, ∀ field ∈ view.fields object, Name.IsPlain field

/-! ## The values of literals -/

/-- The value of a literal. -/
def Literal.value : Literal → Json
  | .null => .null
  | .bool b => .bool b
  | .number n => .number n
  | .date s => .string s
  | .string s => .string s

/-- The value of an operand. -/
def Operand.value : Operand → Json
  | .one literal => literal.value
  | .list literals => .array (literals.map Literal.value)

/-- The value that an operator compares with for a value given: a list for a scalar where a list is
    taken, the string of a scalar where a pattern is, and else the value itself. -/
def Operator.expected (op : Operator) (value : Json) : Json :=
  if op.takesList then
    match value with
    | .array items => .array items
    | scalar => .array [scalar]
  else if op = .like then
    match value with
    | .number n => .string (String.ofList n.text)
    | .bool b => .string (toString b)
    | value => value
  else value

namespace Literal

theorem Denotes.value_eq {literal : Literal} {value : Json} (h : literal.Denotes value) :
    literal.value = value := by
  cases h <;> rfl

theorem Denotes.isProper {literal : Literal} {value : Json} (h : literal.Denotes value) :
    literal.IsProper := by
  cases h with
  | date hdate => exact hdate
  | _ => trivial

theorem IsPatternOf.isProper {literal : Literal} {value : Json} (h : literal.IsPatternOf value) :
    literal.IsProper := by
  cases h <;> trivial

theorem isProper_of_mem {literals : List Literal} {values : List Json}
    (h : List.Forall₂ Denotes literals values) : ∀ literal ∈ literals, literal.IsProper := by
  induction h with
  | nil => exact fun _ h => absurd h List.not_mem_nil
  | cons h _ ih =>
    intro literal hliteral
    rcases List.mem_cons.1 hliteral with rfl | hliteral
    · exact h.isProper
    · exact ih literal hliteral

theorem map_value_eq {literals : List Literal} {values : List Json}
    (h : List.Forall₂ Denotes literals values) : literals.map value = values := by
  induction h with
  | nil => rfl
  | cons h _ ih => rw [List.map_cons, h.value_eq, ih]

end Literal

namespace Operand

/-- An operand that denotes a value has the value that is expected. -/
theorem Denotes.value_eq {op : Operator} {operand : Operand} {value : Json}
    (h : operand.Denotes op value) : operand.value = op.expected value := by
  unfold Operator.expected
  cases h with
  | one hlist hlike h =>
    rw [hlist, if_neg Bool.false_ne_true, if_neg hlike]
    exact h.value_eq
  | pattern hlike h =>
    subst hlike
    cases h <;> rfl
  | list hlist hne h =>
    rw [if_pos hlist]
    exact congrArg Json.array (Literal.map_value_eq h)
  | single hlist h =>
    rw [if_pos hlist]
    cases h <;> rfl

theorem Denotes.isProper {op : Operator} {operand : Operand} {value : Json}
    (h : operand.Denotes op value) : operand.IsProper op := by
  cases h with
  | one hlist _ h => exact ⟨hlist, h.isProper⟩
  | pattern hlike h =>
    subst hlike
    exact ⟨rfl, h.isProper⟩
  | list hlist hne h =>
    refine ⟨hlist, ?_, Literal.isProper_of_mem h⟩
    rintro rfl
    cases h
    exact hne rfl
  | single hlist h =>
    refine ⟨hlist, List.cons_ne_nil _ _, fun literal hliteral => ?_⟩
    obtain rfl := List.mem_singleton.1 hliteral
    exact h.isProper

end Operand

/-- A clause supplies what a condition is read back as: its field, its operator and the value that
    the operator expects. -/
inductive Supplies : Clause → Comparison → Prop where
  | intro {field op : String} {value : Json} {c : Comparison}
      (hfield : c.field = Text.trimmed field) (hop : Operator.parse? op = some c.op)
      (hvalue : c.operand.value = c.op.expected value) :
      Supplies (.condition field op (some value)) c

section Readability

variable {view : View} {options : CompileOptions} {request : Request} {c : Compiled}

theorem Admits.supplies {object : String} {clause : Clause} {cmp : Comparison}
    (h : Admits view object clause cmp) : Supplies clause cmp := by
  obtain ⟨hfield, -, -, hparse, -, hoperand⟩ := h
  exact .intro hfield hparse hoperand.value_eq

theorem Admits.isProper (hview : view.HasPlainNames) {object : String} {clause : Clause}
    {cmp : Comparison} (h : Admits view object clause cmp) : cmp.IsProper := by
  obtain ⟨-, -, hallowed, -, -, hoperand⟩ := h
  exact ⟨hview.field object _ hallowed, hoperand.isProper⟩

theorem Sortable.isPlain (hview : view.HasPlainNames) {object field : String}
    (h : Sortable view object options field) : Name.IsPlain field := by
  rw [Sortable] at h
  split_ifs at h
  · exact hview.field object field h
  · exact Name.isPlain_of_isField h

/-- What is compiled on a view with plain names is proper. -/
theorem query_isProper (hview : view.HasPlainNames) (h : compile view options request = .ok c) :
    c.query.IsProper := by
  obtain ⟨refused, unsorted, haccount⟩ := exists_accounts h
  have hobject : c.query.object = request.normalize.object := haccount.object
  constructor
  case fields_ne_nil =>
    intro hnil
    refine not_fruitless_of_ok h fun field hfield hallowed => ?_
    have hmem : field ∈ c.query.fields := by
      rw [haccount.fields, List.mem_eraseDups, List.mem_filter, decide_eq_true_eq, hobject]
      exact ⟨hfield, hallowed⟩
    rw [hnil] at hmem
    cases hmem
  case fields =>
    intro field hfield
    rw [haccount.fields, List.mem_eraseDups, List.mem_filter, decide_eq_true_eq] at hfield
    exact hview.field _ field hfield.2
  case object =>
    rw [hobject]
    exact hview.object _ (Bool.of_not_eq_false fun hknows =>
      not_unknown_of_ok h (knows_eq_false_iff.1 hknows))
  case conditions =>
    intro cmp hcmp
    obtain ⟨item, -, hadmits⟩ := haccount.conditions.exists_of_mem_kept hcmp
    exact hadmits.isProper hview
  case orderBy =>
    intro t ht
    obtain ⟨term, -, -, hsortable⟩ := haccount.orderBy.exists_of_mem_kept ht
    exact hsortable.isPlain hview

/-- The text of a compiled query is read back as the query, by a reader that knows neither the view
    nor the request: as the fields, the object, the conditions, the terms to sort by and the limit
    that the account of the compilation names. In the place of a value stands the value that the
    request supplies, whatever strings it holds. -/
theorem compile_readable (hview : view.HasPlainNames)
    (h : compile view options request = .ok c) :
    Query.ofText? c.text = some c.query ∧
      ∃ refused unsorted, Accounts view options request c refused unsorted ∧
        Sifted (fun item cmp => Supplies item.1.clause cmp)
          (fun item e => Refuses view c.query.object item.2 item.1.clause e)
          request.items.zipIdx c.query.conditions refused := by
  obtain ⟨refused, unsorted, haccount⟩ := exists_accounts h
  refine ⟨Query.ofText?_text (query_isProper hview h), refused, unsorted, haccount, ?_⟩
  exact haccount.conditions.imp (fun _ _ _ hadmits => hadmits.supplies) fun _ _ _ hrefuses =>
    hrefuses.1

end Readability

/-- A view of accounts that have a name, which is compared by `LIKE`. -/
def View.accountNames : View where
  registry := .ofList [("Account", Entry.empty.addOperator "Name" .like)]

/-- A request that tries to end its only literal, and the query with it. -/
def Request.quoteBreaking : Request where
  object := "Account"
  fields := some ["Name"]
  conditions := some <| .list [.condition
    { field := "Name", op := some "like", value := some (.string "x\\' OR Name LIKE '%' LIMIT 1") }]

theorem View.eq_of_accountNames_knows {object : String}
    (h : accountNames.knows object = true) : object = "Account" := by
  by_contra hne
  simp [knows, accountNames, discovered, SortedMap.ofList, SortedMap.contains, Snapshot.empty,
    hne] at h

theorem View.eq_of_mem_accountNames_fields {object field : String}
    (h : field ∈ accountNames.fields object) : field = "Name" := by
  by_cases hobject : object = "Account"
  · simpa [fields, accountNames, discovered, SortedMap.ofList, Capabilities.fields,
      Snapshot.empty, hobject, Entry.addOperator, Entry.empty] using h
  · simp [fields, accountNames, discovered, SortedMap.ofList, Capabilities.fields,
      Snapshot.empty, hobject] at h

theorem View.accountNames_hasPlainNames : accountNames.HasPlainNames where
  object object h := by
    obtain rfl := eq_of_accountNames_knows h
    exact Name.isPlain_of_isObject (by decide)
  field object field h := by
    obtain rfl := eq_of_mem_accountNames_fields h
    exact Name.isPlain_of_isField (by decide)

/-- No quote gets out of its literal. -/
theorem quoteBreaking_readable : View.accountNames.HasPlainNames ∧
    ∃ c, compile .accountNames {} .quoteBreaking = .ok c ∧ Query.ofText? c.text = some c.query ∧
      c.query.conditions =
        [⟨"Name", .like, .one (.string "x\\' OR Name LIKE '%' LIMIT 1")⟩] := by
  have hok : ∃ c, compile .accountNames {} .quoteBreaking = .ok c ∧ c.query.conditions =
      [⟨"Name", .like, .one (.string "x\\' OR Name LIKE '%' LIMIT 1")⟩] := ⟨_, rfl, rfl⟩
  obtain ⟨c, hc, hconditions⟩ := hok
  exact ⟨View.accountNames_hasPlainNames, c, hc,
    (compile_readable View.accountNames_hasPlainNames hc).1, hconditions⟩

end QueryGate
