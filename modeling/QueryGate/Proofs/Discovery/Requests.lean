import QueryGate.Proofs.Capability.Seeds
import QueryGate.Proofs.Discovery.Hygiene
import QueryGate.Proofs.Discovery.Payloads
import QueryGate.Proofs.Json.Canonical
import QueryGate.Proofs.Query.Readability
import QueryGate.Proofs.Request.Rereading

/-!
# Requests that are mined

A payload that is a request for the object of its document teaches what it asks for: the
fields it selects, and the operators of its conditions (`Payload.extract_teaches`). Once
the entry is merged into a snapshot, in whatever order, the request compiles, and none of
its fields and operators is refused (`compile_of_mined`).

Payloads and requests are read by different means. A payload is looked at part by part,
passing over what is out of place, while a request is read as a whole and brought into
normal form. Both see the same conditions (`Payload.Uses`).
-/

namespace QueryGate

open Json

/-- What one item of a list brings about, and no item undoes, holds in the end. -/
theorem foldl_of_mem {α β : Type} {f : β → α → β} {P : β → Prop} {l : List α} {a : α} (ha : a ∈ l)
    (hset : ∀ b, P (f b a)) (hkeep : ∀ b a', P b → P (f b a')) (b : β) : P (l.foldl f b) := by
  obtain ⟨before, after, rfl⟩ := List.append_of_mem ha
  rw [List.foldl_append, List.foldl_cons]
  exact List.foldlRecOn _ _ (hset _) fun b hb a' _ => hkeep b a' hb

/-! ## Entries -/

namespace Entry

/-- A field may be selected, and has an operator of its own. -/
def Accepts (e : Entry) (field : String) (op : Operator) : Prop :=
  field ∈ e.fields ∧ e.Records field op

/-- An entry has been merged with others, before or after them. -/
inductive MergedInto (e : Entry) : Entry → Prop where
  | self : MergedInto e e
  | before {found : Entry} (h : MergedInto e found) (other : Entry) :
      MergedInto e (found.merge other)
  | after {found : Entry} (h : MergedInto e found) (other : Entry) :
      MergedInto e (other.merge found)

variable {e other found : Entry} {field : String} {op : Operator}

theorem records_merge : (e.merge other).Records field op ↔
    e.Records field op ∨ other.Records field op := by
  simp only [Records, get?_merge_operators]
  cases other.operators.get? field <;> cases e.operators.get? field <;> simp

/-- Merging keeps the fields that may be selected. -/
theorem MergedInto.mem_fields (h : e.MergedInto found) (hfield : field ∈ e.fields) :
    field ∈ found.fields := by
  induction h with
  | self => exact hfield
  | before _ other ih => exact mem_merge_fields.2 (.inl ih)
  | after _ other ih => exact mem_merge_fields.2 (.inr ih)

/-- Merging keeps what is accepted. -/
theorem MergedInto.accepts (h : e.MergedInto found) (hop : e.Accepts field op) :
    found.Accepts field op := by
  refine ⟨h.mem_fields hop.1, ?_⟩
  induction h with
  | self => exact hop.2
  | before _ other ih => exact records_merge.2 (.inl ih)
  | after _ other ih => exact records_merge.2 (.inr ih)

theorem Accepts.mentions (h : e.Accepts field op) : e.mentions field = true := by
  rw [Entry.mentions, Bool.or_eq_true, decide_eq_true_eq]
  exact .inl h.1

theorem Accepts.mem_operatorsOf (h : e.Accepts field op) : op ∈ e.operatorsOf field := by
  obtain ⟨-, ops, hops, hop⟩ := h
  rw [operatorsOf, hops]
  exact hop

end Entry

/-! ## What a payload asks for -/

namespace Payload

/-- The conditions of a payload use an operator on a field. -/
inductive Uses : Option Json → String → Operator → Prop where
  /-- An object has the field as a key, and means that it be equal to something. -/
  | equality {members : List (String × Json)} {member : String × Json} (h : member ∈ members) :
      Uses (some (.object members)) member.1 .equal
  /-- An item of a list has the field, and the operator unless it means `=`. -/
  | condition {items : List Json} {item : Json} {field : String} {op : Operator} (h : item ∈ items)
      (hfield : item.get? "field" = some (.string field))
      (hop : Operator.parse? (((item.get? "op").bind Json.string?).getD "=") = some op) :
      Uses (some (.array items)) field op

/-- A fenced block of JSON in a document holds a payload. -/
def Held (document : Document) (payload : Json) : Prop :=
  ∃ block ∈ blocks document.text, ∃ body ∈ block.json?,
    ∃ value ∈ Json.parse? (String.ofList body), payload ∈ payloads value

/-- A payload in a document is in canonical form. -/
theorem Held.exists_canonical {document : Document} {payload : Json} (h : Held document payload) :
    ∃ u : Json, u.canonical = payload := by
  obtain ⟨block, -, body, -, value, hvalue, hpayload⟩ := h
  obtain ⟨u, -, hu⟩ := Option.map_eq_some_iff.1 (Option.mem_def.1 hvalue)
  cases value with
  | array items =>
    obtain ⟨v, hv⟩ := Json.exists_of_mem_canonical_array hu hpayload
    exact ⟨v, hv.symm⟩
  | _ => exact ⟨u, hu.trans (List.mem_singleton.1 hpayload).symm⟩

namespace Harvest

variable {P : Harvest → Prop} {object field : String} {op : Operator} {s : Harvest}

theorem closed_contributed : Closed fun h => h.contributed = true :=
  { field := fun _ _ _ _ => rfl, operator := fun _ _ _ _ _ => rfl, report := fun _ _ h => h }

theorem closed_fields (field : String) : Closed fun h => field ∈ h.findings.entry.fields where
  field _ _ _ h := SortedSet.mem_insert.2 (.inr h)
  operator _ _ _ _ h := SortedSet.mem_insert.2 (.inr h)
  report _ _ h := h

theorem closed_accepts (field : String) (op : Operator) :
    Closed fun h => h.findings.entry.Accepts field op where
  field _ _ _ h := ⟨SortedSet.mem_insert.2 (.inr h.1), h.2⟩
  operator _ _ _ _ h := ⟨SortedSet.mem_insert.2 (.inr h.1), Entry.records_addOperator.2 (.inr h.2)⟩
  report _ _ h := h

theorem accepts_contribute (s : Harvest) (field : String) (op : Operator) :
    (s.contribute fun e => e.addOperator field op).findings.entry.Accepts field op :=
  ⟨SortedSet.mem_insert.2 (.inl rfl), Entry.records_addOperator.2 (.inl rfl)⟩

/-- The conditions of a payload teach the operators they use. -/
theorem accepts_addWhere {conditions : Option Json} (h : Uses conditions field op)
    (hfield : Name.isField field = true) :
    (s.addWhere conditions).findings.entry.Accepts field op := by
  have hclosed := closed_accepts field op
  cases h with
  | @equality members member hmember =>
    refine foldl_of_mem (P := fun s : Harvest => s.findings.entry.Accepts member.1 .equal) hmember
      (fun s => ?_) (fun s member' hs => hclosed.addEquality hs member') s
    rw [addEquality, if_pos hfield]
    exact accepts_contribute s member.1 .equal
  | @condition items item _ _ hitem hstated hop =>
    refine foldl_of_mem (P := fun s : Harvest => s.findings.entry.Accepts field op) hitem
      (fun s => ?_) (fun s item' hs => hclosed.addCondition hs item') s
    rw [addCondition, hstated, Option.bind_some, Json.string?, Option.filter_some, if_pos hfield]
    dsimp only
    rw [hop]
    exact accepts_contribute s field op

/-- What a payload brings about, wherever it stands in a document, is found in the end. -/
theorem Closed.of_held (hP : Closed P) {document : Document} {payload : Json}
    (hheld : Held document payload)
    (hset : ∀ s : Harvest, P (s.addPayload document.object payload)) :
    P (Payload.harvest document) := by
  obtain ⟨block, hblock, body, hbody, value, hvalue, hpayload⟩ := hheld
  obtain ⟨number, hnumber⟩ : ∃ number, (block, number) ∈ (blocks document.text).zipIdx 1 := by
    rw [← List.zipIdx_map_fst 1 (blocks document.text)] at hblock
    obtain ⟨⟨_, number⟩, hnumber, rfl⟩ := List.mem_map.1 hblock
    exact ⟨number, hnumber⟩
  refine foldl_of_mem (P := P) hnumber (fun s => ?_)
    (fun s block' hs => hP.addBlock hs document.object block') {}
  rw [Harvest.addBlock, Option.mem_def.1 hbody]
  dsimp only
  rw [Option.mem_def.1 hvalue]
  cases value with
  | array items =>
    exact foldl_of_mem (P := P) hpayload hset
      (fun s payload' hs => hP.addPayload hs document.object payload') s
  | _ =>
    obtain rfl := List.mem_singleton.1 hpayload
    exact hset s

end Harvest

/-- A payload for the object of its document teaches the fields it selects and the operators of its
    conditions. -/
theorem extract_teaches {document : Document} {payload : Json} {names : List String}
    (hheld : Held document payload)
    (hobject : payload.get? "object" = none ∨
      payload.get? "object" = some (.string document.object))
    (hfields : payload.get? "fields" = some (.ofStrings names)) (hne : names ≠ [])
    (hnames : ∀ name ∈ names, Name.isField name = true) :
    (∀ name ∈ names, name ∈ (extract document).entry.fields) ∧
      ∀ field op, Uses (payload.get? "where") field op → Name.isField field = true →
        (extract document).entry.Accepts field op := by
  have hpayload : ∀ s : Harvest, s.addPayload document.object payload =
      ((names.map Json.string).foldl Harvest.addField s).addWhere (payload.get? "where") := by
    intro s
    have hown :
        ((payload.get? "object").bind Json.string?).filter (· ≠ document.object) = none := by
      rcases hobject with h | h <;> simp [h, Json.string?]
    rw [Harvest.addPayload, hown, hfields]
    rfl
  -- each field of the payload is added by its item, and contributes
  have hfield : ∀ {P : Harvest → Prop} {name}, Harvest.Closed P → name ∈ names →
      (∀ s : Harvest, P (s.contribute fun e => e.addField name)) → P (harvest document) := by
    intro P name hP hname hset
    refine hP.of_held hheld fun s => ?_
    rw [hpayload]
    refine hP.addWhere (foldl_of_mem (P := P) (List.mem_map_of_mem hname) (fun s => ?_)
      (fun s value hs => hP.addField hs value) s) _
    rw [Harvest.addField, Json.string?, Option.filter_some, if_pos (hnames name hname)]
    exact hset s
  have hcontributed : (harvest document).contributed = true := by
    obtain ⟨name, hname⟩ := List.exists_mem_of_ne_nil names hne
    exact hfield Harvest.closed_contributed hname fun _ => rfl
  have hextract : (extract document).entry = (harvest document).findings.entry := by
    dsimp only [extract]
    rw [if_pos hcontributed]
  rw [hextract]
  refine ⟨fun name hname => ?_, fun field op huses hfield => ?_⟩
  · exact hfield (Harvest.closed_fields name) hname fun _ => SortedSet.mem_insert.2 (.inl rfl)
  · refine (Harvest.closed_accepts field op).of_held hheld fun s => ?_
    rw [hpayload]
    exact Harvest.accepts_addWhere huses hfield

end Payload

/-! ## What a request asks for -/

/-- A condition of a payload: an object with the name of a field, and with an operator unless it
    means `=`. -/
def Payload.IsCondition (item : Json) : Prop :=
  ∃ members field, item = .object members ∧ members.lookup "field" = some (.string field) ∧
    Name.isField field = true ∧ (members.lookup "op" = none ∨ members.lookup "op" = some .null ∨
      ∃ text op, members.lookup "op" = some (.string text) ∧ Operator.parse? text = some op)

/-- The conditions of a payload are in order: there are none, or an object whose keys are the names
    of fields, or a list of conditions. -/
inductive Payload.IsWhere : Option Json → Prop where
  | absent : IsWhere none
  | null : IsWhere (some .null)
  | equalities {members : List (String × Json)}
      (h : ∀ member ∈ members, Name.isField member.1 = true) : IsWhere (some (.object members))
  | conditions {items : List Json} (h : ∀ item ∈ items, IsCondition item) :
      IsWhere (some (.array items))

/-- A payload is read as a request: for its object, or, if it does not name any, for that of its
    document. -/
def Payload.ReadsAs (object : String) (members : List (String × Json)) (request : Request) : Prop :=
  members.lookup "object" = some (.string object) ∧
      Request.ofJson? (.object members) = some request ∨
    members.lookup "object" = none ∧
      Request.ofJson? (.object (("object", .string object) :: members)) = some request

/-- A clause states a condition with the name of a field and an operator that the conditions of a
    payload use on it. -/
def Clause.States (conditions : Option Json) (clause : Clause) : Prop :=
  ∃ field op value parsed, clause = .condition field op value ∧ Name.isField field = true ∧
    Operator.parse? op = some parsed ∧ Payload.Uses conditions field parsed

section Reading

variable {members : List (String × Json)} {conditions : Option Json}

/-- A condition of a payload is read as a clause that states it. -/
theorem Payload.IsCondition.states {items : List Json} {value item : Json}
    (h : IsCondition item) (hvalue : value.canonical = item) (hitem : item ∈ items) :
    (ConditionItem.ofJson item).clause.States (some (.array items)) := by
  obtain ⟨members, field, rfl, hfield, hname, hop⟩ := h
  have hmember := Json.member?_eq (Json.ascending_of_canonical hvalue).nodup_keys
  have hget : ∀ key, (Json.object members).get? key = members.lookup key := fun _ => rfl
  have hread : ∀ op, Json.optionalString? (members.lookup "op") = some op →
      (ConditionItem.ofJson (.object members)).clause = .condition field (op.getD "=")
        ((members.lookup "value").map Json.canonical) := by
    intro op hop
    have hcondition : Condition.ofJson? (.object members) =
        some ⟨field, op, (members.lookup "value").map Json.canonical⟩ := by
      simp [Condition.ofJson?, hmember, Condition.ofParts?, hfield, hop, Json.string?]
    rw [ConditionItem.ofJson, hcondition]
    rfl
  have hequal : Operator.parse? "=" = some .equal := by decide
  rcases hop with hop | hop | ⟨text, op, hop, hparse⟩
  · refine ⟨field, "=", _, .equal, hread none (by rw [hop]; rfl), hname, hequal, ?_⟩
    exact .condition hitem ((hget _).trans hfield) (by rw [hget, hop]; exact hequal)
  · refine ⟨field, "=", _, .equal, hread none (by rw [hop]; rfl), hname, hequal, ?_⟩
    exact .condition hitem ((hget _).trans hfield) (by rw [hget, hop]; exact hequal)
  · refine ⟨field, text, _, op, hread (some text) (by rw [hop]; rfl), hname, hparse, ?_⟩
    exact .condition hitem ((hget _).trans hfield) (by rw [hget, hop]; exact hparse)

/-- The conditions of a payload are read as clauses that state them. -/
theorem Payload.IsWhere.states (h : IsWhere conditions)
    (hcanonical : ∀ value ∈ conditions, ∃ u : Json, u.canonical = value)
    {read : Option Conditions}
    (hread : Request.optional? Conditions.ofJson? conditions = some read) :
    ∀ item ∈ (read.map Conditions.items).getD [], item.clause.States conditions := by
  intro item hitem
  cases h with
  | absent =>
    cases hread
    cases hitem
  | null =>
    cases hread
    cases hitem
  | @equalities members h =>
    cases hread
    obtain ⟨⟨field, value⟩, hmember, rfl⟩ := List.mem_map.1 hitem
    obtain ⟨u, hmem, -⟩ := Json.exists_of_mem_canonicalMembers hmember
    exact ⟨field, "=", some value, .equal, rfl, h _ hmem, by decide, .equality hmem⟩
  | @conditions items h =>
    cases hread
    obtain ⟨value, hvalue, rfl⟩ := List.mem_map.1 hitem
    obtain ⟨u, hu⟩ := hcanonical _ rfl
    obtain ⟨v, hv⟩ := Json.exists_of_mem_canonical_array hu hvalue
    exact (h value hvalue).states hv.symm hvalue

/-- The parts of the request that a payload is read as. -/
theorem Payload.ReadsAs.parts {object : String} {names : List String} {request : Request}
    (h : ReadsAs object members request) (hmembers : (members.map (·.1)).Nodup)
    (hfields : members.lookup "fields" = some (.ofStrings names)) :
    request.object = object ∧ request.fields = some names ∧
      Request.optional? Conditions.ofJson? (members.lookup "where") = some request.conditions := by
  have hparts : ∀ ms : List (String × Json), (ms.map (·.1)).Nodup →
      ms.lookup "object" = some (.string object) →
      ms.lookup "fields" = some (.ofStrings names) →
      Request.ofJson? (.object ms) = some request →
      request.object = object ∧ request.fields = some names ∧
        Request.optional? Conditions.ofJson? (ms.lookup "where") = some request.conditions := by
    intro ms hms hobject hfields hrequest
    have hstrings : Request.optional? (fun value => value.array?.bind (·.mapM Json.string?))
        (some (.ofStrings names)) = some (some names) :=
      congrArg (Option.map some) (Json.strings?_ofStrings names)
    simp only [Request.ofJson?, Json.member?_eq hms, hobject, hfields, Request.ofParts?,
      Option.bind_eq_bind, Option.bind_some, Json.string?, hstrings, Option.bind_eq_some_iff]
      at hrequest
    obtain ⟨read, hread, order, -, hrequest⟩ := hrequest
    cases hrequest
    exact ⟨rfl, rfl, hread⟩
  rcases h with ⟨hobject, hrequest⟩ | ⟨hobject, hrequest⟩
  · exact hparts members hmembers hobject hfields hrequest
  · have hmissing : "object" ∉ members.map (·.1) := fun hmem => by
      obtain ⟨member, hmember, hkey⟩ := List.mem_map.1 hmem
      simpa [hkey] using List.lookup_eq_none_iff.1 hobject member hmember
    exact hparts (("object", .string object) :: members) (List.nodup_cons.2 ⟨hmissing, hmembers⟩)
      rfl hfields hrequest

end Reading

/-! ## Compiling -/

section Compiling

variable {view : View} {options : CompileOptions} {request : Request} {object : String} {e : Entry}

theorem Text.trimmed_of_isPlain {s : String} (h : Name.IsPlain s) : Text.trimmed s = s := by
  have hblank : ∀ c ∈ s.toList, ¬Text.isBlank c = true := fun c hc hblank => by
    have htoken := h.token c hc
    simp [isDelimiter, hblank] at htoken
  have hdrop : ∀ cs : List Char, (∀ c ∈ cs, ¬Text.isBlank c = true) →
      cs.dropWhile Text.isBlank = cs := by
    intro cs hcs
    cases cs with
    | nil => rfl
    | cons c cs => exact List.dropWhile_cons_of_neg (hcs c List.mem_cons_self)
  rw [Text.trimmed, Text.trim, Text.trimStart, hdrop _ hblank, Text.dropEndWhile,
    hdrop _ fun c hc => hblank c (List.mem_reverse.1 hc), List.reverse_reverse,
    String.ofList_toList]

/-- An operator that was discovered on a field is allowed by the view. -/
theorem Entry.Accepts.mem_operators {field : String} {op : Operator}
    (h : (view.found object).Accepts field op) :
    field ∈ view.fields object ∧ op ∈ view.operators object field := by
  have hfield : field ∈ view.fields object := View.mem_fields_iff.2 (.inr h.1)
  exact ⟨hfield, (View.mem_operators_iff hfield).2 (.inr ⟨h.mentions, h.mem_operatorsOf⟩)⟩

/-- A clause with a field and an operator that are allowed is not refused for either. -/
theorem Refuses.not_disallowed {conditions : Option Json} {clause : Clause} {index : ℕ}
    {error : CompileError} (h : Refuses view object index clause error)
    (hstates : clause.States conditions)
    (haccepts : ∀ field op, Payload.Uses conditions field op → Name.isField field = true →
      (view.found object).Accepts field op) :
    (∀ object field, error ≠ .disallowedField object field) ∧
      ∀ field op, error ≠ .disallowedOperator field op := by
  obtain ⟨field, op, value, parsed, rfl, hfield, hparse, huses⟩ := hstates
  obtain ⟨hallowed, hop⟩ := (haccepts field parsed huses hfield).mem_operators
  have htrim := Text.trimmed_of_isPlain (Name.isPlain_of_isField hfield)
  cases h with
  | emptyField => exact ⟨by rintro _ _ ⟨⟩, by rintro _ _ ⟨⟩⟩
  | noValue => exact ⟨by rintro _ _ ⟨⟩, by rintro _ _ ⟨⟩⟩
  | field _ hnot => exact absurd hallowed (htrim ▸ hnot)
  | operator _ _ hnot => exact absurd hop (htrim ▸ hnot parsed hparse)
  | operand => exact ⟨by rintro _ _ ⟨⟩, by rintro _ _ ⟨⟩⟩

/-- A request for fields that were discovered, under conditions that only use what was discovered,
    compiles, and nothing in it is refused for its field or its operator but terms to sort by. -/
theorem compile_of_discovered {names : List String} {conditions : Option Json}
    (hdiscovered : view.discovered.get? object = some e) (hobject : Name.isObject object = true)
    (hrequest : request.object = object) (hselects : request.fields = some names)
    (hne : names ≠ []) (hnames : ∀ name ∈ names, Name.isField name = true)
    (hfields : ∀ name ∈ names, name ∈ e.fields)
    (hstates : ∀ item ∈ request.items, item.clause.States conditions)
    (haccepts : ∀ field op, Payload.Uses conditions field op → Name.isField field = true →
      e.Accepts field op) :
    ∃ c, compile view { options with strict := false } request = .ok c ∧
      c.query.fields = names.eraseDups ∧ ∀ error ∈ c.dropped,
        (∀ object field, error ≠ .disallowedField object field) ∧
          ∀ field op, error ≠ .disallowedOperator field op := by
  have hfound : view.found object = e := by rw [View.found, hdiscovered, Option.getD_some]
  have hnormal : request.normalize.object = object := by
    change Text.trimmed request.object = object
    rw [hrequest, Text.trimmed_of_isPlain (Name.isPlain_of_isObject hobject)]
  have hnormalFields : request.normalize.fields = names := by
    change (request.fields.getD []).map Text.trimmed = names
    rw [hselects, Option.getD_some]
    exact (List.map_congr_left fun name hname => Text.trimmed_of_isPlain
      (Name.isPlain_of_isField (hnames name hname))).trans (List.map_id' names)
  -- names are plain, so that nothing is trimmed off
  have hrequested : requestedFields view request.normalize = names := by
    rw [requestedFields, hnormalFields, if_neg fun h => hne (List.isEmpty_iff.1 h)]
  have hallowed : ∀ name ∈ names, name ∈ view.fields object := fun name hname =>
    View.mem_fields_iff.2 (.inr (hfound ▸ hfields name hname))
  have hknown : ¬Unknown view request := fun hunknown => by
    have hcontains := hunknown.2
    rw [hnormal, SortedMap.contains, hdiscovered] at hcontains
    cases hcontains
  have hfruitful : ¬Fruitless view request := fun hfruitless => by
    obtain ⟨name, hname⟩ := List.exists_mem_of_ne_nil names hne
    refine hfruitless name (hrequested ▸ hname) ?_
    rw [hnormal]
    exact hallowed name hname
  obtain ⟨conditions', order, haccount, hcompile, -⟩ := exists_assemble options hknown hfruitful
  have hquery : (assemble view options request.normalize conditions' order).query.object = object :=
    hnormal
  refine ⟨_, hcompile, ?_, fun error herror => ?_⟩
  · rw [haccount.fields, hrequested, hquery]
    exact congrArg List.eraseDups (List.filter_eq_self.2 fun name hname =>
      decide_eq_true (hallowed name hname))
  -- only conditions and terms can be dropped, and each has to be refused for something
  · have hnone : names.filter (· ∉ view.fields object) = [] :=
      List.filter_eq_nil_iff.2 fun name hname => by simp [hallowed name hname]
    rw [haccount.dropped, hrequested, hquery, hnone, List.map_nil, List.nil_append,
      List.mem_append] at herror
    rcases herror with herror | herror
    · obtain ⟨item, hitem, hrefuses, -⟩ := haccount.conditions.exists_of_mem_dropped herror
      rw [hquery] at hrefuses
      exact hrefuses.not_disallowed (hstates item.1 (List.fst_mem_of_mem_zipIdx hitem))
        (hfound ▸ haccepts)
    · obtain ⟨term, -, rfl, -⟩ := haccount.orderBy.exists_of_mem_dropped herror
      exact ⟨by rintro _ _ ⟨⟩, by rintro _ _ ⟨⟩⟩

end Compiling

/-- A payload that selects fields and has its conditions in order, in a document on the object
    that it is a request for or that it leaves open, makes that request compilable: on every
    snapshot whose entry for the object has been merged from what the payloads of the document say
    and from anything else, a lenient compilation selects all its fields, and refuses none of its
    fields and operators. -/
theorem compile_of_mined {document : Document} {members : List (String × Json)}
    {names : List String} {request : Request} {view : View} {e : Entry} (options : CompileOptions)
    (hobject : Name.isObject document.object = true)
    (hheld : Payload.Held document (.object members))
    (hreads : Payload.ReadsAs document.object members request)
    (hfields : members.lookup "fields" = some (.ofStrings names)) (hne : names ≠ [])
    (hnames : ∀ name ∈ names, Name.isField name = true)
    (hwhere : Payload.IsWhere (members.lookup "where"))
    (hmerged : (Extractor.payload.extract document).entry.MergedInto e)
    (hdiscovered : view.discovered.get? document.object = some e) :
    ∃ c, compile view { options with strict := false } request = .ok c ∧
      c.query.fields = names.eraseDups ∧ ∀ error ∈ c.dropped,
        (∀ object field, error ≠ .disallowedField object field) ∧
          ∀ field op, error ≠ .disallowedOperator field op := by
  obtain ⟨u, hu⟩ := hheld.exists_canonical
  have hascending := Json.ascending_of_canonical hu
  obtain ⟨hrequest, hselects, hread⟩ := hreads.parts hascending.nodup_keys hfields
  have hown : members.lookup "object" = none ∨
      members.lookup "object" = some (.string document.object) :=
    hreads.elim (fun h => .inr h.1) fun h => .inl h.1
  obtain ⟨hteaches, haccepts⟩ := Payload.extract_teaches hheld hown hfields hne hnames
  refine compile_of_discovered hdiscovered hobject hrequest hselects hne hnames
    (fun name hname => hmerged.mem_fields (hteaches name hname)) (hwhere.states ?_ hread)
    fun field op huses hfield => hmerged.accepts (haccepts field op huses hfield)
  intro value hvalue
  obtain ⟨v, hv⟩ := Json.exists_of_mem_canonical hu (hascending.lookup_eq_some_iff.1 hvalue)
  exact ⟨v, hv.symm⟩

/-- A payload that leaves its object open, with a condition in words of any case and one without an
    operator. -/
def Payload.notHot : Json :=
  .object [("where", .array [
      .object [("op", .string "not  in"), ("field", .string "Rating"), ("value", .string "Hot")],
      .object [("field", .string "Owner.Name"), ("value", .null)]]),
    ("fields", .ofStrings ["Name", "Id"])]

/-- The members of the payload in their order. -/
def Payload.notHotMembers : List (String × Json) :=
  [("fields", .ofStrings ["Name", "Id"]),
    ("where", .array [
      .object [("field", .string "Rating"), ("op", .string "not  in"), ("value", .string "Hot")],
      .object [("field", .string "Owner.Name"), ("value", .null)]])]

/-- The request that the payload is for accounts. -/
def Request.notHot : Request where
  object := "Account"
  fields := some ["Name", "Id"]
  conditions := some (.list [
    .condition { field := "Rating", op := some "not  in", value := some (.string "Hot") },
    .condition { field := "Owner.Name", value := some .null }])

/-- A document on accounts that holds the payload. -/
def Document.notHot : Document where
  object := "Account"
  kind := .queryLibrary
  text := ("\x60\x60\x60json\n" ++ Payload.notHot.compact ++ "\n\x60\x60\x60\n").toList

/-- The capabilities in which rating could be compared for equality alone, and the document was
    mined. -/
def Capabilities.notHot : Capabilities :=
  Capabilities.mergeEntry (.ofList [("Account", Entry.empty.addOperator "Rating" .equal)]) "Account"
    (Extractor.payload.extract .notHot).entry

theorem Payload.held_notHot : Held .notHot (.object notHotMembers) := by
  have hblocks : (blocks Document.notHot.text).filterMap Block.json? = [notHot.compact.toList] := by
    decide +kernel
  obtain ⟨block, hblock, hbody⟩ := List.mem_filterMap.1
    (hblocks ▸ List.mem_singleton_self notHot.compact.toList)
  have hpair : ∀ {α : Type} {p : α → Prop} {a b : α}, p a ∧ p b → ∀ x ∈ [a, b], p x := by
    simp
  have hprintable : Printable notHot := by
    refine .object (hpair ⟨.array (hpair ⟨.object ?_, .object (hpair ⟨.string _, .null⟩)⟩),
      Json.printable_strings _⟩)
    exact List.forall_mem_cons.2 ⟨.string _, hpair ⟨.string _, .string _⟩⟩
  have hread :
      Json.parse? (String.ofList notHot.compact.toList) = some (.object notHotMembers) := by
    rw [String.ofList_toList]
    exact hprintable.parse?_compact (by decide)
  exact ⟨block, hblock, _, hbody, _, hread, List.mem_singleton_self _⟩

/-- Once the document is mined, the request in it compiles, and no field or operator is refused. -/
theorem notHot_compiles :
    Payload.Held .notHot (.object Payload.notHotMembers) ∧
      ∃ c, compile { registry := .empty, snapshot := .ofEntries .notHot } {} .notHot = .ok c ∧
        c.query.fields = ["Name", "Id"].eraseDups ∧ ∀ error ∈ c.dropped,
          (∀ object field, error ≠ .disallowedField object field) ∧
            ∀ field op, error ≠ .disallowedOperator field op := by
  refine ⟨Payload.held_notHot, compile_of_mined {} (by decide) Payload.held_notHot
    (.inr ⟨rfl, rfl⟩) rfl (by decide) (by decide) (.conditions ?_)
    (.after .self (Entry.empty.addOperator "Rating" .equal)) rfl⟩
  refine List.forall_mem_cons.2 ⟨?_, List.forall_mem_singleton.2 ?_⟩
  · exact ⟨_, "Rating", rfl, rfl, by decide, .inr (.inr ⟨_, .notIn, rfl, by decide⟩)⟩
  · exact ⟨_, "Owner.Name", rfl, rfl, by decide, .inl rfl⟩

end QueryGate
