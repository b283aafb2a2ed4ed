import QueryGate.Proofs.Json.Printing
import QueryGate.Request.Normal
import QueryGate.Request.Printer
import QueryGate.Request.Reader

/-!
# Requests read again

A request is read back from its own text. Two ways lead to a request, reading one and
building one step by step, and both lead to a *settled* request: its values are in
canonical form, and what it keeps as no condition cannot be read as one. Of a settled
request all shapes are read as they were written (`Request.ofJson?_toJson`), and the
text is read as what it was printed from (`Request.ofText?_text_eq`).

* `Request.ofJson?_spec`: what reading yields;
* `Request.Built.isSettled`: what building yields;
* `Request.text_reads_back`: both are read back from their texts.

A request that was read is read back as itself. One that was built may hold `null` as
its limit, which reads as no limit, and has the same normal form.
-/

namespace QueryGate

open Json

/-! ## Members -/

namespace Json

/-- No object within a value has two members with the same key. -/
inductive HasDistinctKeys : Json → Prop where
  | null : HasDistinctKeys .null
  | bool (b : Bool) : HasDistinctKeys (.bool b)
  | number (n : JsonNumber) : HasDistinctKeys (.number n)
  | string (s : String) : HasDistinctKeys (.string s)
  | array {items : List Json} (h : ∀ item ∈ items, HasDistinctKeys item) :
      HasDistinctKeys (.array items)
  | object {members : List (String × Json)} (hkeys : (members.map (·.1)).Nodup)
      (h : ∀ member ∈ members, HasDistinctKeys member.2) : HasDistinctKeys (.object members)

theorem HasDistinctKeys.of_mem_parts {value part : Json} (h : value.HasDistinctKeys)
    (hpart : part ∈ value.parts) : part.HasDistinctKeys := by
  cases h with
  | array h => exact h part hpart
  | object _ h =>
    obtain ⟨member, hmember, rfl⟩ := List.mem_map.1 hpart
    exact h member hmember
  | _ => cases hpart

section Members

variable {key : String} {members : List (String × Json)} {value : Json}

/-- Where no key stands twice, a key has the value that is found there. -/
theorem member?_eq (h : (members.map (·.1)).Nodup) (key : String) :
    member? key members = some (members.lookup key) := by
  have hall : allAt key members = (members.lookup key).toList := by
    induction members with
    | nil => rfl
    | cons member members ih =>
      obtain ⟨k, v⟩ := member
      obtain ⟨hk, h⟩ := List.nodup_cons.1 h
      by_cases hkey : k = key
      · -- no later member has the key
        subst hkey
        have hnone : members.filter (fun member => member.1 == k) = [] :=
          List.filter_eq_nil_iff.2 fun member hmember => by
            simpa using fun hsame => hk (List.mem_map.2 ⟨member, hmember, hsame⟩)
        simp [allAt, hnone]
      · rw [List.lookup_cons, beq_eq_false_iff_ne.2 (Ne.symm hkey), ← ih h]
        simp [allAt, hkey]
  rw [member?, hall]
  cases members.lookup key <;> rfl

theorem mem_parts_of_member? {found : Option Json} (h : member? key members = some found) :
    ∀ value ∈ found, value ∈ (object members).parts := by
  rintro value rfl
  have hmem : value ∈ allAt key members := by
    rw [member?] at h
    split at h <;> cases h
    simp [*]
  obtain ⟨member, hmember, rfl⟩ := List.mem_map.1 hmem
  exact List.mem_map_of_mem (List.mem_of_mem_filter hmember)

end Members

theorem present?_eq_some_iff {found : Option Json} {value : Json} :
    present? found = some value ↔ found = some value ∧ value ≠ .null := by
  rcases found with _ | found
  · simp [present?]
  · cases found <;> simp +contextual [present?, eq_comm]

theorem parts_cons (member : String × Json) (members : List (String × Json)) :
    (object (member :: members)).parts = member.2 :: (object members).parts := rfl

theorem parts_append (members more : List (String × Json)) :
    (object (members ++ more)).parts = (object members).parts ++ (object more).parts :=
  List.map_append

theorem parts_optionalMember (key : String) (value : Option Json) :
    (object (optionalMember key value)).parts = value.toList := by
  cases value <;> rfl

/-! ## Values that are as readable -/

/-- A value can be read from its text wherever another one can: it is nested no deeper, and its
    numbers are read back if those of the other are. -/
structure AsReadable (value other : Json) : Prop where
  depth : value.depth ≤ other.depth
  printable : Printable other → Printable value

variable {value other : Json}

theorem asReadable_canonical (value : Json) : value.canonical.AsReadable value where
  depth := depth_canonical_le value
  printable := Printable.canonical

/-- A value that is no number is as readable as another one if its parts are strings, or as readable
    as parts of the other. -/
theorem AsReadable.of_parts (hnumber : ∀ n, value ≠ .number n) (hdepth : 1 ≤ other.depth)
    (h : ∀ part ∈ value.parts, (∃ s, part = .string s) ∨
      ∃ part' ∈ other.parts, part.AsReadable part') : value.AsReadable other where
  depth := by
    obtain ⟨n, hn⟩ := Nat.exists_eq_add_of_le' hdepth
    have hparts := depth_le_succ_iff.1 hn.le
    rw [hn]
    refine depth_le_succ_iff.2 fun part hpart => ?_
    rcases h part hpart with ⟨s, rfl⟩ | ⟨part', hpart', hreadable⟩
    · exact Nat.zero_le n
    · exact hreadable.depth.trans (hparts part' hpart')
  printable hprintable := by
    refine .of_parts hnumber fun part hpart => ?_
    rcases h part hpart with ⟨s, rfl⟩ | ⟨part', hpart', hreadable⟩
    · exact .string s
    · exact hreadable.printable (hprintable.of_mem_parts hpart')

end Json

/-! ## Conditions -/

namespace Condition

variable {v : Json} {c : Condition}

/-- A condition that holds its value in canonical form. -/
def IsSettled (c : Condition) : Prop := ∀ value ∈ c.value, value.canonical = value

theorem exists_of_ofParts? {field op value : Option Json} (h : ofParts? field op value = some c) :
    c.value = value.map canonical := by
  simp only [ofParts?, Option.bind_eq_bind, Option.bind_eq_some_iff] at h
  obtain ⟨field, -, op, -, hc⟩ := h
  cases hc
  rfl

/-- A condition is read from parts of a value. -/
theorem exists_parts (h : ofJson? v = some c) : 1 ≤ v.depth ∧
    ∃ field op value, ofParts? field op value = some c ∧ ∀ part ∈ value, part ∈ v.parts := by
  cases v with
  | object members =>
    simp only [ofJson?, Option.bind_eq_bind, Option.bind_eq_some_iff] at h
    obtain ⟨field, -, op, -, value, hvalue, h⟩ := h
    exact ⟨Nat.le_add_left 1 _, field, op, value, h, mem_parts_of_member? hvalue⟩
  | array items =>
    rw [ofJson?] at h
    split_ifs at h
    exact ⟨Nat.le_add_left 1 _, _, _, _, h, fun part hpart => List.mem_of_getElem? hpart⟩
  | _ => cases h

/-- What is read as a condition is settled, and its text as readable as what was read. -/
theorem ofJson?_spec (h : ofJson? v = some c) : c.IsSettled ∧ c.toJson.AsReadable v := by
  obtain ⟨hdepth, field, op, value, hparts, hmem⟩ := exists_parts h
  have hvalue := exists_of_ofParts? hparts
  constructor
  · intro u hu
    rw [hvalue] at hu
    obtain ⟨w, -, rfl⟩ := Option.map_eq_some_iff.1 hu
    exact canonical_canonical w
  · refine .of_parts (fun n => by rintro ⟨⟩) hdepth fun part hpart => ?_
    rw [toJson, List.cons_append, parts_cons, parts_append, parts_optionalMember,
      parts_optionalMember, List.mem_cons, List.mem_append, Option.mem_toList,
      Option.mem_toList] at hpart
    rcases hpart with rfl | hpart | hpart
    · exact .inl ⟨c.field, rfl⟩
    · obtain ⟨text, -, rfl⟩ := Option.map_eq_some_iff.1 hpart
      exact .inl ⟨text, rfl⟩
    · rw [hvalue] at hpart
      obtain ⟨w, hw, rfl⟩ := Option.map_eq_some_iff.1 hpart
      exact .inr ⟨w, hmem w hw, asReadable_canonical w⟩

/-- A settled condition is read as it was written. -/
theorem ofJson?_toJson (h : c.IsSettled) : ofJson? c.toJson = some c := by
  obtain ⟨field, op, value⟩ := c
  have hvalue : value.map canonical = value := by
    cases value with
    | none => rfl
    | some value => exact congrArg some (h value rfl)
  have hparts : ofParts? (some (.string field)) (op.map .string) value =
      some ⟨field, op, value.map canonical⟩ := by
    cases op <;> rfl
  rw [hvalue] at hparts
  rw [← hparts]
  cases op <;> cases value <;> rfl

theorem ofParts?_canonical (field op value : Option Json) :
    ofParts? (field.map canonical) (op.map canonical) (value.map canonical) =
      ofParts? field op value := by
  have hstring : ∀ v : Json, v.canonical.string? = v.string? := by rintro (_ | _) <;> rfl
  have hfield : (field.map canonical).bind string? = field.bind string? := by
    rw [Option.bind_map]
    exact congrArg field.bind (funext hstring)
  have hop : optionalString? (op.map canonical) = optionalString? op := by
    rcases op with _ | _ | _ <;> rfl
  have hvalue : (value.map canonical).map canonical = value.map canonical := by
    rw [Option.map_map]
    exact congrArg (Option.map · value) (funext canonical_canonical)
  rw [ofParts?, ofParts?, hfield, hop, hvalue]

/-- Where no key stands twice, a value is read as a condition just if its canonical form is. -/
theorem ofJson?_canonical (hkeys : v.HasDistinctKeys) : ofJson? v.canonical = ofJson? v := by
  cases hkeys with
  | @object members hkeys _ =>
    have hsorted := member?_eq (ascending_canonicalMembers members).nodup_keys
    rw [canonical, ofJson?, ofJson?]
    simp only [hsorted, member?_eq hkeys, lookup_canonicalMembers hkeys]
    exact ofParts?_canonical _ _ _
  | @array items _ =>
    rw [canonical, canonicalItems_eq, ofJson?, ofJson?, List.length_map]
    simp only [List.getElem?_map, ofParts?_canonical]
  | _ => rfl

end Condition

namespace ConditionItem

/-- An item that holds values in canonical form, and is no condition only if it cannot be read as
    one. -/
def IsSettled : ConditionItem → Prop
  | .condition c => c.IsSettled
  | .other value => value.canonical = value ∧ Condition.ofJson? value = none

/-- What is read as an item is settled, and its text as readable as what was read. -/
theorem ofJson_spec {v : Json} (hkeys : v.HasDistinctKeys) :
    (ofJson v).IsSettled ∧ (ofJson v).toJson.AsReadable v := by
  rw [ofJson]
  split
  · next c hc => exact Condition.ofJson?_spec hc
  · next hnone =>
    exact ⟨⟨canonical_canonical v, (Condition.ofJson?_canonical hkeys).trans hnone⟩,
      asReadable_canonical v⟩

theorem ofJson_toJson {item : ConditionItem} (h : item.IsSettled) : ofJson item.toJson = item := by
  cases item with
  | condition c => rw [toJson, ofJson, Condition.ofJson?_toJson h]
  | other value => rw [toJson, ofJson, h.2, h.1]

end ConditionItem

namespace Conditions

/-- Conditions whose items are settled, or whose members are those of a canonical object. -/
def IsSettled : Conditions → Prop
  | .list items => ∀ item ∈ items, item.IsSettled
  | .equalities members => canonicalMembers members [] = members

theorem ofJson?_spec {v : Json} {conditions : Conditions} (hkeys : v.HasDistinctKeys)
    (h : ofJson? v = some conditions) :
    conditions.IsSettled ∧ conditions.toJson.AsReadable v := by
  cases v with
  | array items =>
    cases h
    have hitem : ∀ item ∈ items, (ConditionItem.ofJson item).IsSettled ∧
        (ConditionItem.ofJson item).toJson.AsReadable item := fun item hitem =>
      ConditionItem.ofJson_spec (hkeys.of_mem_parts hitem)
    refine ⟨List.forall_mem_map.2 fun item h => (hitem item h).1, ?_⟩
    refine .of_parts (fun n => by rintro ⟨⟩) (Nat.le_add_left 1 _) fun part hpart => .inr ?_
    rw [toJson, parts, List.map_map] at hpart
    obtain ⟨item, h, rfl⟩ := List.mem_map.1 hpart
    exact ⟨item, h, (hitem item h).2⟩
  | object members =>
    cases h
    refine ⟨?_, asReadable_canonical (.object members)⟩
    exact Json.object.inj (canonical_canonical (.object members))
  | _ => cases h

theorem ofJson?_toJson {conditions : Conditions} (h : conditions.IsSettled) :
    ofJson? conditions.toJson = some conditions := by
  cases conditions with
  | list items =>
    rw [toJson, ofJson?, List.map_map]
    refine congrArg (fun l => some (list l)) ((List.map_congr_left fun item hitem => ?_).trans
      (List.map_id items))
    exact ConditionItem.ofJson_toJson (h item hitem)
  | equalities members => exact congrArg (fun l => some (equalities l)) h

theorem IsSettled.items {conditions : Conditions} (h : conditions.IsSettled) :
    ∀ item ∈ conditions.items, item.IsSettled := by
  cases conditions with
  | list items => exact h
  | equalities members =>
    refine List.forall_mem_map.2 fun member hmember => ?_
    rintro _ ⟨⟩
    rw [← show canonicalMembers members [] = members from h] at hmember
    obtain ⟨u, -, hu⟩ := exists_of_mem_canonicalMembers hmember
    rw [hu, canonical_canonical]

end Conditions

/-! ## Orders -/

namespace OrderTerm

theorem ofJson?_toJson (t : OrderTerm) : ofJson? t.toJson = some t := by
  obtain ⟨field, direction⟩ := t
  cases direction <;> rfl

/-- The text of a term that is read is as readable as what was read. -/
theorem ofJson?_spec {v : Json} {t : OrderTerm} (h : ofJson? v = some t) :
    t.toJson.AsReadable v := by
  have hdepth : 1 ≤ v.depth := by
    cases v with
    | object members => exact Nat.le_add_left 1 _
    | array items => exact Nat.le_add_left 1 _
    | _ => cases h
  refine .of_parts (fun n => by rintro ⟨⟩) hdepth fun part hpart => .inl ?_
  rw [toJson, parts_cons, parts_optionalMember, List.mem_cons, Option.mem_toList] at hpart
  rcases hpart with rfl | hpart
  · exact ⟨t.field, rfl⟩
  · obtain ⟨text, -, rfl⟩ := Option.map_eq_some_iff.1 hpart
    exact ⟨text, rfl⟩

end OrderTerm

namespace OrderTerms

/-- A single term and a list of terms are told apart: no list of terms can be read as a term, as it
    does not begin with the name of a field. -/
theorem ofJson?_toJson (order : OrderTerms) : ofJson? order.toJson = some order := by
  cases order with
  | one term => rw [toJson, ofJson?, OrderTerm.ofJson?_toJson]
  | many terms =>
    have hterm : OrderTerm.ofJson? (.array (terms.map OrderTerm.toJson)) = none := by
      rw [OrderTerm.ofJson?]
      split_ifs
      · rfl
      · cases terms <;> rfl
    have hterms := mapM_map_eq_some (l := terms) (h := id) fun t _ => OrderTerm.ofJson?_toJson t
    rw [List.map_id] at hterms
    rw [toJson, ofJson?, hterm]
    exact congrArg (Option.map many) hterms

theorem ofJson?_spec {v : Json} {order : OrderTerms} (h : ofJson? v = some order) :
    order.toJson.AsReadable v := by
  rw [ofJson?] at h
  split at h
  · next t ht =>
    cases h
    exact OrderTerm.ofJson?_spec ht
  · cases v with
    | array items =>
      obtain ⟨terms, hterms, rfl⟩ := Option.map_eq_some_iff.1 h
      refine .of_parts (fun n => by rintro ⟨⟩) (Nat.le_add_left 1 _) fun part hpart => .inr ?_
      obtain ⟨t, ht, rfl⟩ := List.mem_map.1 hpart
      obtain ⟨item, hitem, hread⟩ := exists_of_mem_mapM hterms ht
      exact ⟨item, hitem, OrderTerm.ofJson?_spec hread⟩
    | _ => cases h

end OrderTerms

/-! ## Requests -/

namespace Request

variable {v : Json} {r : Request}

/-- A request whose conditions are settled, and whose limit is in canonical form. -/
structure IsSettled (r : Request) : Prop where
  conditions : ∀ conditions ∈ r.conditions, conditions.IsSettled
  limit : ∀ limit ∈ r.limit, limit.canonical = limit

/-- A part that may be missing is read from a value that is there. -/
theorem exists_of_optional? {α : Type} {read : Json → Option α} {value : Option Json}
    {found : Option α} (h : optional? read value = some found) :
    ∀ a ∈ found, ∃ u ∈ value, read u = some a := by
  rintro a rfl
  rw [optional?] at h
  split at h
  · cases h
  · next u hu =>
    obtain ⟨b, hb, hab⟩ := Option.map_eq_some_iff.1 h
    cases hab
    exact ⟨u, (present?_eq_some_iff.1 hu).1, hb⟩

/-- A request is read from parts of a value. -/
theorem exists_parts (h : ofJson? v = some r) : 1 ≤ v.depth ∧
    ∃ object fields conditions orderBy limit,
      ofParts? object fields conditions orderBy limit = some r ∧
        ∀ value ∈ [fields, conditions, orderBy, limit], ∀ part ∈ value, part ∈ v.parts := by
  have hall : ∀ {P : Option Json → Prop} {a b c d : Option Json}, P a → P b → P c → P d →
      ∀ value ∈ [a, b, c, d], P value := by
    simp_all
  cases v with
  | object members =>
    simp only [ofJson?, Option.bind_eq_bind, Option.bind_eq_some_iff] at h
    obtain ⟨object, -, fields, hfields, conditions, hconditions, orderBy, horder, limit, hlimit,
      h⟩ := h
    exact ⟨Nat.le_add_left 1 _, object, fields, conditions, orderBy, limit, h,
      hall (mem_parts_of_member? hfields) (mem_parts_of_member? hconditions)
        (mem_parts_of_member? horder) (mem_parts_of_member? hlimit)⟩
  | array items =>
    rw [ofJson?] at h
    split_ifs at h
    exact ⟨Nat.le_add_left 1 _, _, _, _, _, _, h,
      hall (fun _ => List.mem_of_getElem?) (fun _ => List.mem_of_getElem?)
        (fun _ => List.mem_of_getElem?) fun _ => List.mem_of_getElem?⟩
  | _ => cases h

/-- What is read as a request is settled and has no `null` for a limit, and its text is as readable
    as what was read. -/
theorem ofJson?_spec (hkeys : v.HasDistinctKeys) (h : ofJson? v = some r) :
    r.IsSettled ∧ present? r.limit = r.limit ∧ r.toJson.AsReadable v := by
  obtain ⟨hdepth, object, fields, conditions, orderBy, limit, hparts, hmem⟩ := exists_parts h
  simp only [ofParts?, Option.bind_eq_bind, Option.bind_eq_some_iff] at hparts
  obtain ⟨name, -, names, hnames, clauses, hclauses, order, horder, hr⟩ := hparts
  cases hr
  have hclauses : ∀ c ∈ clauses, ∃ part ∈ v.parts, c.IsSettled ∧ c.toJson.AsReadable part := by
    intro c hc
    obtain ⟨part, hpart, hread⟩ := exists_of_optional? hclauses c hc
    have hpart := hmem conditions (by simp) part hpart
    exact ⟨part, hpart, Conditions.ofJson?_spec (hkeys.of_mem_parts hpart) hread⟩
  -- a limit is kept as it is, in canonical form, unless it is `null`
  have hlimit : ∀ u ∈ (present? limit).map canonical,
      u ≠ .null ∧ ∃ part ∈ v.parts, u = part.canonical := by
    intro u hu
    obtain ⟨part, hpart, rfl⟩ := Option.map_eq_some_iff.1 hu
    obtain ⟨rfl, hne⟩ := present?_eq_some_iff.1 hpart
    refine ⟨?_, part, hmem (some part) (by simp) part rfl, rfl⟩
    cases part <;> simp_all [canonical]
  refine ⟨⟨fun c hc => ?_, fun u hu => ?_⟩, ?_, ?_⟩
  · obtain ⟨part, -, hsettled, -⟩ := hclauses c hc
    exact hsettled
  · obtain ⟨-, part, -, rfl⟩ := hlimit u hu
    exact canonical_canonical part
  · cases hu : (present? limit).map canonical with
    | none => rfl
    | some u => exact present?_eq_some_iff.2 ⟨rfl, (hlimit u hu).1⟩
  · refine .of_parts (fun n => by rintro ⟨⟩) hdepth fun part hpart => ?_
    simp only [toJson, List.cons_append, parts_cons, parts_append, parts_optionalMember,
      List.mem_cons, List.mem_append, Option.mem_toList, Option.map_eq_some_iff] at hpart
    -- the name of the object, then the members that may be missing
    rcases hpart with rfl | ((hpart | hpart) | hpart) | hpart
    · exact .inl ⟨name, rfl⟩
    · obtain ⟨strings, hstrings, rfl⟩ := hpart
      obtain ⟨u, hu, hread⟩ := exists_of_optional? hnames strings hstrings
      refine .inr ⟨u, hmem fields (by simp) u hu, ?_⟩
      cases u with
      | array items =>
        refine .of_parts (fun n => by rintro ⟨⟩) (Nat.le_add_left 1 _) fun part hpart => .inl ?_
        obtain ⟨s, -, rfl⟩ := List.mem_map.1 hpart
        exact ⟨s, rfl⟩
      | _ => cases hread
    · obtain ⟨c, hc, rfl⟩ := hpart
      obtain ⟨part, hpart, -, hreadable⟩ := hclauses c hc
      exact .inr ⟨part, hpart, hreadable⟩
    · obtain ⟨terms, hterms, rfl⟩ := hpart
      obtain ⟨u, hu, hread⟩ := exists_of_optional? horder terms hterms
      exact .inr ⟨u, hmem orderBy (by simp) u hu, OrderTerms.ofJson?_spec hread⟩
    · obtain ⟨u, hu, rfl⟩ := hpart
      obtain ⟨-, part, hpart, hsame⟩ := hlimit _ (Option.map_eq_some_iff.2 ⟨u, hu, rfl⟩)
      exact .inr ⟨part, hpart, hsame ▸ asReadable_canonical part⟩

/-- A part that may be missing is read as it was written. -/
theorem optional?_map {α : Type} {read : Json → Option α} {write : α → Json} {found : Option α}
    (h : ∀ a ∈ found, read (write a) = some a) (hnull : ∀ a, write a ≠ .null) :
    optional? read (found.map write) = some found := by
  cases found with
  | none => rfl
  | some a =>
    have hpresent : present? (some (write a)) = some (write a) :=
      present?_eq_some_iff.2 ⟨rfl, hnull a⟩
    rw [Option.map_some, optional?, hpresent]
    exact congrArg (Option.map some) (h a rfl)

theorem ofJson?_object (object : String) (fields conditions orderBy limit : Option Json) :
    ofJson? (.object <| ("object", .string object) :: optionalMember "fields" fields ++
      optionalMember "where" conditions ++ optionalMember "orderBy" orderBy ++
      optionalMember "limit" limit) =
    ofParts? (some (.string object)) fields conditions orderBy limit := by
  cases fields <;> cases conditions <;> cases orderBy <;> cases limit <;> rfl

/-- A settled request is read as it was written, but for a limit that is `null`. -/
theorem ofJson?_toJson (h : r.IsSettled) :
    ofJson? r.toJson = some { r with limit := present? r.limit } := by
  obtain ⟨object, fields, conditions, orderBy, limit⟩ := r
  have hfields : optional? (fun value => value.array?.bind (·.mapM string?))
      (fields.map fun fields => .array (fields.map .string)) = some fields := by
    refine optional?_map (fun names _ => ?_) fun _ => by rintro ⟨⟩
    have hnames := mapM_map_eq_some (l := names) (f := Json.string) (g := string?) (h := id)
      fun _ _ => rfl
    rwa [List.map_id] at hnames
  have hconditions :
      optional? Conditions.ofJson? (conditions.map Conditions.toJson) = some conditions :=
    optional?_map (fun c hc => Conditions.ofJson?_toJson (h.conditions c hc)) fun c => by
      cases c <;> rintro ⟨⟩
  have horder : optional? OrderTerms.ofJson? (orderBy.map OrderTerms.toJson) = some orderBy :=
    optional?_map (fun order _ => OrderTerms.ofJson?_toJson order) fun order => by
      cases order <;> rintro ⟨⟩
  have hlimit : (present? limit).map canonical = present? limit := by
    cases hu : present? limit with
    | none => rfl
    | some u => exact congrArg some (h.limit u (present?_eq_some_iff.1 hu).1)
  rw [toJson, ofJson?_object, ofParts?, hfields, hconditions, horder, hlimit]
  rfl

/-! ### Texts -/

/-- No member of an object is skipped if all its keys are those of a request. -/
theorem knownMembers?_eq {members : List (String × Json)}
    {written : List (List StringUnit × Written)}
    (h : Written.memberValues? written = some members)
    (hkeys : ∀ member ∈ members, member.1 ∈ keys) : knownMembers? written = some members := by
  induction written generalizing members with
  | nil => exact h
  | cons item written ih =>
    obtain ⟨units, w⟩ := item
    rw [Written.memberValues?] at h
    split at h
    · next key value values hkey hvalue hvalues =>
      cases h
      obtain ⟨hfirst, hrest⟩ := List.forall_mem_cons.1 hkeys
      rw [knownMembers?, hkey, ih hvalues hrest]
      dsimp only
      rw [if_pos hfirst, hvalue, Option.map_some]
    · cases h

/-- The members of a request as it is written. -/
theorem fst_mem_keys (r : Request) : ∀ member ∈ ("object", Json.string r.object) ::
    optionalMember "fields" (r.fields.map fun fields => .array (fields.map .string)) ++
    optionalMember "where" (r.conditions.map Conditions.toJson) ++
    optionalMember "orderBy" (r.orderBy.map OrderTerms.toJson) ++
    optionalMember "limit" r.limit, member.1 ∈ keys := by
  have hmember : ∀ {key : String} {value : Option Json}, key ∈ keys →
      ∀ member ∈ optionalMember key value, member.1 ∈ keys := by
    rintro key value hkey member hmember
    obtain ⟨u, -, rfl⟩ := Option.map_eq_some_iff.1 (Option.mem_toList.1 hmember)
    exact hkey
  simp only [List.cons_append, List.forall_mem_cons, List.forall_mem_append]
  exact ⟨by decide, ⟨⟨hmember (by decide), hmember (by decide)⟩, hmember (by decide)⟩,
    hmember (by decide)⟩

/-- The text of a request is read as what it was printed from: none of its members is skipped. -/
theorem ofText?_text_eq (hprintable : Printable r.toJson) (hdepth : r.toJson.depth ≤ maxDepth) :
    ofText? r.text = ofJson? r.toJson := by
  obtain ⟨written, hvalue, hwritten⟩ := hprintable.exists_written
  have hjson : jsonOfText? r.text = some r.toJson := by
    rw [jsonOfText?, text, hwritten]
    cases written with
    | object members =>
      obtain ⟨values, hvalues, hobject⟩ := Option.map_eq_some_iff.1 hvalue
      rw [← hobject]
      refine congrArg (Option.map Json.object) (knownMembers?_eq hvalues fun member hmember => ?_)
      rw [Json.object.inj hobject] at hmember
      exact fst_mem_keys r member hmember
    | _ => exact hvalue
  rw [ofText?, hjson, Option.filter_some, if_pos (by simpa using hdepth), Option.bind_some]

theorem normalize_present? (r : Request) :
    { r with limit := present? r.limit : Request }.normalize = r.normalize := by
  obtain ⟨object, fields, conditions, orderBy, _ | limit⟩ := r
  · rfl
  · cases limit <;> rfl

/-! ### Building -/

/-- The requests that are built step by step. The values that are put into them are in canonical
    form. -/
inductive Built : Request → Prop where
  | ofObject (object : String) : Built (ofObject object)
  | select {r : Request} (h : Built r) (fields : List String) : Built (r.select fields)
  | filter {r : Request} (h : Built r) (c : Condition) (hc : c.IsSettled) : Built (r.filter c)
  | whereEqual {r : Request} (h : Built r) {members : List (String × Json)}
      (hmembers : (Json.object members).canonical = .object members) :
      Built (r.whereEqual members)
  | thenBy {r : Request} (h : Built r) (field : String) (direction : Direction) :
      Built (r.thenBy field direction)
  | limitTo {r : Request} (h : Built r) {limit : Json} (hlimit : limit.canonical = limit) :
      Built (r.limitTo limit)

/-- What is built is settled. -/
theorem Built.isSettled (h : Built r) : r.IsSettled := by
  induction h with
  | ofObject object => exact ⟨by rintro _ ⟨⟩, by rintro _ ⟨⟩⟩
  | select _ fields ih => exact ⟨ih.conditions, ih.limit⟩
  | @filter r _ c hc ih =>
    refine ⟨?_, ih.limit⟩
    rintro _ ⟨⟩
    refine List.forall_mem_append.2 ⟨fun item hitem => ?_, List.forall_mem_singleton.2 hc⟩
    cases hr : r.conditions with
    | none =>
      rw [hr] at hitem
      cases hitem
    | some conditions =>
      rw [hr] at hitem
      exact (ih.conditions conditions hr).items item hitem
  | whereEqual _ hmembers ih =>
    refine ⟨?_, ih.limit⟩
    rintro _ ⟨⟩
    exact Json.object.inj hmembers
  | thenBy _ field direction ih => exact ⟨ih.conditions, ih.limit⟩
  | limitTo _ hlimit ih =>
    refine ⟨ih.conditions, ?_⟩
    rintro _ ⟨⟩
    exact hlimit

/-- A request is read back from its own text. One that was read, from a value without repeated keys
    that is nested no deeper than texts may be, is read back as itself. One that was built is read
    back as itself but for a limit that is `null`, which reads as no limit and makes no difference
    to the normal form. The texts of numbers are taken to be read as the numbers. -/
theorem text_reads_back :
    (∀ (v : Json) (r : Request), v.HasDistinctKeys → v.depth ≤ maxDepth → Printable v →
      ofJson? v = some r → ofText? r.text = some r) ∧
    ∀ r : Request, Built r → r.toJson.depth ≤ maxDepth → Printable r.toJson →
      ofText? r.text = some { r with limit := present? r.limit } ∧
        { r with limit := present? r.limit : Request }.normalize = r.normalize := by
  refine ⟨fun v r hkeys hdepth hprintable h => ?_, fun r h hdepth hprintable => ?_⟩
  · obtain ⟨hsettled, hlimit, hreadable⟩ := ofJson?_spec hkeys h
    rw [ofText?_text_eq (hreadable.printable hprintable) (hreadable.depth.trans hdepth),
      ofJson?_toJson hsettled, hlimit]
  · rw [ofText?_text_eq hprintable hdepth, ofJson?_toJson h.isSettled]
    exact ⟨rfl, normalize_present? r⟩

/-- A request as a list of its parts: a condition without a value, one with the value `null`, two
    items that are no conditions, and an order of one term in a list. -/
def listedJson : Json :=
  .array [.string "Account", .array [.string "Name"],
    .array [.array [.string "Name", .null], .object [("value", .null), ("field", .string "Id")],
      .object [("field", .bool true)], .string "Id = 5"],
    .array [.array [.string "Name", .string "desc"]], .number (.integer 5)]

/-- What the list is read as. -/
def listed : Request where
  object := "Account"
  fields := some ["Name"]
  conditions := some <| .list [.condition { field := "Name" },
    .condition { field := "Id", value := some .null }, .other (.object [("field", .bool true)]),
    .other (.string "Id = 5")]
  orderBy := some (.many [{ field := "Name", direction := some "desc" }])
  limit := some (.number (.integer 5))

/-- A request that is built with two conditions of either kind, two terms and `null` as limit. -/
def stepwise : Request :=
  ((((ofObject "Account").whereEqual [("Name", .null)]).filter { field := "Id" }).thenBy "Name"
    .ascending |>.thenBy "Id" .descending).limitTo .null

/-- Both requests are read back from their texts. -/
theorem listed_reads_back :
    (listedJson.HasDistinctKeys ∧ listedJson.depth ≤ maxDepth ∧ Printable listedJson ∧
      ofJson? listedJson = some listed ∧ ofText? listed.text = some listed) ∧
    Built stepwise ∧ stepwise.toJson.depth ≤ maxDepth ∧ Printable stepwise.toJson ∧
      ofText? stepwise.text = some { stepwise with limit := none } := by
  have hnumber : Printable (.number (.integer 5)) := by
    refine .number ⟨.number ⟨false, ['5'], none, none⟩, by rfl, fun count rest hcount hcloses => ?_⟩
    obtain ⟨count, rfl⟩ : ∃ k, count = k + 1 := Nat.exists_eq_add_of_le' (by
      exact le_trans (by decide) hcount)
    cases rest with
    | nil => rfl
    | cons c rest => rcases hcloses c rfl with rfl | rfl | rfl <;> rfl
  have hnil : ∀ {α : Type} {P : α → Prop}, ∀ x ∈ ([] : List α), P x := by simp
  have hcons : ∀ {α : Type} {P : α → Prop} {a : α} {l : List α}, P a → (∀ x ∈ l, P x) →
      ∀ x ∈ a :: l, P x := fun ha hl => List.forall_mem_cons.2 ⟨ha, hl⟩
  have hkeys : listedJson.HasDistinctKeys :=
    .array <| hcons (.string _) <| hcons (.array (hcons (.string _) hnil)) <|
      hcons (.array <| hcons (.array (hcons (.string _) (hcons .null hnil))) <|
        hcons (.object (by decide) (hcons .null (hcons (.string _) hnil))) <|
        hcons (.object (by decide) (hcons (.bool _) hnil)) <| hcons (.string _) hnil) <|
      hcons (.array (hcons (.array (hcons (.string _) (hcons (.string _) hnil))) hnil)) <|
      hcons (.number _) hnil
  have hprintable : Printable listedJson :=
    .array <| hcons (.string _) <| hcons (.array (hcons (.string _) hnil)) <|
      hcons (.array <| hcons (.array (hcons (.string _) (hcons .null hnil))) <|
        hcons (.object (hcons .null (hcons (.string _) hnil))) <|
        hcons (.object (hcons (.bool _) hnil)) <| hcons (.string _) hnil) <|
      hcons (.array (hcons (.array (hcons (.string _) (hcons (.string _) hnil))) hnil)) <|
      hcons hnumber hnil
  have hbuilt : Built stepwise :=
    .limitTo (.thenBy (.thenBy (.filter (.whereEqual (.ofObject "Account") (by rfl)) _
      (by rintro _ ⟨⟩)) _ _) _ _) rfl
  have hterm : ∀ field direction : String, Printable (.object [("field", .string field),
      ("direction", .string direction)]) := fun _ _ =>
    .object (hcons (.string _) (hcons (.string _) hnil))
  have hsteps : Printable stepwise.toJson :=
    .object <| hcons (.string _) <|
      hcons (.array <| hcons (.object (hcons (.string _) (hcons (.string _) (hcons .null hnil)))) <|
        hcons (.object (hcons (.string _) hnil)) hnil) <|
      hcons (.array (hcons (hterm _ _) (hcons (hterm _ _) hnil))) (hcons .null hnil)
  exact ⟨⟨hkeys, by decide, hprintable, by rfl,
    text_reads_back.1 listedJson listed hkeys (by decide) hprintable (by rfl)⟩,
    hbuilt, by decide, hsteps, (text_reads_back.2 stepwise hbuilt (by decide) hsteps).1⟩

end Request

end QueryGate
