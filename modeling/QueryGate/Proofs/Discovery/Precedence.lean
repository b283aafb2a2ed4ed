import QueryGate.Proofs.Discovery.DefaultLists
import QueryGate.Proofs.Discovery.Fences

/-!
# Payloads before prose

What a payload adds to a harvest does not depend on what was harvested before
(`Payload.Harvest.Adds`). So the payloads of a document say together what each of them says
alone (`Payload.entry_harvest`), and an entry says something after a harvest if and only if
some payload for its object says it (`Payload.Tally.harvest`).

If one of them says anything, nothing else is learned from the document, whatever stands
between its blocks. If none does, it is read as if it held no payloads
(`Payload.payloads_precede`).
-/

namespace QueryGate

open Text

theorem Json.string?_eq_some_iff {value : Json} {text : String} :
    value.string? = some text ↔ value = .string text := by
  cases value <;> simp [Json.string?]

namespace Payload

/-- A payload selects a field. -/
def Selects (payload : Json) (field : String) : Prop :=
  ∃ items, payload.get? "fields" = some (.array items) ∧ .string field ∈ items

theorem selects_iff {payload : Json} {field : String} : Selects payload field ↔
    .string field ∈ ((payload.get? "fields").bind Json.array?).getD [] := by
  rw [Selects]
  cases payload.get? "fields" with
  | none => simp
  | some value => cases value <;> simp [Json.array?]

/-- An item of a list of conditions states one: it names a field, and an operator unless it means
    `=`. -/
def States (item : Json) (field : String) (op : Operator) : Prop :=
  item.get? "field" = some (.string field) ∧
    Operator.parse? (((item.get? "op").bind Json.string?).getD "=") = some op

theorem uses_array_iff {items : List Json} {field : String} {op : Operator} :
    Uses (some (.array items)) field op ↔ ∃ item ∈ items, States item field op := by
  constructor
  · intro huses
    cases huses with
    | condition hitem hfield hop => exact ⟨_, hitem, hfield, hop⟩
  · rintro ⟨item, hitem, hfield, hop⟩
    exact .condition hitem hfield hop

/-- A payload contributes: it is for the object, and selects a field or has a condition on one. -/
def Contributes (object : String) (payload : Json) : Prop :=
  ¬IsForeign object payload ∧ ∃ field, Name.isField field = true ∧
    (Selects payload field ∨ ∃ op, Uses (payload.get? "where") field op)

/-- What is learned from a payload alone. -/
def teaches (object : String) (payload : Json) : Entry :=
  (({} : Harvest).addPayload object payload).findings.entry

/-- The payloads in a fenced block, none if it holds no JSON. -/
def Block.payloads (b : Block) : List Json :=
  ((b.json?.bind fun body => Json.parse? (String.ofList body)).map Payload.payloads).getD []

/-- The payloads in the fenced blocks of a document, in the order of the text. -/
def payloadsOf (document : Document) : List Json :=
  (blocks document.text).flatMap Block.payloads

theorem mem_payloadsOf {document : Document} {payload : Json} :
    payload ∈ payloadsOf document ↔ Held document payload := by
  rw [payloadsOf, List.mem_flatMap, Held]
  refine exists_congr fun block => and_congr_right fun _ => ?_
  rw [Block.payloads]
  cases block.json? with
  | none => simp
  | some body => cases hvalue : Json.parse? (String.ofList body) <;> simp [hvalue]

/-! ## Steps -/

namespace Harvest

/-- A step adds to what was harvested before what it adds to nothing. -/
def Adds (step : Harvest → Harvest) : Prop :=
  ∀ h, (step h).findings.entry = h.findings.entry.merge (step {}).findings.entry

theorem adds_nothing : Adds fun h => h := fun h => (h.findings.entry.merge_empty).symm

theorem adds_report (issue : Issue) : Adds fun h => h.report issue := fun h =>
  (h.findings.entry.merge_empty).symm

theorem adds_field (field : String) : Adds fun h => h.contribute fun e => e.addField field :=
  fun _ => Entry.addField_eq_merge _ _

theorem adds_operator (field : String) (op : Operator) :
    Adds fun h => h.contribute fun e => e.addOperator field op :=
  fun _ => Entry.addOperator_eq_merge _ _ _

theorem Adds.comp {first second : Harvest → Harvest} (hfirst : Adds first) (hsecond : Adds second) :
    Adds fun h => second (first h) := fun h => by
  rw [hsecond, hfirst, Entry.merge_assoc, ← hsecond]

section Folds

variable {α : Type} {f : Harvest → α → Harvest} (hf : ∀ a, Adds (f · a))

include hf

theorem adds_foldl (l : List α) : Adds fun h => l.foldl f h := by
  induction l with
  | nil => exact adds_nothing
  | cons a l ih => exact (hf a).comp ih

/-- Steps say together what each of them says alone. -/
theorem entry_foldl (l : List α) :
    (l.foldl f {}).findings.entry = .joined (l.map fun a => (f {} a).findings.entry) := by
  induction l using List.reverseRecOn with
  | nil => rfl
  | append_singleton l a ih =>
    rw [List.foldl_append, List.foldl_cons, List.foldl_nil, hf, ih, List.map_append,
      List.map_singleton, Entry.joined_concat]

end Folds

theorem adds_addField (value : Json) : Adds (addField · value) := by
  unfold addField
  split
  · exact adds_field _
  · exact adds_nothing

theorem adds_addCondition (condition : Json) : Adds (addCondition · condition) := by
  unfold addCondition
  split
  · dsimp only
    split
    · exact adds_operator _ _
    · exact adds_report _
  · exact adds_nothing

theorem adds_addEquality (member : String × Json) : Adds (addEquality · member) := by
  unfold addEquality
  split_ifs
  · exact adds_operator _ _
  · exact adds_nothing

theorem adds_addWhere (conditions : Option Json) : Adds (addWhere · conditions) := by
  unfold addWhere
  split
  · exact adds_foldl adds_addCondition _
  · exact adds_foldl adds_addEquality _
  · exact adds_nothing

theorem adds_addPayload (object : String) (payload : Json) :
    Adds (addPayload object · payload) := by
  unfold addPayload
  split_ifs
  · exact adds_nothing
  split
  · exact adds_report _
  · exact (adds_foldl adds_addField _).comp (adds_addWhere _)

/-- A block adds its payloads, one after the other. -/
theorem entry_addBlock (object : String) (h : Harvest) (block : Block × Nat) :
    (h.addBlock object block).findings.entry =
      (block.1.payloads.foldl (addPayload object) h).findings.entry := by
  rw [addBlock, Block.payloads]
  cases block.1.json? with
  | none => rfl
  | some body =>
    rw [Option.bind_some]
    dsimp only
    cases Json.parse? (String.ofList body) with
    | none => rfl
    | some value => cases value <;> rfl

theorem adds_addBlock (object : String) (block : Block × Nat) :
    Adds (addBlock object · block) := fun h => by
  rw [entry_addBlock, entry_addBlock]
  exact adds_foldl (adds_addPayload object) _ h

end Harvest

/-- The payloads of a document say together what each of them says alone. -/
theorem entry_harvest (document : Document) : (harvest document).findings.entry =
    .joined ((payloadsOf document).map (teaches document.object)) := by
  have hblocks : (fun block : Block × Nat =>
      (({} : Harvest).addBlock document.object block).findings.entry) =
      (fun block => Entry.joined (block.payloads.map (teaches document.object))) ∘ Prod.fst :=
    funext fun block => (Harvest.entry_addBlock document.object {} block).trans
      (Harvest.entry_foldl (Harvest.adds_addPayload document.object) _)
  rw [harvest, Harvest.entry_foldl (Harvest.adds_addBlock document.object), hblocks,
    ← List.map_map, List.zipIdx_map_fst, ← Entry.joined_flatMap, payloadsOf, List.map_flatMap]

/-! ## What is said -/

/-- Something that an entry may say, brought about by some fields and operators. -/
structure Tally (P : Entry → Prop) (A : String → Prop) (B : String → Operator → Prop) : Prop where
  /-- The empty entry does not say it. -/
  empty : ¬P .empty
  /-- Merging keeps what either entry says, and brings about nothing else. -/
  merge : ∀ a b : Entry, P (a.merge b) ↔ P a ∨ P b
  /-- Some fields bring it about. -/
  field : ∀ field, P (Entry.empty.addField field) ↔ A field
  /-- So do some operators. -/
  operator : ∀ field op, P (Entry.empty.addOperator field op) ↔ B field op

namespace Tally

variable {P : Entry → Prop} {A : String → Prop} {B : String → Operator → Prop} (t : Tally P A B)

include t

theorem joined_map {α : Type} {f : α → Entry} {l : List α} :
    P (.joined (l.map f)) ↔ ∃ a ∈ l, P (f a) := by
  simp only [Entry.joined_iff t.empty t.merge, List.mem_map, exists_exists_and_eq_and]

theorem addField (value : Json) : P (({} : Harvest).addField value).findings.entry ↔
    ∃ field, Name.isField field = true ∧ A field ∧ value = .string field := by
  rw [Harvest.addField]
  cases hvalue : value.string?.filter Name.isField with
  | none =>
    refine iff_of_false t.empty ?_
    rintro ⟨field, hfield, -, rfl⟩
    simp [Json.string?, hfield] at hvalue
  | some field =>
    obtain ⟨hstring, hfield⟩ := Option.filter_eq_some_iff.1 hvalue
    obtain rfl := Json.string?_eq_some_iff.1 hstring
    refine (t.field field).trans ⟨fun h => ⟨field, hfield, h, rfl⟩, ?_⟩
    rintro ⟨_, -, h, heq⟩
    cases heq
    exact h

theorem addCondition (item : Json) : P (({} : Harvest).addCondition item).findings.entry ↔
    ∃ field op, Name.isField field = true ∧ B field op ∧ States item field op := by
  rw [Harvest.addCondition]
  cases hname : ((item.get? "field").bind Json.string?).filter Name.isField with
  | none =>
    refine iff_of_false t.empty ?_
    rintro ⟨field, op, hfield, -, hstated, -⟩
    simp [hstated, Json.string?, hfield] at hname
  | some field =>
    obtain ⟨hstring, hfield⟩ := Option.filter_eq_some_iff.1 hname
    obtain ⟨value, hvalue, hstring⟩ := Option.bind_eq_some_iff.1 hstring
    obtain rfl := Json.string?_eq_some_iff.1 hstring
    dsimp only
    cases hop : Operator.parse? (((item.get? "op").bind Json.string?).getD "=") with
    | none =>
      refine iff_of_false t.empty ?_
      rintro ⟨_, op, -, -, -, hparse⟩
      simp [hop] at hparse
    | some op =>
      refine (t.operator field op).trans ⟨fun h => ⟨field, op, hfield, h, hvalue, hop⟩, ?_⟩
      rintro ⟨field', op', -, h, hvalue', hop'⟩
      simp only [hvalue, Option.some.injEq, Json.string.injEq] at hvalue'
      simp only [hop, Option.some.injEq] at hop'
      subst hvalue' hop'
      exact h

theorem addEquality (member : String × Json) :
    P (({} : Harvest).addEquality member).findings.entry ↔
      Name.isField member.1 = true ∧ B member.1 .equal := by
  rw [Harvest.addEquality]
  split_ifs with hfield
  · exact (t.operator _ _).trans (and_iff_right hfield).symm
  · exact iff_of_false t.empty fun h => hfield h.1

theorem addWhere (conditions : Option Json) :
    P (({} : Harvest).addWhere conditions).findings.entry ↔
      ∃ field op, Name.isField field = true ∧ B field op ∧ Uses conditions field op := by
  unfold Harvest.addWhere
  split
  · next items =>
    rw [Harvest.entry_foldl Harvest.adds_addCondition, t.joined_map]
    simp only [t.addCondition, uses_array_iff]
    constructor
    · rintro ⟨item, hitem, field, op, hfield, h, hstates⟩
      exact ⟨field, op, hfield, h, item, hitem, hstates⟩
    · rintro ⟨field, op, hfield, h, item, hitem, hstates⟩
      exact ⟨item, hitem, field, op, hfield, h, hstates⟩
  · next members =>
    rw [Harvest.entry_foldl Harvest.adds_addEquality, t.joined_map]
    simp only [t.addEquality]
    constructor
    · rintro ⟨member, hmember, hfield, h⟩
      exact ⟨member.1, .equal, hfield, h, .equality hmember⟩
    · rintro ⟨field, op, hfield, h, huses⟩
      cases huses with
      | equality hmember => exact ⟨_, hmember, hfield, h⟩
  · next harray hobject =>
    refine iff_of_false t.empty ?_
    rintro ⟨field, op, -, -, huses⟩
    cases huses with
    | equality h => exact hobject _ rfl
    | condition h => exact harray _ rfl

/-- What a payload says alone. -/
theorem teaches (object : String) (payload : Json) : P (teaches object payload) ↔
    ¬IsForeign object payload ∧
      ((∃ field, Name.isField field = true ∧ A field ∧ Selects payload field) ∨
        ∃ field op, Name.isField field = true ∧ B field op ∧
          Uses (payload.get? "where") field op) := by
  rw [Payload.teaches, Harvest.addPayload]
  split_ifs with hneither
  · rw [Bool.and_eq_true, Option.isNone_iff_eq_none, Option.isNone_iff_eq_none] at hneither
    refine iff_of_false t.empty ?_
    rintro ⟨-, ⟨field, -, -, items, hitems, -⟩ | ⟨field, op, -, -, huses⟩⟩
    · rw [hneither.1] at hitems
      cases hitems
    · rw [hneither.2] at huses
      cases huses
  split
  · next hforeign =>
    obtain ⟨htarget, hne⟩ := Option.filter_eq_some_iff.1 hforeign
    exact iff_of_false t.empty fun h => h.1 ⟨_, htarget, of_decide_eq_true hne⟩
  · next hown =>
    have hown : ¬IsForeign object payload := by
      rintro ⟨target, htarget, hne⟩
      exact absurd (decide_eq_true hne) (Option.filter_eq_none_iff.1 hown _ htarget)
    rw [Harvest.adds_addWhere, t.merge, t.addWhere, and_iff_right hown,
      Harvest.entry_foldl Harvest.adds_addField, t.joined_map]
    refine or_congr_left ?_
    simp only [t.addField]
    constructor
    · rintro ⟨_, hitem, field, hfield, h, rfl⟩
      exact ⟨field, hfield, h, selects_iff.2 hitem⟩
    · rintro ⟨field, hfield, h, hselects⟩
      exact ⟨_, selects_iff.1 hselects, field, hfield, h, rfl⟩

/-- What the payloads of a document say together. -/
theorem harvest (document : Document) : P (harvest document).findings.entry ↔
    ∃ payload, Held document payload ∧ ¬IsForeign document.object payload ∧
      ((∃ field, Name.isField field = true ∧ A field ∧ Selects payload field) ∨
        ∃ field op, Name.isField field = true ∧ B field op ∧
          Uses (payload.get? "where") field op) := by
  rw [entry_harvest, t.joined_map]
  simp only [mem_payloadsOf, t.teaches]

end Tally

theorem tally_fields (field : String) :
    Tally (fun e => field ∈ e.fields) (· = field) fun name _ => name = field where
  empty := SortedSet.not_mem_empty
  merge _ _ := Entry.mem_merge_fields
  field name := by simp [Entry.addField, Entry.empty, eq_comm]
  operator name _ := by simp [Entry.addOperator, Entry.empty, eq_comm]

theorem tally_records (field : String) (op : Operator) :
    Tally (fun e => e.Records field op) (fun _ => False) fun name more =>
      (field, op) = (name, more) where
  empty h := by
    obtain ⟨ops, hops, -⟩ := h
    cases hops
  merge _ _ := Entry.records_merge
  field _ := iff_false_intro fun ⟨_, hops, _⟩ => by cases hops
  operator name more := by
    rw [Entry.records_addOperator, or_iff_left_iff_imp]
    rintro ⟨_, hops, _⟩
    cases hops

theorem tally_full : Tally (fun e => e.isEmpty = false) (fun _ => True) fun _ _ => True where
  empty h := by cases h
  merge a b := by
    rw [Bool.eq_false_iff, Bool.eq_false_iff, Bool.eq_false_iff, Ne, a.isEmpty_merge, not_and_or]
  field _ := iff_true_intro rfl
  operator _ _ := iff_true_intro rfl

/-- A harvest tells whether any payload of the document contributes. -/
theorem contributed_iff (document : Document) : (harvest document).contributed = true ↔
    ∃ payload, Held document payload ∧ Contributes document.object payload := by
  have hclosed : Harvest.Closed fun h =>
      h.contributed = true → h.findings.entry.isEmpty = false :=
    { field := fun h field _ _ _ => by
        rw [Harvest.adds_field, tally_full.merge]
        exact .inr ((tally_full.field field).2 trivial)
      operator := fun h field op _ _ _ => by
        rw [Harvest.adds_operator, tally_full.merge]
        exact .inr ((tally_full.operator field op).2 trivial)
      report := fun _ _ hh => hh }
  have hfull : (harvest document).contributed = true ↔
      (harvest document).findings.entry.isEmpty = false := by
    refine ⟨hclosed.harvest (fun h => by cases h) document, fun hfull => ?_⟩
    by_contra hnot
    rw [entry_eq_empty (Bool.eq_false_iff.2 hnot)] at hfull
    cases hfull
  rw [hfull, tally_full.harvest]
  simp only [Contributes, true_and, and_or_left, exists_or, exists_and_left]

/-- **Payloads take precedence over prose.** A text is made up of its fenced blocks and of what
    stands between them. If a payload in one of the blocks contributes, what is learned from a
    document is exactly what its payloads say together: the fields that those for its object
    select, and the operators of their conditions with their fields. There are no default fields,
    and whatever text without backticks stands between the blocks instead, the same is learned. If
    no payload contributes, the document is read for select lists and conditions as if it held no
    payloads. -/
theorem payloads_precede (document : Document) :
    let e := (extract document).entry
    (∃ parts last, parts.map Prod.snd = fenced document.text ∧
      framed parts last = document.text) ∧
    ((∃ payload, Held document payload ∧ Contributes document.object payload) →
      e = .joined ((payloadsOf document).map (teaches document.object)) ∧
      (∀ field, field ∈ e.fields ↔ ∃ payload, Held document payload ∧
        ¬IsForeign document.object payload ∧ Name.isField field = true ∧
          (Selects payload field ∨ ∃ op, Uses (payload.get? "where") field op)) ∧
      (∀ field op, e.Records field op ↔ ∃ payload, Held document payload ∧
        ¬IsForeign document.object payload ∧ Name.isField field = true ∧
          Uses (payload.get? "where") field op) ∧
      e.defaults = [] ∧
      ∀ parts last, parts.map Prod.snd = fenced document.text →
        (∀ part ∈ parts, '\x60' ∉ part.1) → '\x60' ∉ last →
        (extract { document with text := framed parts last }).entry = e) ∧
    ((¬∃ payload, Held document payload ∧ Contributes document.object payload) →
      e = ((Findings.empty.addSelectLists document).addConditions document).entry) := by
  intro e
  refine ⟨exists_framed_fenced document.text, fun hcontributes => ?_, fun hnone => ?_⟩
  · have hcontributed := (contributed_iff document).2 hcontributes
    have hentry : e = (harvest document).findings.entry := by
      dsimp only [e, extract]
      rw [if_pos hcontributed]
    refine ⟨hentry.trans (entry_harvest document), fun field => ?_, fun field op => ?_,
      hentry ▸ defaults_harvest document, fun parts last hparts hgaps hlast => ?_⟩
    · rw [hentry, (tally_fields field).harvest]
      refine exists_congr fun payload => and_congr_right fun _ => and_congr_right fun _ => ?_
      simp [and_or_left]
    · rw [hentry, (tally_records field op).harvest]
      refine exists_congr fun payload => and_congr_right fun _ => and_congr_right fun _ => ?_
      simp
    -- what stands between the blocks is not looked at as long as it opens none
    · have hblocks : blocks (framed parts last) = blocks document.text :=
        blocks_framed hparts hgaps hlast
      have hsame : harvest { document with text := framed parts last } = harvest document := by
        rw [harvest, harvest, hblocks]
      rw [hentry, extract, hsame, if_pos hcontributed]
  · exact extract_entry (Bool.eq_false_iff.2 fun h => hnone ((contributed_iff document).1 h))

/-- A query on opportunities, and a fenced block behind it. -/
def savedQuery (block : String) : Document where
  object := "Opportunity"
  kind := .queryLibrary
  text := ("SELECT Id, Description FROM Opportunity\n\n" ++ block ++ "\n").toList

/-- A block with a payload that selects `Id`. -/
def idBlock : String := "\x60\x60\x60json\n\x7b\"fields\": [\"Id\"]\x7d\n\x60\x60\x60"

/-- The payload is preferred to the query, with the query as without it. Without the payload the
    query is read. -/
theorem idBlock_preferred :
    (extract (savedQuery idBlock)).entry = Entry.empty.addField "Id" ∧
      (extract { savedQuery idBlock with text := idBlock.toList }).entry =
        (extract (savedQuery idBlock)).entry ∧
      "Description" ∈ (extract (savedQuery "no block")).entry.fields := by
  have hcontributes := (contributed_iff (savedQuery idBlock)).1 (by decide +kernel)
  have hnone := mt (contributed_iff (savedQuery "no block")).2 (by decide +kernel)
  obtain ⟨-, -, -, -, hreplaced⟩ := (payloads_precede (savedQuery idBlock)).2.1 hcontributes
  have hscraped := (payloads_precede (savedQuery "no block")).2.2 hnone
  refine ⟨by decide +kernel, ?_, ?_⟩
  · exact hreplaced [([], idBlock.toList)] [] (by decide +kernel) (by simp) List.not_mem_nil
  · rw [hscraped]
    decide +kernel

end Payload

end QueryGate
