import QueryGate.Proofs.Discovery.Conditions

/-!
# Payloads for other objects

Payloads for other objects are reported, and add nothing (`contributed_harvest`). But where
no payload contributes, the whole text is read for select lists and conditions, the
payloads among it. So a document with payloads for other objects alone teaches something
if a select list in it reads from its own object, or a unit that does not say what it reads
from has conditions in it (`extract_foreign`). A JSON text can have such: a member `where`
is a clause with what follows, and the name of the object it is for is no `FROM`
(`foreign_payload_scraped`).
-/

namespace QueryGate

open Text WhereClause

namespace Payload

variable {object : String}

/-- A payload names another object. -/
def IsForeign (object : String) (payload : Json) : Prop :=
  ∃ target ∈ (payload.get? "object").bind Json.string?, target ≠ object

/-- The payloads that a JSON text holds. -/
def payloads : Json → List Json
  | .array items => items
  | value => [value]

/-- The blocks of JSON in a text can be read, and all payloads in them name other objects. -/
def AllForeign (object : String) (text : List Char) : Prop :=
  ∀ block ∈ blocks text, ∀ body ∈ block.json?, ∃ value ∈ Json.parse? (String.ofList body),
    ∀ payload ∈ payloads value, IsForeign object payload

instance (object : String) (payload : Json) : Decidable (IsForeign object payload) :=
  inferInstanceAs (Decidable (∃ target ∈ _, target ≠ object))

instance (object : String) (text : List Char) : Decidable (AllForeign object text) :=
  inferInstanceAs (Decidable (∀ block ∈ blocks text, ∀ body ∈ block.json?,
    ∃ value ∈ Json.parse? (String.ofList body), ∀ payload ∈ payloads value,
      IsForeign object payload))

theorem contributed_addPayload {payload : Json} (h : IsForeign object payload) (s : Harvest) :
    (s.addPayload object payload).contributed = s.contributed := by
  obtain ⟨target, htarget, hne⟩ := h
  rw [Harvest.addPayload]
  split_ifs
  · rfl
  · rw [Option.mem_def.1 htarget, Option.filter_some, if_pos (decide_eq_true hne)]
    rfl

theorem contributed_addBlock {block : Block × Nat}
    (h : ∀ body ∈ block.1.json?, ∃ value ∈ Json.parse? (String.ofList body),
      ∀ payload ∈ payloads value, IsForeign object payload) (s : Harvest) :
    (s.addBlock object block).contributed = s.contributed := by
  rw [Harvest.addBlock]
  split
  · rfl
  next body hbody =>
  obtain ⟨value, hvalue, hforeign⟩ := h body hbody
  rw [Option.mem_def.1 hvalue]
  cases value with
  | array items =>
    exact List.foldlRecOn (motive := fun t : Harvest => t.contributed = s.contributed) _ _ rfl
      fun t ht payload hpayload => (contributed_addPayload (hforeign payload hpayload) t).trans ht
  | _ => exact contributed_addPayload (hforeign _ List.mem_cons_self) s

/-- No payload contributes if all name other objects. -/
theorem contributed_harvest {document : Document} (h : AllForeign document.object document.text) :
    (harvest document).contributed = false := by
  refine List.foldlRecOn (motive := fun s : Harvest => s.contributed = false) _ _ rfl
    fun s hs block hblock => (contributed_addBlock ?_ s).trans hs
  exact h block.1 (List.fst_mem_of_mem_zipIdx hblock)

end Payload

/-! ## What is left to learn -/

namespace Findings

theorem addUsages_eq_empty_iff {f : Findings} {usages : List (String × Operator)} :
    (f.addUsages usages).entry = .empty ↔ f.entry = .empty ∧ usages = [] := by
  constructor
  · intro h
    have hnil : usages = [] := by
      refine List.eq_nil_iff_forall_not_mem.2 fun ⟨field, op⟩ hmem => ?_
      have hfield : field ∈ (f.addUsages usages).entry.fields :=
        mem_fields_addUsages.2 (.inl ⟨op, hmem⟩)
      rw [h] at hfield
      exact SortedSet.not_mem_empty hfield
    subst hnil
    exact ⟨h, rfl⟩
  · rintro ⟨h, rfl⟩
    exact h

theorem addFragment_eq_empty_iff {f : Findings} {object : String} {fragment : Fragment} :
    (f.addFragment object fragment).entry = .empty ↔
      f.entry = .empty ∧ (fragment.source = object → fragment.fields = []) := by
  have hne : ∀ e : Entry, fragment.fields ≠ [] → e.addFields fragment.fields ≠ .empty := by
    intro e hfields h
    obtain ⟨field, hfield⟩ := List.exists_mem_of_ne_nil _ hfields
    have hin : field ∈ (e.addFields fragment.fields).fields := Entry.mem_addFields.2 (.inr hfield)
    rw [h] at hin
    exact SortedSet.not_mem_empty hin
  dsimp only [addFragment]
  split_ifs with hsource hfields hdefaults
  · exact ⟨fun h => ⟨h, fun hsame => absurd hsame hsource⟩, And.left⟩
  · exact ⟨fun h => ⟨h, fun _ => List.isEmpty_iff.1 hfields⟩, And.left⟩
  -- the list adds its fields, whether or not they are the default ones
  all_goals
    have hfields : fragment.fields ≠ [] := fun h => hfields (List.isEmpty_iff.2 h)
    have hsource : fragment.source = object := not_not.1 hsource
    exact ⟨fun h => absurd h (hne _ hfields), fun h => absurd (h.2 hsource) hfields⟩

/-- Select lists add nothing if none that reads from the object names a field. -/
theorem addSelectLists_eq_empty_iff {f : Findings} {document : Document} :
    (f.addSelectLists document).entry = .empty ↔ f.entry = .empty ∧
      ∀ fragment ∈ SelectList.fragments document.text,
        fragment.source = document.object → fragment.fields = [] := by
  rw [addSelectLists]
  induction SelectList.fragments document.text generalizing f with
  | nil => simp
  | cons fragment fragments ih =>
    rw [List.foldl_cons, ih, addFragment_eq_empty_iff, List.forall_mem_cons, and_assoc]

end Findings

/-- From payloads that all name other objects nothing is learned, and the text is read for select
    lists and conditions instead. So nothing at all is learned if and only if no select list that
    reads from the object names a field, and no unit that concerns the object has conditions. -/
theorem extract_foreign (document : Document)
    (h : Payload.AllForeign document.object document.text) :
    (Payload.harvest document).findings.entry = .empty ∧
      (Payload.extract document).entry =
        ((Findings.empty.addSelectLists document).addConditions document).entry ∧
      ((Payload.extract document).entry = .empty ↔
        (∀ fragment ∈ SelectList.fragments document.text,
          fragment.source = document.object → fragment.fields = []) ∧
        ∀ unit ∈ units document.text, Concerns document.object unit → usages unit = []) := by
  have hcontributed := Payload.contributed_harvest h
  refine ⟨Payload.entry_eq_empty hcontributed, Payload.extract_entry hcontributed, ?_⟩
  rw [Payload.extract_entry hcontributed, Findings.addConditions_entry,
    Findings.addUsages_eq_empty_iff, Findings.addSelectLists_eq_empty_iff, List.flatMap_eq_nil_iff]
  refine and_congr (and_iff_right rfl) (forall₂_congr fun unit _ => ?_)
  rw [usagesOn, ite_eq_right_iff]

/-- A document on opportunities that holds a payload for cases. -/
def Document.casePayload (members : String) : Document where
  object := "Opportunity"
  kind := .queryLibrary
  text := ("\x60\x60\x60json\n\x7b\"object\": \"Case\", " ++ members ++
    "\x7d\n\x60\x60\x60\n").toList

/-- From a payload for cases without conditions nothing is learned of opportunities. -/
theorem foreign_payload_ignored :
    Payload.AllForeign "Opportunity" (Document.casePayload "\"fields\": [\"Id\"]").text ∧
      (Payload.extract (.casePayload "\"fields\": [\"Id\"]")).entry = .empty := by
  have hforeign : Payload.AllForeign "Opportunity"
      (Document.casePayload "\"fields\": [\"Id\"]").text := by decide +kernel
  refine ⟨hforeign, (extract_foreign _ hforeign).2.2.2 ⟨?_, ?_⟩⟩
  · decide +kernel
  · decide +kernel

/-- The conditions of a payload for cases are scraped: the beginning of the name of the field looks
    like a field of opportunities with an `IN` behind it. -/
theorem foreign_payload_scraped :
    let document := Document.casePayload "\"where\": \x7b\"Origin\": \"Web\"\x7d"
    Payload.AllForeign document.object document.text ∧
      (Payload.extract document).entry = Entry.empty.addOperator "Orig" .isIn := by
  decide +kernel

end QueryGate
