import QueryGate.Proofs.Discovery.Harvest
import QueryGate.Proofs.Text.Scan

/-!
# What conditions add

What is learned from the conditions of a document comes from the units that *concern* its
object, those that read from it or from nothing (`addConditions_entry`): the fields and
operators in them are added to what is known, and nothing else changes.

* `usages_eq_nil`: units without the word `WHERE` may be passed over;
* `records_addUsages`, `mem_fields_addUsages`: what is known once conditions were added;
* `Payload.extract_parts`: where no payload contributes, select lists and conditions do.
-/

namespace QueryGate

open Text

/-! ## Entries -/

namespace Entry

/-- An entry has an operator for a field. -/
def Records (e : Entry) (field : String) (op : Operator) : Prop :=
  ∃ ops, e.operators.get? field = some ops ∧ op ∈ ops

theorem mem_addFields {e : Entry} {fields : List String} {field : String} :
    field ∈ (e.addFields fields).fields ↔ field ∈ e.fields ∨ field ∈ fields := by
  rw [addFields]
  induction fields generalizing e with
  | nil => simp
  | cons first fields ih =>
    have hfirst : field ∈ (e.addField first).fields ↔ field = first ∨ field ∈ e.fields :=
      SortedSet.mem_insert
    rw [List.foldl_cons, ih, hfirst, List.mem_cons, or_assoc, or_left_comm]

theorem operators_addFields (e : Entry) (fields : List String) :
    (e.addFields fields).operators = e.operators :=
  List.foldlRecOn (motive := fun e' : Entry => e'.operators = e.operators) _ _ rfl
    fun _ h _ _ => h

theorem records_addOperator {e : Entry} {field name : String} {op more : Operator} :
    (e.addOperator name more).Records field op ↔ (field, op) = (name, more) ∨ e.Records field op := by
  rw [Records, Records, addOperator, SortedMap.get?_alter, Prod.mk.injEq]
  by_cases hname : field = name
  · subst hname
    rw [if_pos rfl]
    cases e.operators.get? field <;> simp
  · simp [hname]

end Entry

namespace Findings

variable {f g : Findings} {usages : List (String × Operator)}

theorem addUsages_cons (f : Findings) (usage : String × Operator)
    (usages : List (String × Operator)) :
    f.addUsages (usage :: usages) = (f.addUsages [usage]).addUsages usages := rfl

theorem addUsages_append (f : Findings) (usages more : List (String × Operator)) :
    (f.addUsages (usages ++ more)).entry = ((f.addUsages usages).addUsages more).entry := by
  rw [addUsages, List.foldl_append]
  rfl

theorem addUsages_congr (h : f.entry = g.entry) (usages : List (String × Operator)) :
    (f.addUsages usages).entry = (g.addUsages usages).entry := by
  rw [addUsages, addUsages, h]

theorem records_addUsages {field : String} {op : Operator} :
    (f.addUsages usages).entry.Records field op ↔
      (field, op) ∈ usages ∨ f.entry.Records field op := by
  induction usages generalizing f with
  | nil => simp [addUsages]
  | cons usage usages ih =>
    rw [addUsages_cons, ih, List.mem_cons]
    have hstep : (f.addUsages [usage]).entry.Records field op ↔
        (field, op) = usage ∨ f.entry.Records field op := Entry.records_addOperator
    rw [hstep, or_left_comm, or_assoc]

theorem operators_addUsages (h : f.entry.operators = g.entry.operators)
    (usages : List (String × Operator)) :
    (f.addUsages usages).entry.operators = (g.addUsages usages).entry.operators := by
  induction usages generalizing f g with
  | nil => exact h
  | cons usage usages ih =>
    refine ih (f := f.addUsages [usage]) (g := g.addUsages [usage]) ?_
    exact congrArg (fun operators => SortedMap.alter operators _ _) h

theorem defaults_addUsages (f : Findings) (usages : List (String × Operator)) :
    (f.addUsages usages).entry.defaults = f.entry.defaults :=
  List.foldlRecOn (motive := fun e : Entry => e.defaults = f.entry.defaults) _ _ rfl
    fun _ h _ _ => h

theorem mem_fields_addUsages {field : String} :
    field ∈ (f.addUsages usages).entry.fields ↔
      (∃ op, (field, op) ∈ usages) ∨ field ∈ f.entry.fields := by
  induction usages generalizing f with
  | nil => simp [addUsages]
  | cons usage usages ih =>
    rw [addUsages_cons, ih]
    have hstep : field ∈ (f.addUsages [usage]).entry.fields ↔
        field = usage.1 ∨ field ∈ f.entry.fields := SortedSet.mem_insert
    simp only [hstep, List.mem_cons, exists_or, Prod.ext_iff, exists_and_left, exists_eq, and_true]
    rw [or_left_comm, or_assoc]

end Findings

/-! ## Units -/

namespace WhereClause

variable {object source : String} {unit : List Char}

theorem map_toLower_of_forall₂ {word front : List Char}
    (h : List.Forall₂ (fun w c => (fold w == fold c) = true) word front)
    (hword : word.all fun w => fold w != 's' && fold w != 'k') :
    front.map Char.toLower = word.map fold := by
  induction h with
  | nil => rfl
  | @cons w c word front hfold _ ih =>
    rw [List.all_cons, Bool.and_eq_true, Bool.and_eq_true, bne_iff_ne, bne_iff_ne] at hword
    obtain ⟨⟨hs, hk⟩, hword⟩ := hword
    have hfold : fold w = fold c := beq_iff_eq.1 hfold
    have hc : c.toLower = fold w := by
      rw [hfold, fold] at hs hk
      rw [hfold, fold]
      split_ifs at hs hk ⊢
      · exact absurd rfl hs
      · exact absurd rfl hk
      · rfl
    rw [List.map_cons, List.map_cons, hc, ih hword]

/-- Without the word `WHERE` there are no conditions. -/
theorem usages_eq_nil (h : mentionsWhere unit = false) : usages unit = [] := by
  refine List.flatMap_eq_nil_iff.2 fun clause hclause => absurd h ?_
  obtain ⟨start, rest, rest', rfl, hmatch⟩ := exists_of_mem_findAll hclause
  obtain ⟨⟨value, behind⟩, hkeyword, -⟩ := Option.map_eq_some_iff.1 hmatch
  have hafter := (keyword_eq_some hkeyword).2
  rw [afterKeyword] at hafter
  split at hafter
  · next hfolded =>
    obtain ⟨front, rfl, hfront⟩ := exists_of_afterBy hfolded
    -- no other characters fold to the letters of this word than their capitals
    have hlower : front.map Char.toLower = "where".toList :=
      map_toLower_of_forall₂ hfront (by decide)
    rw [Bool.not_eq_false, mentionsWhere, occurs_iff, lowered, ← hlower]
    exact (List.infix_append' start front _).map Char.toLower
  · cases hafter

/-- A unit concerns an object: it reads from the object, or from nothing. -/
def Concerns (object : String) (unit : List Char) : Prop :=
  ∀ source ∈ sourceOf? unit, source = object

instance (object : String) (unit : List Char) : Decidable (Concerns object unit) :=
  inferInstanceAs (Decidable (∀ source ∈ sourceOf? unit, source = object))

/-- The conditions in a unit, if it concerns an object. -/
def usagesOn (object : String) (unit : List Char) : List (String × Operator) :=
  if Concerns object unit then usages unit else []

theorem mem_usagesOn {usage : String × Operator} :
    usage ∈ usagesOn object unit ↔ Concerns object unit ∧ usage ∈ usages unit := by
  rw [usagesOn]
  split_ifs with h <;> simp [h]

theorem usagesOn_eq_nil (h : sourceOf? unit = some source) (hsource : source ≠ object) :
    usagesOn object unit = [] :=
  if_neg fun hconcerns => hsource (hconcerns source h)

end WhereClause

open WhereClause

/-! ## Documents -/

namespace Findings

variable {document : Document}

/-- What a unit adds are its conditions, if it concerns the object. -/
theorem addUnit_entry (object : String) (f : Findings) (unit : List Char) :
    (f.addUnit object unit).entry = (f.addUsages (usagesOn object unit)).entry := by
  rw [addUnit]
  split_ifs with hwhere
  · -- what the unit reads from is not looked at, but there is nothing to add
    have hnil : usagesOn object unit = [] := by
      rw [usagesOn, usages_eq_nil (by simpa using hwhere), ite_self]
    rw [hnil]
    rfl
  split
  · next other hother =>
    obtain ⟨hsource, hne⟩ := Option.filter_eq_some_iff.1 hother
    rw [usagesOn_eq_nil hsource (of_decide_eq_true hne)]
    rfl
  · next hnone =>
    rw [usagesOn, if_pos]
    intro source hsource
    have hsame := Option.filter_eq_none_iff.1 hnone source hsource
    simpa using hsame

/-- What the conditions of a document add are those in the units that concern the object. -/
theorem addConditions_entry (f : Findings) (document : Document) :
    (f.addConditions document).entry =
      (f.addUsages ((units document.text).flatMap (usagesOn document.object))).entry := by
  rw [addConditions]
  induction units document.text generalizing f with
  | nil => rfl
  | cons unit units ih =>
    rw [List.foldl_cons, ih, List.flatMap_cons, addUsages_append]
    exact addUsages_congr (addUnit_entry document.object f unit) _

theorem addSelectLists_congr {f g : Findings} (h : f.entry = g.entry) (document : Document) :
    (f.addSelectLists document).entry = (g.addSelectLists document).entry := by
  rw [addSelectLists, addSelectLists]
  induction SelectList.fragments document.text generalizing f g with
  | nil => exact h
  | cons fragment fragments ih =>
    refine ih ?_
    obtain ⟨e, issues⟩ := f
    obtain ⟨e', issues'⟩ := g
    obtain rfl : e = e' := h
    dsimp only [addFragment]
    split_ifs <;> rfl

/-- Select lists say nothing of operators. -/
theorem operators_addSelectLists (f : Findings) (document : Document) :
    (f.addSelectLists document).entry.operators = f.entry.operators := by
  refine List.foldlRecOn (motive := fun g : Findings => g.entry.operators = f.entry.operators)
    _ _ rfl fun g h fragment _ => ?_
  dsimp only [addFragment]
  split_ifs
  · exact h
  · exact h
  · exact (Entry.operators_addFields _ _).trans h
  · exact (Entry.operators_addFields _ _).trans h

end Findings

/-- Where no payload contributes, a document is read for select lists and conditions. -/
theorem Payload.extract_entry {document : Document} (h : (harvest document).contributed = false) :
    (extract document).entry =
      ((Findings.empty.addSelectLists document).addConditions document).entry := by
  dsimp only [extract]
  rw [if_neg (Bool.eq_false_iff.1 h), Findings.addConditions_entry, Findings.addConditions_entry]
  exact Findings.addUsages_congr (Findings.addSelectLists_congr (entry_eq_empty h) document) _

/-- Where no payload contributes, what is learned from a document is what is learned from its select
    lists and from its conditions. -/
theorem Payload.extract_parts {document : Document} (h : (harvest document).contributed = false) :
    (extract document).entry.operators =
        (Extractor.whereOperators.extract document).entry.operators ∧
      (extract document).entry.fields =
        (Extractor.tabular.extract document).entry.fields ∪
          (Extractor.whereOperators.extract document).entry.fields ∧
      (extract document).entry.defaults = (Extractor.tabular.extract document).entry.defaults := by
  rw [extract_entry h, Findings.addConditions_entry]
  change _ = (Findings.empty.addConditions document).entry.operators ∧
    _ = _ ∪ (Findings.empty.addConditions document).entry.fields ∧ _
  rw [Findings.addConditions_entry]
  refine ⟨?_, SortedSet.ext_mem fun field => ?_, Findings.defaults_addUsages _ _⟩
  · exact Findings.operators_addUsages (Findings.operators_addSelectLists .empty document) _
  · have hempty : field ∉ Findings.empty.entry.fields := SortedSet.not_mem_empty
    rw [SortedSet.mem_union, Findings.mem_fields_addUsages, Findings.mem_fields_addUsages, or_comm,
      or_iff_left hempty]
    rfl

end QueryGate
