import Mathlib.Data.List.Induction
import QueryGate.Proofs.Capability.Growth
import QueryGate.Proofs.Sorted.Map

/-!
# The laws of merging

Merging entries joins sets: those of the fields, and for each field those of its operators.
The default fields are a list, and keep the order in which they were first seen. So merging
is associative and absorbs what has been merged before, but it commutes only up to the
order of the default fields.

* `Entry.merge_assoc`, `Entry.merge_merge_self`: the laws that hold of all three parts;
* `Entry.fields_merge_comm`, `Entry.operators_merge_comm`: those that the sets have besides;
* `Entry.addField_eq_merge`, `Entry.addOperator_eq_merge`: whatever is added is merged;
* `Entry.joined`: what a list of entries says, which may be split and joined part by part
  (`Entry.joined_append`), and holds what some entry of it holds (`Entry.joined_iff`).
-/

namespace QueryGate

/-! ## Sets -/

namespace SortedSet

attribute [ext] ext_mem

variable {α : Type} [Ord α] [Std.TransOrd α] [Std.LawfulEqOrd α] (s t u : SortedSet α)

theorem union_assoc : s ∪ t ∪ u = s ∪ (t ∪ u) := by
  ext a
  simp only [mem_union, or_assoc]

theorem union_comm : s ∪ t = t ∪ s := by
  ext a
  rw [mem_union, mem_union, or_comm]

theorem union_union_self : s ∪ t ∪ t = s ∪ t := by
  ext a
  simp only [mem_union, or_assoc, or_self]

theorem union_self : s ∪ s = s := by
  ext a
  rw [mem_union, or_self]

theorem empty_union : empty ∪ s = s := by
  ext a
  rw [mem_union, or_iff_right not_mem_empty]

theorem union_empty : s ∪ empty = s := by
  ext a
  rw [mem_union, or_iff_left not_mem_empty]

theorem insert_eq_union (a : α) : s.insert a = s ∪ empty.insert a := by
  ext b
  simp [or_comm]

end SortedSet

namespace Entry

attribute [ext] Entry

attribute [ext (iff := false)] SortedMap.ext_get?

/-! ## Lists without repeats -/

theorem foldl_appendNew_of_subset {names more : List String} (h : more ⊆ names) :
    more.foldl appendNew names = names := by
  induction more with
  | nil => rfl
  | cons name more ih =>
    obtain ⟨hname, hmore⟩ := List.cons_subset.1 h
    rw [List.foldl_cons, appendNew, if_pos hname, ih hmore]

/-- Names may be appended to others before all of them are. -/
theorem foldl_appendNew_foldl (names more most : List String) :
    (most.foldl appendNew more).foldl appendNew names =
      most.foldl appendNew (more.foldl appendNew names) := by
  induction most generalizing more with
  | nil => rfl
  | cons name most ih =>
    rw [List.foldl_cons, ih, List.foldl_cons]
    congr 1
    rw [appendNew]
    split_ifs with hname
    · rw [appendNew, if_pos (mem_foldl_appendNew.2 (.inr hname))]
    · rw [List.foldl_append, List.foldl_cons, List.foldl_nil]

/-! ## Two entries -/

section Merging

variable (a b c : Entry)

/-- Merging is associative, on the default fields as well. -/
theorem merge_assoc : (a.merge b).merge c = a.merge (b.merge c) := by
  ext1
  · exact SortedSet.union_assoc _ _ _
  · exact (foldl_appendNew_foldl a.defaults b.defaults c.defaults).symm
  · ext1 field
    simp only [get?_merge_operators]
    cases c.operators.get? field with
    | none => rfl
    | some more =>
      cases b.operators.get? field with
      | none => simp [SortedSet.empty_union]
      | some ops => simp [SortedSet.union_assoc]

/-- Merging an entry again changes nothing. -/
theorem merge_merge_self : (a.merge b).merge b = a.merge b := by
  ext1
  · exact SortedSet.union_union_self _ _
  · exact foldl_appendNew_of_subset fun _ hname => mem_foldl_appendNew.2 (.inr hname)
  · ext1 field
    simp only [get?_merge_operators]
    cases b.operators.get? field with
    | none => rfl
    | some ops => simp [SortedSet.union_union_self]

theorem merge_self : a.merge a = a := by
  ext1
  · exact SortedSet.union_self _
  · exact foldl_appendNew_of_subset (List.Subset.refl _)
  · ext1 field
    rw [get?_merge_operators]
    cases a.operators.get? field with
    | none => rfl
    | some ops => simp [SortedSet.union_self]

theorem merge_empty : a.merge .empty = a := by
  ext1
  · exact SortedSet.union_empty _
  · rfl
  · rfl

theorem addField_eq_merge (field : String) :
    a.addField field = a.merge (empty.addField field) := by
  ext1
  · exact SortedSet.insert_eq_union _ _
  · rfl
  · rfl

theorem addOperator_eq_merge (field : String) (op : Operator) :
    a.addOperator field op = a.merge (empty.addOperator field op) := by
  ext1
  · exact SortedSet.insert_eq_union _ _
  · rfl
  · ext1 name
    rw [get?_merge_operators, addOperator, addOperator, SortedMap.get?_alter, SortedMap.get?_alter]
    split_ifs with hname
    · subst hname
      exact congrArg some (SortedSet.insert_eq_union _ _)
    · rfl

theorem fields_merge_comm : (a.merge b).fields = (b.merge a).fields :=
  SortedSet.union_comm _ _

theorem operators_merge_comm : (a.merge b).operators = (b.merge a).operators := by
  ext1 field
  rw [get?_merge_operators, get?_merge_operators]
  cases a.operators.get? field <;> cases b.operators.get? field
  · rfl
  · exact congrArg some (SortedSet.empty_union _)
  · exact congrArg some (SortedSet.empty_union _).symm
  · exact congrArg some (SortedSet.union_comm _ _)

theorem isEmpty_iff : a.isEmpty = true ↔
    (∀ field, field ∉ a.fields) ∧ ∀ field, a.operators.get? field = none := by
  rw [isEmpty, Bool.and_eq_true, SortedSet.isEmpty, SortedMap.isEmpty, List.isEmpty_iff,
    List.isEmpty_iff, List.eq_nil_iff_forall_not_mem]
  refine and_congr_right' ⟨fun h field => ?_, fun h => ?_⟩
  · rw [SortedMap.get?, h, List.lookup_nil]
  · refine List.eq_nil_iff_forall_not_mem.2 fun (field, ops) hmem => ?_
    rw [← SortedMap.get?_eq_some_iff, h field] at hmem
    cases hmem

theorem isEmpty_merge : (a.merge b).isEmpty = true ↔ a.isEmpty = true ∧ b.isEmpty = true := by
  have hfields : (∀ field, field ∉ (a.merge b).fields) ↔
      (∀ field, field ∉ a.fields) ∧ ∀ field, field ∉ b.fields := by
    simp only [mem_merge_fields, not_or, forall_and]
  have hoperators : (∀ field, (a.merge b).operators.get? field = none) ↔
      (∀ field, a.operators.get? field = none) ∧ ∀ field, b.operators.get? field = none := by
    rw [← forall_and]
    refine forall_congr' fun field => ?_
    rw [get?_merge_operators]
    cases b.operators.get? field <;> simp
  rw [isEmpty_iff, isEmpty_iff, isEmpty_iff, hfields, hoperators, and_and_and_comm]

end Merging

/-! ## Lists of entries -/

/-- What the entries of a list say. -/
def joined (entries : List Entry) : Entry := entries.foldl merge .empty

section Joining

variable {entries more : List Entry} {field : String}

theorem joined_nil : joined [] = .empty := rfl

theorem joined_concat (entries : List Entry) (last : Entry) :
    joined (entries ++ [last]) = (joined entries).merge last := by
  rw [joined, List.foldl_append]
  rfl

/-- What two lists say one after the other. -/
theorem joined_append (entries more : List Entry) :
    joined (entries ++ more) = (joined entries).merge (joined more) := by
  induction more using List.reverseRecOn with
  | nil => rw [List.append_nil, joined_nil, merge_empty]
  | append_singleton more last ih =>
    rw [← List.append_assoc, joined_concat, ih, joined_concat, merge_assoc]

/-- What a list of lists says is the same whether or not each list is joined first. -/
theorem joined_flatMap {α : Type} (f : α → List Entry) (groups : List α) :
    joined (groups.flatMap f) = joined (groups.map fun group => joined (f group)) := by
  induction groups using List.reverseRecOn with
  | nil => rfl
  | append_singleton groups group ih =>
    rw [List.flatMap_append, List.flatMap_singleton, joined_append, ih, List.map_append,
      List.map_singleton, joined_concat]

/-- What merging keeps of both sides, and nothing else brings about, a list says if an entry of it
    does. -/
theorem joined_iff {P : Entry → Prop} (hempty : ¬P .empty)
    (hmerge : ∀ a b : Entry, P (a.merge b) ↔ P a ∨ P b) :
    P (joined entries) ↔ ∃ e ∈ entries, P e := by
  induction entries using List.reverseRecOn with
  | nil => exact iff_of_false hempty fun ⟨_, h, _⟩ => List.not_mem_nil h
  | append_singleton entries last ih =>
    rw [joined_concat, hmerge, ih]
    simp [or_and_right, exists_or]

theorem mem_fields_joined : field ∈ (joined entries).fields ↔ ∃ e ∈ entries, field ∈ e.fields :=
  joined_iff (P := fun e => field ∈ e.fields) SortedSet.not_mem_empty fun _ _ => mem_merge_fields

theorem mem_defaults_joined :
    field ∈ (joined entries).defaults ↔ ∃ e ∈ entries, field ∈ e.defaults :=
  joined_iff (P := fun e => field ∈ e.defaults) List.not_mem_nil fun _ _ => mem_merge_defaults

theorem mem_keys_joined : (joined entries).operators.contains field = true ↔
    ∃ e ∈ entries, e.operators.contains field = true :=
  joined_iff (P := fun e => e.operators.contains field = true) Bool.false_ne_true
    fun _ _ => contains_merge

/-- The fields that lists with the same entries let be selected are the same. -/
theorem fields_joined_congr (h : ∀ e, e ∈ entries ↔ e ∈ more) :
    (joined entries).fields = (joined more).fields := by
  ext field
  simp only [mem_fields_joined, h]

end Joining

end Entry

end QueryGate
