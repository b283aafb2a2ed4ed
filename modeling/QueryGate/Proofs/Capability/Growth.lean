import Mathlib.Data.List.Basic
import QueryGate.Capability.View

/-!
# Views grow

Merging one more entry into the snapshot of a view lets its object have all the fields
it had, and all the operators on them but one. A field that the snapshot lists without
operators of its own accepts `=` for the lack of any, and no longer does once the entry
brings operators for it and `=` is not among them: the field *loses equality*, unless
the registry lets it accept `=`.

* `Entry.get?_merge_operators`: merging, field by field;
* `View.mem_operators_iff`: the operators of a view, entry by entry;
* `View.mem_operators_mined_iff`: what remains of the operators of a field.
-/

namespace QueryGate

/-! ## Merging -/

section Merging

variable {κ ν : Type} [Ord κ] [Std.TransOrd κ] [Std.LawfulEqOrd κ] [DecidableEq κ]

/-- Entries with different keys, put into a map one by one, are found at their keys. -/
theorem SortedMap.get?_foldl_alter (f : ν → Option ν → ν) (k : κ) {l : List (κ × ν)}
    (hl : l.Pairwise fun a b => compare a.1 b.1 = .lt) (m : SortedMap κ ν) :
    (l.foldl (fun m (k, v) => m.alter k (f v)) m).get? k =
      (l.lookup k).elim (m.get? k) fun v => some (f v (m.get? k)) := by
  induction l generalizing m with
  | nil => rfl
  | cons e l ih =>
    obtain ⟨j, v⟩ := e
    obtain ⟨hj, hl⟩ := List.pairwise_cons.1 hl
    rw [List.foldl_cons, ih hl]
    by_cases hk : k = j
    · -- no later entry has the key
      subst hk
      have hnone : l.lookup k = none := by
        refine List.lookup_eq_none_iff.2 fun e he => bne_iff_ne.2 ?_
        rintro rfl
        have hlt := hj e he
        simp [Std.ReflCmp.compare_self] at hlt
      rw [hnone, List.lookup_cons_self, get?_alter, if_pos rfl, Option.elim_none, Option.elim_some]
    · rw [List.lookup_cons, beq_eq_false_iff_ne.2 hk, get?_alter, if_neg hk]

end Merging

namespace Entry

theorem mem_merge_fields {e other : Entry} {field : String} :
    field ∈ (e.merge other).fields ↔ field ∈ e.fields ∨ field ∈ other.fields :=
  SortedSet.mem_union

theorem mem_foldl_appendNew {name : String} {names more : List String} :
    name ∈ more.foldl appendNew names ↔ name ∈ names ∨ name ∈ more := by
  induction more generalizing names with
  | nil => simp
  | cons next more ih =>
    have hnew : name ∈ appendNew names next ↔ name ∈ names ∨ name = next := by
      rw [appendNew]
      split_ifs with hmem
      · exact (or_iff_left_of_imp fun h => h ▸ hmem).symm
      · rw [List.mem_append, List.mem_singleton]
    rw [List.foldl_cons, ih, hnew, List.mem_cons, or_assoc]

theorem mem_merge_defaults {e other : Entry} {field : String} :
    field ∈ (e.merge other).defaults ↔ field ∈ e.defaults ∨ field ∈ other.defaults :=
  mem_foldl_appendNew

/-- The operators of a field that both entries have are joined. -/
theorem get?_merge_operators (e other : Entry) (field : String) :
    (e.merge other).operators.get? field =
      (other.operators.get? field).elim (e.operators.get? field) fun more =>
        some ((e.operators.get? field).getD .empty ∪ more) :=
  SortedMap.get?_foldl_alter
    (fun (more : Operators) (old : Option Operators) => old.getD .empty ∪ more) field
    other.operators.ascending e.operators

/-- The fields that have operators are those of either entry. -/
theorem contains_merge {e other : Entry} {field : String} :
    (e.merge other).operators.contains field = true ↔
      e.operators.contains field = true ∨ other.operators.contains field = true := by
  rw [SortedMap.contains, get?_merge_operators, SortedMap.contains, SortedMap.contains]
  cases other.operators.get? field <;> simp

/-- An entry that has no operators of its own for a field loses `=` on it by a merge that brings
    some without `=`. -/
def LosesEquality (e other : Entry) (field : String) : Prop :=
  e.operators.get? field = none ∧ ∃ more ∈ other.operators.get? field, .equal ∉ more

theorem LosesEquality.mem_operatorsOf {e other : Entry} {field : String}
    (h : e.LosesEquality other field) : .equal ∈ e.operatorsOf field := by
  rw [operatorsOf, h.1, Option.getD_none, SortedSet.mem_ofList]
  exact List.mem_singleton_self _

/-- A merge keeps all operators of a field but for an `=` that is lost. -/
theorem mem_operatorsOf_merge_iff {e other : Entry} {field : String} {op : Operator}
    (hop : op ∈ e.operatorsOf field) :
    op ∈ (e.merge other).operatorsOf field ↔ ¬(op = .equal ∧ e.LosesEquality other field) := by
  rw [operatorsOf] at hop
  rw [operatorsOf, get?_merge_operators, LosesEquality]
  cases hother : other.operators.get? field with
  | none => simpa using hop
  | some more =>
    cases he : e.operators.get? field with
    | some ops =>
      rw [he, Option.getD_some] at hop
      simp [hop]
    | none =>
      rw [he, Option.getD_none, SortedSet.mem_ofList, List.mem_singleton] at hop
      subst hop
      simp

theorem mentions_merge {e other : Entry} {field : String} (h : e.mentions field = true) :
    (e.merge other).mentions field = true := by
  rw [mentions, Bool.or_eq_true, decide_eq_true_eq] at h ⊢
  rcases h with h | h
  · exact .inl (mem_merge_fields.2 (.inl h))
  · exact .inr (contains_merge.2 (.inl h))

end Entry

/-! ## Views -/

namespace View

variable {view : View} {object field : String} {e : Entry} {op : Operator}

/-- What was discovered on an object. -/
def found (view : View) (object : String) : Entry := (view.discovered.get? object).getD .empty

/-- The view after one more entry was discovered for an object. -/
def mined (view : View) (object : String) (e : Entry) : View :=
  { view with
    snapshot := { view.snapshot with entries := view.discovered.mergeEntry object e } }

theorem get?_discovered_mined (view : View) (object : String) (e : Entry) :
    (view.mined object e).discovered.get? object = some ((view.found object).merge e) := by
  change (view.discovered.mergeEntry object e).get? object = _
  rw [Capabilities.mergeEntry, SortedMap.get?_alter, if_pos rfl, found]

theorem found_mined (view : View) (object : String) (e : Entry) :
    (view.mined object e).found object = (view.found object).merge e := by
  rw [found, get?_discovered_mined, Option.getD_some]

/-- An object of which something was discovered is known. -/
theorem knows_mined (view : View) (object : String) (e : Entry) :
    (view.mined object e).knows object = true := by
  rw [knows, Bool.or_eq_true]
  exact .inr (by rw [SortedMap.contains, get?_discovered_mined]; rfl)

theorem mem_fields_iff :
    field ∈ view.fields object ↔
      field ∈ view.registry.fields object ∨ field ∈ (view.found object).fields := by
  rw [fields, SortedSet.mem_union, Capabilities.fields, Capabilities.fields, found]
  cases view.discovered.get? object <;> rfl

/-- The fields of the object are those it had and those of the entry. -/
theorem mem_fields_mined :
    field ∈ (view.mined object e).fields object ↔
      field ∈ view.fields object ∨ field ∈ e.fields := by
  rw [mem_fields_iff, mem_fields_iff, found_mined, Entry.mem_merge_fields, or_assoc]
  rfl

/-- The default fields of the object remain. -/
theorem mem_defaults_mined (h : field ∈ view.defaults object) :
    field ∈ (view.mined object e).defaults object := by
  have hdefaults : ∀ v : View, v.discovered.defaults object = (v.found object).defaults := by
    intro v
    rw [Capabilities.defaults, found]
    cases v.discovered.get? object <;> rfl
  have hregistry : (view.mined object e).registry = view.registry := rfl
  dsimp only [defaults] at h ⊢
  rw [hregistry]
  split_ifs at h ⊢
  · rw [hdefaults] at h ⊢
    rw [found_mined]
    exact Entry.mem_merge_defaults.2 (.inl h)
  · exact h

/-- The registry lets a field accept an operator. -/
def Grants (view : View) (object field : String) (op : Operator) : Prop :=
  ∃ r ∈ view.registry.get? object, r.mentions field = true ∧ op ∈ r.operatorsOf field

theorem mem_foldl_operatorsOf {entries : List Entry} {ops : Operators} :
    op ∈ entries.foldl (fun ops e => ops ∪ e.operatorsOf field) ops ↔
      op ∈ ops ∨ ∃ entry ∈ entries, op ∈ entry.operatorsOf field := by
  induction entries generalizing ops with
  | nil => simp
  | cons entry entries ih => simp [ih, or_assoc]

/-- An entry on the object that mentions the field is in the registry or was discovered. -/
theorem exists_mentions_iff (view : View) (object field : String) (p : Entry → Prop) :
    (∃ entry ∈ view.entriesOf object, entry.mentions field = true ∧ p entry) ↔
      (∃ r ∈ view.registry.get? object, r.mentions field = true ∧ p r) ∨
        (view.found object).mentions field = true ∧ p (view.found object) := by
  have hfound : (∃ s ∈ view.discovered.get? object, s.mentions field = true ∧ p s) ↔
      (view.found object).mentions field = true ∧ p (view.found object) := by
    rw [found]
    cases view.discovered.get? object with
    | none =>
      refine ⟨fun ⟨s, hs, _⟩ => (by cases hs), fun h => ?_⟩
      exact absurd h.1 Bool.false_ne_true
    | some s => simp
  rw [← hfound, entriesOf]
  simp only [List.mem_append, Option.mem_toList, Option.mem_def, or_and_right, exists_or]

/-- A field that is allowed is mentioned. -/
theorem exists_mentions (hfield : field ∈ view.fields object) :
    ∃ entry ∈ view.entriesOf object, entry.mentions field = true := by
  have hiff := exists_mentions_iff view object field fun _ => True
  simp only [and_true] at hiff
  refine hiff.2 ?_
  rcases mem_fields_iff.1 hfield with h | h
  · left
    rw [Capabilities.fields] at h
    cases hr : view.registry.get? object with
    | none =>
      rw [hr] at h
      exact absurd h SortedSet.not_mem_empty
    | some r =>
      rw [hr] at h
      exact ⟨r, rfl, by simp [Entry.mentions, show field ∈ r.fields from h]⟩
  · right
    simp [Entry.mentions, h]

/-- A field that is allowed accepts what the registry lets it, and what was discovered does. -/
theorem mem_operators_iff (hfield : field ∈ view.fields object) :
    op ∈ view.operators object field ↔ view.Grants object field op ∨
      (view.found object).mentions field = true ∧ op ∈ (view.found object).operatorsOf field := by
  rw [Grants, ← exists_mentions_iff, operators]
  split
  · next hnil =>
    obtain ⟨entry, hentry, hmentions⟩ := exists_mentions hfield
    have hmem : entry ∈ (view.entriesOf object).filter fun e => e.mentions field :=
      List.mem_filter.2 ⟨hentry, hmentions⟩
    rw [hnil] at hmem
    cases hmem
  · rw [mem_foldl_operatorsOf]
    simp only [SortedSet.not_mem_empty, false_or, List.mem_filter, and_assoc]

/-- A field that was discovered loses `=` by a merge, and the registry does not grant it. -/
def LosesEquality (view : View) (object : String) (e : Entry) (field : String) : Prop :=
  field ∈ (view.found object).fields ∧ (view.found object).LosesEquality e field ∧
    ¬view.Grants object field .equal

instance : Decidable (view.LosesEquality object e field) :=
  inferInstanceAs (Decidable (_ ∧ (_ ∧ _) ∧ ¬∃ r ∈ _, _))

/-- The operators of an allowed field remain, but for an `=` that is lost. -/
theorem mem_operators_mined_iff (hfield : field ∈ view.fields object)
    (hop : op ∈ view.operators object field) :
    op ∈ (view.mined object e).operators object field ↔
      ¬(op = .equal ∧ view.LosesEquality object e field) := by
  rw [mem_operators_iff (mem_fields_mined.2 (.inl hfield)), found_mined]
  change view.Grants object field op ∨ _ ↔ _
  constructor
  · -- what is lost is granted by neither source
    rintro h ⟨rfl, -, hloses, hgrants⟩
    rcases h with h | ⟨-, h⟩
    · exact hgrants h
    · exact (Entry.mem_operatorsOf_merge_iff hloses.mem_operatorsOf).1 h ⟨rfl, hloses⟩
  · intro hkept
    rcases (mem_operators_iff hfield).1 hop with h | ⟨hmentions, h⟩
    · exact .inl h
    by_cases hmerge : op ∈ ((view.found object).merge e).operatorsOf field
    · exact .inr ⟨Entry.mentions_merge hmentions, hmerge⟩
    -- the merge loses it, so that the registry must grant it
    obtain ⟨rfl, hloses⟩ := not_not.1 fun hkept =>
      hmerge ((Entry.mem_operatorsOf_merge_iff h).2 hkept)
    left
    by_contra hgrants
    refine hkept ⟨rfl, ?_, hloses, hgrants⟩
    rw [Entry.mentions, SortedMap.contains, hloses.1, Bool.or_eq_true, decide_eq_true_eq]
      at hmentions
    exact hmentions.resolve_right Bool.false_ne_true

/-- What loses equality had it. -/
theorem LosesEquality.mem_operators (h : view.LosesEquality object e field) :
    .equal ∈ view.operators object field := by
  obtain ⟨hfound, hloses, -⟩ := h
  refine (mem_operators_iff (mem_fields_iff.2 (.inr hfound))).2 (.inr ⟨?_, ?_⟩)
  · simp [Entry.mentions, hfound]
  · exact hloses.mem_operatorsOf

end View

end QueryGate
