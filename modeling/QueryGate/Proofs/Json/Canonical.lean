import Mathlib.Order.MinMax
import QueryGate.Json.Basic
import QueryGate.Proofs.Sorted.Map

/-!
# Canonical values

In canonical form an object is the map of its members: `canonicalMembers` puts them into
one, with their values in canonical form (`canonicalMembers_eq`). So the members of a
canonical object stand in increasing order of the keys, and what a member holds is
canonical again (`ascending_of_canonical`, `exists_of_mem_canonical`).

A canonical form is its own (`canonical_canonical`). Where no key stands twice in an
object, its members are looked up in the canonical form as in what was written
(`lookup_canonicalMembers`). The form is nested no deeper (`depth_canonical_le`).
-/

namespace QueryGate.Json

/-! ## Parts -/

/-- What a list or an object holds. -/
def parts : Json → List Json
  | .array items => items
  | .object members => members.map (·.2)
  | _ => []

/-- A property that lists and objects take over from what they hold is one of all values. -/
@[elab_as_elim]
theorem induction_on {motive : Json → Prop} (value : Json) (null : motive .null)
    (bool : ∀ b, motive (.bool b)) (number : ∀ n, motive (.number n))
    (string : ∀ s, motive (.string s))
    (array : ∀ items, (∀ item ∈ items, motive item) → motive (.array items))
    (object : ∀ members, (∀ member ∈ members, motive member.2) → motive (.object members)) :
    motive value :=
  match value with
  | .null => null
  | .bool b => bool b
  | .number n => number n
  | .string s => string s
  | .array items => array items fun item _ =>
    induction_on item null bool number string array object
  | .object members => object members fun member _ =>
    induction_on member.2 null bool number string array object
termination_by sizeOf value
decreasing_by
  · have := List.sizeOf_lt_of_mem ‹item ∈ items›
    simp
    omega
  · have := List.sizeOf_lt_of_mem ‹member ∈ members›
    obtain ⟨key, value⟩ := member
    simp at this ⊢
    omega

theorem itemsDepth_le_iff {n : ℕ} {items : List Json} :
    itemsDepth items ≤ n ↔ ∀ item ∈ items, item.depth ≤ n := by
  induction items with
  | nil => simp [itemsDepth]
  | cons item items ih => simp [itemsDepth, ih]

theorem membersDepth_le_iff {n : ℕ} {members : List (String × Json)} :
    membersDepth members ≤ n ↔ ∀ member ∈ members, member.2.depth ≤ n := by
  induction members with
  | nil => simp [membersDepth]
  | cons member members ih => simp [membersDepth, ih, -Prod.forall]

/-- A value is nested one level deeper than its parts. -/
theorem depth_le_succ_iff {n : ℕ} {value : Json} :
    value.depth ≤ n + 1 ↔ ∀ part ∈ value.parts, part.depth ≤ n := by
  cases value with
  | array items => rw [depth, parts, Nat.add_le_add_iff_right, itemsDepth_le_iff]
  | object members =>
    rw [depth, parts, Nat.add_le_add_iff_right, membersDepth_le_iff, List.forall_mem_map]
  | _ => simp [depth, parts]

/-! ## Canonical forms -/

/-- A member with its value in canonical form. -/
def canonicalMember (member : String × Json) : String × Json := (member.1, member.2.canonical)

theorem insertMember_eq (key : String) (value : Json) (members : List (String × Json)) :
    insertMember key value members = SortedMap.alterIn key (fun _ => value) members := by
  induction members with
  | nil => rfl
  | cons member members ih =>
    obtain ⟨k, v⟩ := member
    rw [insertMember, SortedMap.alterIn, ih]
    cases hcmp : compare key k with
    | lt => rfl
    | eq => rw [Std.LawfulEqOrd.eq_of_compare hcmp]
    | gt => rfl

/-- The members of an object in canonical form are those of a map. -/
theorem canonicalMembers_eq (members : List (String × Json)) :
    canonicalMembers members [] = (SortedMap.ofList (members.map canonicalMember)).entries := by
  have hfold : ∀ m : SortedMap String Json, canonicalMembers members m.entries =
      ((members.map canonicalMember).foldl (fun m entry => m.insert entry.1 entry.2) m).entries := by
    induction members with
    | nil => exact fun _ => rfl
    | cons member members ih =>
      intro m
      rw [canonicalMembers, insertMember_eq]
      exact ih (m.insert member.1 member.2.canonical)
  exact hfold .empty

theorem canonicalItems_eq (items : List Json) : canonicalItems items = items.map canonical := by
  induction items with
  | nil => rfl
  | cons item items ih => rw [canonicalItems, ih, List.map_cons]

variable {value : Json} {members : List (String × Json)}

/-- The members of a canonical object stand in increasing order of the keys. -/
theorem ascending_of_canonical (h : value.canonical = .object members) : Ascending members := by
  cases value with
  | object written =>
    rw [canonical, canonicalMembers_eq, object.injEq] at h
    subst h
    exact SortedMap.ascending _
  | array items => cases h
  | _ => cases h

/-- What a canonical object holds was written at its key, and is in canonical form. -/
theorem exists_of_mem_canonicalMembers {key : String} {v : Json}
    (h : (key, v) ∈ canonicalMembers members []) : ∃ u, (key, u) ∈ members ∧ v = u.canonical := by
  rw [canonicalMembers_eq, ← SortedMap.get?_eq_some_iff] at h
  obtain ⟨⟨k, u⟩, hmem, hpair⟩ := List.mem_map.1 (SortedMap.mem_of_get?_ofList h)
  cases hpair
  exact ⟨u, hmem, rfl⟩

theorem exists_of_mem_canonical (h : value.canonical = .object members) {member : String × Json}
    (hmember : member ∈ members) : ∃ u : Json, member.2 = u.canonical := by
  cases value with
  | object written =>
    rw [canonical, object.injEq] at h
    subst h
    obtain ⟨u, -, hu⟩ := exists_of_mem_canonicalMembers hmember
    exact ⟨u, hu⟩
  | array items => cases h
  | _ => cases h

/-- The items of a canonical list are in canonical form. -/
theorem exists_of_mem_canonical_array {items : List Json} (h : value.canonical = .array items)
    {item : Json} (hitem : item ∈ items) : ∃ u : Json, item = u.canonical := by
  cases value with
  | array written =>
    rw [canonical, array.injEq, canonicalItems_eq] at h
    subst h
    obtain ⟨u, -, rfl⟩ := List.mem_map.1 hitem
    exact ⟨u, rfl⟩
  | object members => cases h
  | _ => cases h

/-- An object whose members stand in increasing order of the keys keeps that order. -/
theorem canonical_object (h : Ascending members) :
    canonical (.object members) = .object (members.map canonicalMember) := by
  have hmap : Ascending (members.map canonicalMember) := List.pairwise_map.2 h
  rw [canonical, canonicalMembers_eq]
  exact congrArg (fun m => object (SortedMap.entries m))
    (SortedMap.ofList_entries ⟨members.map canonicalMember, hmap⟩)

theorem ascending_canonicalMembers (members : List (String × Json)) :
    Ascending (canonicalMembers members []) :=
  have h : canonical (.object members) = .object (canonicalMembers members []) := rfl
  ascending_of_canonical h

/-- A canonical form is its own. -/
theorem canonical_canonical (value : Json) : value.canonical.canonical = value.canonical := by
  induction value using induction_on with
  | array items ih =>
    rw [canonical, canonicalItems_eq, canonical, canonicalItems_eq, List.map_map]
    exact congrArg Json.array (List.map_congr_left ih)
  | object members ih =>
    rw [canonical, canonical_object (ascending_canonicalMembers members)]
    refine congrArg Json.object ((List.map_congr_left fun member hmember => ?_).trans (List.map_id _))
    obtain ⟨key, v⟩ := member
    obtain ⟨u, hu, rfl⟩ := exists_of_mem_canonicalMembers hmember
    exact congrArg (Prod.mk key) (ih (key, u) hu)
  | _ => rfl

/-- Where no key stands twice, the canonical form has at a key what was written there. -/
theorem lookup_canonicalMembers {members : List (String × Json)}
    (h : (members.map (·.1)).Nodup) (key : String) :
    (canonicalMembers members []).lookup key = (members.lookup key).map canonical := by
  have hkeys : ((members.map canonicalMember).map (·.1)).Nodup := by rwa [List.map_map]
  rw [canonicalMembers_eq]
  exact (SortedMap.get?_ofList hkeys key).trans (lookup_map_entries canonical members key)

/-- A canonical form is nested no deeper. -/
theorem depth_canonical_le (value : Json) : value.canonical.depth ≤ value.depth := by
  induction value using induction_on with
  | array items ih =>
    rw [canonical, canonicalItems_eq]
    refine depth_le_succ_iff.2 fun part hpart => ?_
    obtain ⟨u, hu, rfl⟩ := List.mem_map.1 hpart
    exact (ih u hu).trans (itemsDepth_le_iff.1 le_rfl u hu)
  | object members ih =>
    refine depth_le_succ_iff.2 fun part hpart => ?_
    obtain ⟨⟨key, v⟩, hmember, rfl⟩ := List.mem_map.1 hpart
    obtain ⟨u, hu, rfl⟩ := exists_of_mem_canonicalMembers hmember
    exact (ih (key, u) hu).trans (membersDepth_le_iff.1 le_rfl (key, u) hu)
  | _ => exact le_rfl

end QueryGate.Json
