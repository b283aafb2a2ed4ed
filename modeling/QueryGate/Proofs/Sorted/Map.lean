import Mathlib.Data.List.Forall2
import Mathlib.Data.List.Nodup
import Mathlib.Tactic.SplitIfs
import QueryGate.Sorted.Map

/-!
# Maps by their look-ups

A list of entries in increasing order of the keys has one entry a key at most, so that
looking up a key and finding an entry in the list are the same (`lookup_eq_some_iff`).
Hence a map is given by its look-ups (`SortedMap.ext_get?`), and a map of entries
with different keys holds them all (`SortedMap.get?_ofList`).
-/

namespace QueryGate

/-! ## Lists -/

/-- The answers of a function for the items of a list are collected if there is one for each. -/
theorem mapM_eq_some_iff {α β : Type} {f : α → Option β} {l : List α} {l' : List β} :
    l.mapM f = some l' ↔ List.Forall₂ (fun a b => f a = some b) l l' := by
  induction l generalizing l' with
  | nil => simp [List.forall₂_nil_left_iff, eq_comm]
  | cons a l ih =>
    rw [List.mapM_cons, List.forall₂_cons_left_iff]
    cases f a with
    | none => simp
    | some b =>
      cases hl : l.mapM f with
      | none => simp [← ih, hl]
      | some bs => simp [← ih, hl, eq_comm]

theorem mapM_map_eq_some {α β γ : Type} {f : α → β} {g : β → Option γ} {h : α → γ} {l : List α}
    (hgf : ∀ a ∈ l, g (f a) = some (h a)) : (l.map f).mapM g = some (l.map h) := by
  rw [mapM_eq_some_iff, List.forall₂_map_left_iff, List.forall₂_map_right_iff, List.forall₂_same]
  exact hgf

theorem exists_of_mem_mapM {α β : Type} {f : α → Option β} {l : List α} {l' : List β}
    (h : l.mapM f = some l') {b : β} (hb : b ∈ l') : ∃ a ∈ l, f a = some b := by
  rw [mapM_eq_some_iff] at h
  induction h with
  | nil => cases hb
  | cons hab _ ih =>
    rcases List.mem_cons.1 hb with rfl | hb
    · exact ⟨_, List.mem_cons_self, hab⟩
    · obtain ⟨a, ha, hab⟩ := ih hb
      exact ⟨a, List.mem_cons_of_mem _ ha, hab⟩

/-- Looking up a key among entries with their values replaced. -/
theorem lookup_map_entries {κ ν μ : Type} [BEq κ] (f : ν → μ) (l : List (κ × ν)) (key : κ) :
    (l.map fun (k, v) => (k, f v)).lookup key = (l.lookup key).map f := by
  induction l with
  | nil => rfl
  | cons e l ih =>
    rw [List.map_cons, List.lookup_cons, List.lookup_cons, ih]
    cases key == e.1 <;> rfl

/-! ## Entries in order -/

variable {κ ν : Type} [Ord κ] [Std.TransOrd κ] [Std.LawfulEqOrd κ]

/-- A list of entries is in strictly increasing order of the keys. -/
def Ascending (l : List (κ × ν)) : Prop := l.Pairwise fun a b => compare a.1 b.1 = .lt

namespace Ascending

variable {l : List (κ × ν)} {k : κ} {v : ν}

omit [Std.LawfulEqOrd κ] in
theorem nodup_keys (h : Ascending l) : (l.map (·.1)).Nodup := by
  refine List.pairwise_map.2 (h.imp ?_)
  rintro a b hlt heq
  simp [heq, Std.ReflCmp.compare_self] at hlt

/-- Looking up a key finds the entry with the key. -/
theorem lookup_eq_some_iff [DecidableEq κ] (h : Ascending l) :
    l.lookup k = some v ↔ (k, v) ∈ l := by
  induction l with
  | nil => simp
  | cons e l ih =>
    obtain ⟨j, u⟩ := e
    obtain ⟨hj, hl⟩ := List.pairwise_cons.1 h
    rw [List.lookup_cons, List.mem_cons, Prod.mk.injEq]
    by_cases hk : k = j
    · subst hk
      have hnone : (k, v) ∉ l := fun hmem => by
        have hlt := hj _ hmem
        simp [Std.ReflCmp.compare_self] at hlt
      simp [hnone, eq_comm]
    · simp [hk, ih hl, beq_eq_false_iff_ne.2 hk]

end Ascending

namespace SortedMap

variable {s t m : SortedMap κ ν} {k : κ} {v : ν} [DecidableEq κ]

theorem get?_eq_some_iff : m.get? k = some v ↔ (k, v) ∈ m.entries :=
  Ascending.lookup_eq_some_iff m.ascending

/-- Maps with the same look-ups are equal. -/
theorem ext_get? (h : ∀ k, s.get? k = t.get? k) : s = t := by
  have hmem : ∀ e, e ∈ s.entries ↔ e ∈ t.entries := fun e => by
    rw [← get?_eq_some_iff, ← get?_eq_some_iff, h]
  have hperm : s.entries.Perm t.entries :=
    (List.perm_ext_iff_of_nodup (List.Nodup.of_map _ (Ascending.nodup_keys s.ascending))
      (List.Nodup.of_map _ (Ascending.nodup_keys t.ascending))).2 hmem
  obtain ⟨l, hl⟩ := s
  obtain ⟨l', hl'⟩ := t
  have heq : l = l' := by
    refine hperm.eq_of_pairwise (fun a b _ _ hab hba => ?_) hl hl'
    have hlt := Std.TransCmp.lt_trans hab hba
    simp [Std.ReflCmp.compare_self] at hlt
  subst heq
  rfl

theorem get?_foldl_insert {l : List (κ × ν)} (hl : (l.map (·.1)).Nodup) (m : SortedMap κ ν)
    (k : κ) :
    (l.foldl (fun m (k, v) => m.insert k v) m).get? k = (l.lookup k).or (m.get? k) := by
  induction l generalizing m with
  | nil => rfl
  | cons e l ih =>
    obtain ⟨j, v⟩ := e
    obtain ⟨hj, hl⟩ := List.nodup_cons.1 hl
    rw [List.foldl_cons, ih hl, get?_insert, List.lookup_cons]
    by_cases hk : k = j
    · -- no later entry has the key
      subst hk
      have hnone : l.lookup k = none := by
        refine List.lookup_eq_none_iff.2 fun e he => bne_iff_ne.2 ?_
        rintro rfl
        exact hj (List.mem_map.2 ⟨e, he, rfl⟩)
      simp [hnone]
    · simp [hk, beq_eq_false_iff_ne.2 hk]

/-- A map of entries with different keys holds them. -/
theorem get?_ofList {l : List (κ × ν)} (hl : (l.map (·.1)).Nodup) (k : κ) :
    (ofList l).get? k = l.lookup k := by
  rw [ofList, get?_foldl_insert hl, get?_empty, Option.or_none]

theorem ofList_entries (m : SortedMap κ ν) : ofList m.entries = m :=
  ext_get? fun k => get?_ofList (Ascending.nodup_keys m.ascending) k

/-- What a map of entries holds is one of them. -/
theorem mem_of_get?_ofList {l : List (κ × ν)} (h : (ofList l).get? k = some v) : (k, v) ∈ l := by
  have hfold : ∀ m : SortedMap κ ν, (l.foldl (fun m (k, v) => m.insert k v) m).get? k = some v →
      (k, v) ∈ l ∨ m.get? k = some v := by
    clear h
    induction l with
    | nil => exact fun m h => .inr h
    | cons e l ih =>
      intro m h
      rcases ih _ h with h | h
      · exact .inl (List.mem_cons_of_mem _ h)
      · rw [get?_insert] at h
        split_ifs at h with hk
        · cases h
          subst hk
          exact .inl List.mem_cons_self
        · exact .inr h
  exact (hfold empty h).resolve_right fun h => by cases h

end SortedMap

end QueryGate
