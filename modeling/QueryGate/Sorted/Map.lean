/-!
# Sorted maps

Finite maps, held as lists of their entries in strictly increasing order of the
keys. What a map does is what its look-up `get?` says, entry by entry:
`get?_alter` gives it after a change at one key.
-/

namespace QueryGate

/-- A finite map, as the list of its entries in increasing order of the keys. -/
structure SortedMap (κ ν : Type) [Ord κ] where
  /-- The entries, in increasing order of the keys. -/
  entries : List (κ × ν)
  /-- The order is strict. -/
  ascending : entries.Pairwise fun a b => compare a.1 b.1 = .lt

namespace SortedMap

variable {κ ν μ : Type} [Ord κ]

/-- Changes what an increasing list of entries holds at a key. -/
def alterIn (k : κ) (f : Option ν → ν) : List (κ × ν) → List (κ × ν)
  | [] => [(k, f none)]
  | (j, v) :: rest =>
    match compare k j with
    | .lt => (k, f none) :: (j, v) :: rest
    | .eq => (j, f (some v)) :: rest
    | .gt => (j, v) :: alterIn k f rest

instance [DecidableEq κ] [DecidableEq ν] : DecidableEq (SortedMap κ ν) := fun s t =>
  decidable_of_iff (s.entries = t.entries)
    ⟨fun h => by cases s; cases t; simp_all, fun h => h ▸ rfl⟩

instance [Repr κ] [Repr ν] : Repr (SortedMap κ ν) := ⟨fun m => reprPrec m.entries⟩

/-- The map without entries. -/
def empty : SortedMap κ ν := ⟨[], .nil⟩

instance : Inhabited (SortedMap κ ν) := ⟨empty⟩

/-- The keys, in increasing order. -/
def keys (m : SortedMap κ ν) : List κ := m.entries.map (·.1)

/-- The number of entries. -/
def size (m : SortedMap κ ν) : Nat := m.entries.length

/-- Whether there are no entries. -/
def isEmpty (m : SortedMap κ ν) : Bool := m.entries.isEmpty

/-- What the map holds at a key. -/
def get? [DecidableEq κ] (m : SortedMap κ ν) (k : κ) : Option ν := m.entries.lookup k

/-- Whether the map holds something at a key. -/
def contains [DecidableEq κ] (m : SortedMap κ ν) (k : κ) : Bool := (m.get? k).isSome

variable [Std.TransOrd κ] [Std.LawfulEqOrd κ]

omit [Std.TransOrd κ] in
theorem mem_alterIn {k : κ} {f : Option ν → ν} {l : List (κ × ν)} {e : κ × ν}
    (h : e ∈ alterIn k f l) : e.1 = k ∨ e ∈ l := by
  induction l with
  | nil => simp_all [alterIn]
  | cons c cs ih =>
    obtain ⟨j, v⟩ := c
    unfold alterIn at h
    split at h
    · rcases List.mem_cons.1 h with rfl | h
      · exact .inl rfl
      · exact .inr h
    · next hk =>
      rcases List.mem_cons.1 h with rfl | h
      · exact .inl (Std.LawfulEqOrd.eq_of_compare hk).symm
      · exact .inr (List.mem_cons_of_mem _ h)
    · rcases List.mem_cons.1 h with rfl | h
      · exact .inr (by simp)
      · exact (ih h).imp id (List.mem_cons_of_mem _)

theorem alterIn_ascending (k : κ) (f : Option ν → ν) {l : List (κ × ν)}
    (h : l.Pairwise fun a b => compare a.1 b.1 = .lt) :
    (alterIn k f l).Pairwise fun a b => compare a.1 b.1 = .lt := by
  induction l with
  | nil => simp [alterIn]
  | cons c cs ih =>
    obtain ⟨j, v⟩ := c
    obtain ⟨hc, hcs⟩ := List.pairwise_cons.1 h
    unfold alterIn
    split
    · next hlt =>
      refine List.pairwise_cons.2 ⟨fun b hb => ?_, h⟩
      rcases List.mem_cons.1 hb with rfl | hb
      · exact hlt
      · exact Std.TransCmp.lt_trans hlt (hc b hb)
    · exact List.pairwise_cons.2 ⟨hc, hcs⟩
    · next hgt =>
      refine List.pairwise_cons.2 ⟨fun b hb => ?_, ih hcs⟩
      rcases mem_alterIn hb with hb | hb
      · exact hb ▸ Std.OrientedCmp.gt_iff_lt.1 hgt
      · exact hc b hb

/-- The map with what it holds at `k`, if anything, changed by `f`. -/
def alter (m : SortedMap κ ν) (k : κ) (f : Option ν → ν) : SortedMap κ ν :=
  ⟨alterIn k f m.entries, alterIn_ascending k f m.ascending⟩

/-- The map with `v` at `k`, whatever was there before. -/
def insert (m : SortedMap κ ν) (k : κ) (v : ν) : SortedMap κ ν := m.alter k fun _ => v

/-- The map of a list of entries; of those with the same key the last one counts. -/
def ofList (l : List (κ × ν)) : SortedMap κ ν := l.foldl (fun m (k, v) => m.insert k v) empty

/-- The map with every entry's value changed by `f`. -/
def mapValues (f : κ → ν → μ) (m : SortedMap κ ν) : SortedMap κ μ :=
  ⟨m.entries.map fun (k, v) => (k, f k v), List.pairwise_map.2 m.ascending⟩

/-! ## Looking up -/

omit [Std.TransOrd κ] [Std.LawfulEqOrd κ] in
@[simp] theorem get?_empty [DecidableEq κ] (k : κ) : (empty : SortedMap κ ν).get? k = none := rfl

theorem lookup_alterIn [DecidableEq κ] (k j : κ) (f : Option ν → ν) {l : List (κ × ν)}
    (h : l.Pairwise fun a b => compare a.1 b.1 = .lt) :
    (alterIn k f l).lookup j = if j = k then some (f (l.lookup k)) else l.lookup j := by
  induction l with
  | nil =>
    by_cases hj : j = k
    · simp [alterIn, hj]
    · simp [alterIn, List.lookup_cons, beq_eq_false_iff_ne.2 hj, hj]
  | cons c cs ih =>
    obtain ⟨i, v⟩ := c
    obtain ⟨hc, hcs⟩ := List.pairwise_cons.1 h
    unfold alterIn
    split
    · next hlt =>
      -- the key goes before all others, so that it was not there
      have hne : ∀ e ∈ (i, v) :: cs, k ≠ e.1 := by
        intro e he hk
        have : compare k e.1 = .lt := by
          rcases List.mem_cons.1 he with rfl | he
          · exact hlt
          · exact Std.TransCmp.lt_trans hlt (hc e he)
        simp [← hk, Std.ReflCmp.compare_self] at this
      have hnone : ((i, v) :: cs).lookup k = none := by
        rw [List.lookup_eq_none_iff]
        intro e he
        simpa using hne e he
      by_cases hj : j = k
      · subst hj; simp [hnone]
      · rw [if_neg hj, List.lookup_cons, beq_eq_false_iff_ne.2 hj]
    · next heq =>
      obtain rfl := Std.LawfulEqOrd.eq_of_compare heq
      by_cases hj : j = k
      · simp [hj]
      · simp [List.lookup_cons, beq_eq_false_iff_ne.2 hj, hj]
    · next hgt =>
      have hik : k ≠ i := fun hk => by simp [hk, Std.ReflCmp.compare_self] at hgt
      rw [List.lookup_cons, ih hcs, List.lookup_cons, List.lookup_cons,
        beq_eq_false_iff_ne.2 hik]
      by_cases hj : j = i
      · subst hj; simp [Ne.symm hik]
      · simp [beq_eq_false_iff_ne.2 hj]

@[simp] theorem get?_alter [DecidableEq κ] (m : SortedMap κ ν) (k j : κ) (f : Option ν → ν) :
    (m.alter k f).get? j = if j = k then some (f (m.get? k)) else m.get? j :=
  lookup_alterIn k j f m.ascending

@[simp] theorem get?_insert [DecidableEq κ] (m : SortedMap κ ν) (k j : κ) (v : ν) :
    (m.insert k v).get? j = if j = k then some v else m.get? j := get?_alter ..

end SortedMap

end QueryGate
