/-!
# Sorted sets

Finite sets, held as lists in strictly increasing order. A set has one such list
only, so sets with the same elements are equal (`SortedSet.ext_mem`), and listing
a set in order is reading its list.
-/

namespace QueryGate

/-- A finite set, as the list of its elements in increasing order. -/
structure SortedSet (α : Type) [Ord α] where
  /-- The elements, in increasing order. -/
  toList : List α
  /-- The order is strict. -/
  ascending : toList.Pairwise fun a b => compare a b = .lt

namespace SortedSet

variable {α : Type} [Ord α]

/-- Puts an element in its place in an increasing list, unless it is there already. -/
def insertInto (a : α) : List α → List α
  | [] => [a]
  | b :: bs =>
    match compare a b with
    | .lt => a :: b :: bs
    | .eq => b :: bs
    | .gt => b :: insertInto a bs

instance : Membership α (SortedSet α) := ⟨fun s a => a ∈ s.toList⟩

theorem mem_def {a : α} {s : SortedSet α} : a ∈ s ↔ a ∈ s.toList := Iff.rfl

instance [DecidableEq α] (a : α) (s : SortedSet α) : Decidable (a ∈ s) :=
  inferInstanceAs (Decidable (a ∈ s.toList))

instance [DecidableEq α] : DecidableEq (SortedSet α) := fun s t =>
  decidable_of_iff (s.toList = t.toList) ⟨fun h => by cases s; cases t; simp_all, fun h => h ▸ rfl⟩

instance [Repr α] : Repr (SortedSet α) := ⟨fun s => reprPrec s.toList⟩

/-- The set without elements. -/
def empty : SortedSet α := ⟨[], .nil⟩

instance : Inhabited (SortedSet α) := ⟨empty⟩

/-- The number of elements. -/
def size (s : SortedSet α) : Nat := s.toList.length

/-- Whether there are no elements. -/
def isEmpty (s : SortedSet α) : Bool := s.toList.isEmpty

variable [Std.TransOrd α] [Std.LawfulEqOrd α]

omit [Std.TransOrd α] in
theorem mem_insertInto {a b : α} {l : List α} : b ∈ insertInto a l ↔ b = a ∨ b ∈ l := by
  induction l with
  | nil => simp [insertInto]
  | cons c cs ih =>
    unfold insertInto
    split
    · simp
    · next h => obtain rfl := Std.LawfulEqOrd.eq_of_compare h; simp
    · simp [ih]; grind

theorem insertInto_ascending (a : α) {l : List α}
    (h : l.Pairwise fun a b => compare a b = .lt) :
    (insertInto a l).Pairwise fun a b => compare a b = .lt := by
  induction l with
  | nil => simp [insertInto]
  | cons c cs ih =>
    obtain ⟨hc, hcs⟩ := List.pairwise_cons.1 h
    unfold insertInto
    split
    · next hlt =>
      refine List.pairwise_cons.2 ⟨fun b hb => ?_, h⟩
      rcases List.mem_cons.1 hb with rfl | hb
      · exact hlt
      · exact Std.TransCmp.lt_trans hlt (hc b hb)
    · exact h
    · next hgt =>
      refine List.pairwise_cons.2 ⟨fun b hb => ?_, ih hcs⟩
      rcases mem_insertInto.1 hb with rfl | hb
      · exact Std.OrientedCmp.gt_iff_lt.1 hgt
      · exact hc b hb

/-- The set with one more element. -/
def insert (s : SortedSet α) (a : α) : SortedSet α :=
  ⟨insertInto a s.toList, insertInto_ascending a s.ascending⟩

/-- The set with all the elements of a list added. -/
def insertAll (s : SortedSet α) (l : List α) : SortedSet α := l.foldl insert s

/-- The elements of a list. -/
def ofList (l : List α) : SortedSet α := empty.insertAll l

/-- The elements of either set. -/
def union (s t : SortedSet α) : SortedSet α := s.insertAll t.toList

instance : Union (SortedSet α) := ⟨union⟩

/-! ## Membership -/

omit [Std.TransOrd α] [Std.LawfulEqOrd α] in
@[simp] theorem not_mem_empty {a : α} : a ∉ (empty : SortedSet α) := List.not_mem_nil

@[simp] theorem mem_insert {s : SortedSet α} {a b : α} : b ∈ s.insert a ↔ b = a ∨ b ∈ s :=
  mem_insertInto

@[simp] theorem mem_insertAll {s : SortedSet α} {l : List α} {b : α} :
    b ∈ s.insertAll l ↔ b ∈ s ∨ b ∈ l := by
  induction l generalizing s with
  | nil => simp [insertAll]
  | cons a l ih =>
    rw [insertAll, List.foldl_cons, ← insertAll, ih, mem_insert, List.mem_cons]
    grind

@[simp] theorem mem_ofList {l : List α} {b : α} : b ∈ ofList l ↔ b ∈ l := by simp [ofList]

@[simp] theorem mem_union {s t : SortedSet α} {b : α} : b ∈ s ∪ t ↔ b ∈ s ∨ b ∈ t :=
  mem_insertAll

omit [Std.LawfulEqOrd α] in
/-- Sets with the same elements are equal. -/
theorem ext_mem {s t : SortedSet α} (h : ∀ a, a ∈ s ↔ a ∈ t) : s = t := by
  obtain ⟨l, hl⟩ := s
  obtain ⟨m, hm⟩ := t
  replace h : ∀ a, a ∈ l ↔ a ∈ m := h
  suffices l = m by subst this; rfl
  induction l generalizing m with
  | nil => exact (List.eq_nil_iff_forall_not_mem.2 fun a ha => by simpa using (h a).2 ha).symm
  | cons a as ih =>
    match m with
    | [] => simpa using (h a).1 (by simp)
    | b :: bs =>
      obtain ⟨ha, has⟩ := List.pairwise_cons.1 hl
      obtain ⟨hb, hbs⟩ := List.pairwise_cons.1 hm
      have irr : ∀ x : α, compare x x ≠ .lt := fun x => by simp [Std.ReflCmp.compare_self]
      have hab : a = b := by
        have h1 := (h a).1 (by simp)
        have h2 := (h b).2 (by simp)
        rcases List.mem_cons.1 h1 with h1 | h1
        · exact h1
        rcases List.mem_cons.1 h2 with h2 | h2
        · exact h2.symm
        exact (irr a (Std.TransCmp.lt_trans (ha b h2) (hb a h1))).elim
      subst hab
      congr 1
      refine ih has bs hbs fun x => ⟨fun hx => ?_, fun hx => ?_⟩
      · rcases List.mem_cons.1 ((h x).1 (List.mem_cons_of_mem _ hx)) with rfl | h'
        · exact (irr _ (ha _ hx)).elim
        · exact h'
      · rcases List.mem_cons.1 ((h x).2 (List.mem_cons_of_mem _ hx)) with rfl | h'
        · exact (irr _ (hb _ hx)).elim
        · exact h'

end SortedSet

end QueryGate
