import Mathlib.Tactic.SplitIfs
import QueryGate.Proofs.Text.Blanks

/-!
# Nested parentheses

How many parentheses are open behind a text tells all that a search outside of parentheses
needs to know of it (`depthAfter?_append`). A text is balanced if it closes all that it
opens, and nothing else; to squeeze its blanks changes nothing about that.
-/

namespace QueryGate.Text

variable {cs ds args : List Char} {depth depth' : ℕ}

/-- How many parentheses are open behind a text, of which `depth` are open before it. There is no
    answer if it closes one that is not open. -/
def depthAfter? : (depth : ℕ) → List Char → Option ℕ
  | depth, [] => some depth
  | depth, c :: cs =>
    if c = '(' then depthAfter? (depth + 1) cs
    else if c = ')' then if depth = 0 then none else depthAfter? (depth - 1) cs
    else depthAfter? depth cs

/-- A text closes the parentheses that it opens, and no others. -/
def IsBalanced (cs : List Char) : Prop := depthAfter? 0 cs = some 0

instance (cs : List Char) : Decidable (IsBalanced cs) := inferInstanceAs (Decidable (_ = _))

/-- A text without parentheses. -/
def IsFlat (cs : List Char) : Prop := ∀ c ∈ cs, c ≠ '(' ∧ c ≠ ')'

instance (cs : List Char) : Decidable (IsFlat cs) :=
  decidable_of_iff ((cs.all fun c => c != '(' && c != ')') = true) (by simp [IsFlat])

theorem depthAfter?_append (depth : ℕ) (cs ds : List Char) :
    depthAfter? depth (cs ++ ds) = (depthAfter? depth cs).bind (depthAfter? · ds) := by
  induction cs generalizing depth with
  | nil => rfl
  | cons c cs ih =>
    rw [List.cons_append, depthAfter?, depthAfter?, ih, ih, ih]
    split_ifs <;> rfl

theorem IsFlat.depthAfter?_eq (h : IsFlat cs) (depth : ℕ) : depthAfter? depth cs = some depth := by
  induction cs with
  | nil => rfl
  | cons c cs ih =>
    obtain ⟨hopen, hclose⟩ := h c List.mem_cons_self
    rw [depthAfter?, if_neg hopen, if_neg hclose, ih fun d hd => h d (List.mem_cons_of_mem _ hd)]

theorem isFlat_of_map_fold {word : List Char} (h : cs.map fold = word)
    (hword : (word.all fun c => c != '(' && c != ')') = true) : IsFlat cs := by
  intro c hc
  have hfold := List.all_eq_true.1 hword (fold c) (h ▸ List.mem_map_of_mem hc)
  rw [Bool.and_eq_true, bne_iff_ne, bne_iff_ne] at hfold
  constructor
  · rintro rfl
    exact hfold.1 (by decide)
  · rintro rfl
    exact hfold.2 (by decide)

/-- More parentheses that are open before a text are open behind it too. -/
theorem depthAfter?_add (h : depthAfter? depth cs = some depth') (more : ℕ) :
    depthAfter? (depth + more) cs = some (depth' + more) := by
  induction cs generalizing depth with
  | nil =>
    obtain rfl := Option.some.inj h
    rfl
  | cons c cs ih =>
    rw [depthAfter?] at h ⊢
    split_ifs at h ⊢ with hopen hclose hsum hzero hzero
    · rw [Nat.add_right_comm]
      exact ih h
    · omega
    · rw [Nat.sub_add_comm (Nat.one_le_iff_ne_zero.2 hzero)]
      exact ih h
    · exact ih h

theorem depthAfter?_squeeze (depth : ℕ) (cs : List Char) :
    depthAfter? depth (squeeze cs) = depthAfter? depth cs := by
  induction cs generalizing depth with
  | nil => rfl
  | cons c cs ih =>
    cases hc : isBlank c with
    | false => rw [squeeze_cons_of_not_isBlank hc, depthAfter?, depthAfter?, ih, ih, ih]
    | true =>
      have hopen : c ≠ '(' := by
        rintro rfl
        exact absurd hc (by decide)
      have hclose : c ≠ ')' := by
        rintro rfl
        exact absurd hc (by decide)
      have hspace : depthAfter? depth (' ' :: squeeze cs) = depthAfter? depth (squeeze cs) := rfl
      rw [squeeze, if_pos hc, depthAfter?, if_neg hopen, if_neg hclose, ← ih]
      split_ifs
      · rfl
      · exact hspace

theorem IsBalanced.squeezed (h : IsBalanced cs) : IsBalanced (squeeze cs) :=
  (depthAfter?_squeeze 0 cs).trans h

end QueryGate.Text
