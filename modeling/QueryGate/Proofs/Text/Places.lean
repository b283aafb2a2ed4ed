import QueryGate.Proofs.Text.Split

/-!
# Places in a text

A part of a text is told apart from others that read the same by what stands before and behind
it (`Place`). Of two parts either one ends before the other begins (`Place.Before`), or they
meet. What holds no line end and meets a line is part of that line
(`Place.IsLine.before_or_before`).
-/

namespace QueryGate.Text

/-- A part of a text in its place. -/
structure Place where
  /-- What stands before the part. -/
  front : List Char
  /-- The part. -/
  part : List Char
  /-- What stands behind the part. -/
  back : List Char
  deriving DecidableEq

namespace Place

/-- The text that a place is in. -/
def text (p : Place) : List Char := p.front ++ (p.part ++ p.back)

/-- A place in the part of another one, as a place in the whole text. -/
def within (inner outer : Place) : Place :=
  ⟨outer.front ++ inner.front, inner.part, inner.back ++ outer.back⟩

/-- A part ends before another one begins. -/
def Before (p q : Place) : Prop := ∃ gap, q.front = p.front ++ (p.part ++ gap)

/-- A part is a line of the text: it begins where a line does, and is the first of the lines from
    there on. -/
structure IsLine (line : Place) : Prop where
  begins : ∀ c ∈ line.front.getLast?, c = '\n'
  first : (lines (line.part ++ line.back)).head? = some line.part

variable {p q inner outer line : Place}

theorem Before.length_le (h : p.Before q) :
    p.front.length + p.part.length ≤ q.front.length := by
  obtain ⟨gap, hgap⟩ := h
  rw [hgap, List.length_append, List.length_append, ← Nat.add_assoc]
  exact Nat.le_add_right _ _

theorem Before.within (h : p.Before outer) (inner : Place) : p.Before (inner.within outer) := by
  obtain ⟨gap, hgap⟩ := h
  exact ⟨gap ++ inner.front, by rw [Place.within, hgap]; simp⟩

theorem Before.of_within (h : outer.Before q) (hinner : inner.text = outer.part) :
    (inner.within outer).Before q := by
  obtain ⟨gap, hgap⟩ := h
  exact ⟨inner.back ++ gap, by rw [Place.within, hgap, ← hinner, text]; simp⟩

theorem text_within (hinner : inner.text = outer.part) :
    (inner.within outer).text = outer.text := by
  rw [text, text, ← hinner, text, within]
  simp

/-- A line ends at a line feed, with the carriage return before it, or with the text. -/
theorem IsLine.ends (h : line.IsLine) : '\n' ∉ line.part ∧
    (line.back = [] ∨
      line.part.getLast? ≠ some '\r' ∧ (∃ rest, line.back = '\n' :: rest) ∨
      ∃ rest, line.back = '\r' :: '\n' :: rest) := by
  obtain ⟨front, part, back⟩ := line
  have hfirst : (lines (part ++ back)).head? = some part := h.first
  dsimp only
  by_cases hmem : '\n' ∈ part ++ back
  · obtain ⟨first, rest, htext, hnot⟩ := List.eq_append_cons_of_mem hmem
    rw [htext, lines_append_feed hnot, List.head?_cons, Option.some.injEq, withoutReturn] at hfirst
    split_ifs at hfirst with hreturn
    · obtain ⟨init, rfl⟩ := List.getLast?_eq_some_iff.1 hreturn
      rw [List.dropLast_concat] at hfirst
      subst hfirst
      rw [List.append_assoc, List.append_cancel_left_eq] at htext
      exact ⟨fun hfeed => hnot (List.mem_append_left _ hfeed), .inr (.inr ⟨rest, htext⟩)⟩
    · subst hfirst
      rw [List.append_cancel_left_eq] at htext
      exact ⟨hnot, .inr (.inl ⟨hreturn, rest, htext⟩)⟩
  · rw [lines_of_not_mem hmem] at hfirst
    split_ifs at hfirst
    · cases hfirst
    · have hback : back = [] := List.append_right_eq_self.1 (Option.some.inj hfirst)
      exact ⟨fun hfeed => hmem (List.mem_append_left _ hfeed), .inl hback⟩

theorem IsLine.head_back (h : line.IsLine) : ∀ c ∈ line.back.head?, c = '\n' ∨ c = '\r' := by
  intro c hc
  rcases h.ends.2 with hback | ⟨-, rest, hback⟩ | ⟨rest, hback⟩
  · rw [hback] at hc
    cases hc
  · rw [hback] at hc
    exact .inl (Option.some.inj hc).symm
  · rw [hback] at hc
    exact .inr (Option.some.inj hc).symm

/-- What holds no line feed stands before a line, or begins where the line does or behind that. -/
theorem IsLine.before_or_behind (h : line.IsLine) (htext : p.text = line.text)
    (hp : '\n' ∉ p.part) : p.Before line ∨ line.front <+: p.front := by
  rcases List.append_eq_append_iff.1 htext with ⟨gap, hfront, hrest⟩ | ⟨left, hfront, -⟩
  · rcases List.eq_nil_or_concat' gap with rfl | ⟨init, c, rfl⟩
    · exact .inr ⟨[], by rw [hfront, List.append_nil, List.append_nil]⟩
    · -- before the line there is a line feed, at which the part has ended
      obtain rfl : c = '\n' := h.begins c (by rw [hfront, ← List.append_assoc]; simp)
      rcases List.append_eq_append_iff.1 hrest with ⟨more, hgap, -⟩ | ⟨shared, hshared, -⟩
      · exact .inl ⟨more, by rw [hfront, hgap]⟩
      · exact absurd (by rw [hshared]; simp) hp
  · exact .inr ⟨left, hfront.symm⟩

/-- What holds no line end, and is not part of a line, stands before that line or behind it. -/
theorem IsLine.before_or_before (h : line.IsLine) (htext : p.text = line.text)
    (hp : ∀ c ∈ p.part, c ≠ '\n' ∧ c ≠ '\r') (hpart : ¬p.part <:+: line.part) :
    p.Before line ∨ line.Before p := by
  rcases h.before_or_behind htext fun hfeed => (hp _ hfeed).1 rfl with hbefore | ⟨left, hleft⟩
  · exact .inl hbefore
  right
  rw [text, text, ← hleft, List.append_assoc, List.append_cancel_left_eq] at htext
  rcases List.append_eq_append_iff.1 htext with ⟨right, hright, hrest⟩ | ⟨more, rfl, -⟩
  · -- the part begins in the line, and would go on behind it
    exfalso
    rcases List.append_eq_append_iff.1 hrest with ⟨more, rfl, -⟩ | ⟨beyond, hbeyond, hback⟩
    · exact hpart ⟨left, more, by rw [hright, List.append_assoc]⟩
    · cases beyond with
      | nil => exact hpart ⟨left, [], by rw [hright, hbeyond]; simp⟩
      | cons c beyond =>
        have hmem : c ∈ p.part := by rw [hbeyond]; simp
        have hhead := h.head_back c (by rw [hback]; rfl)
        exact hhead.elim (hp c hmem).1 (hp c hmem).2
  · exact ⟨more, hleft.symm⟩

end Place

end QueryGate.Text
