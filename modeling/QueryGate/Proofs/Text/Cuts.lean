import Mathlib.Data.Nat.Find
import QueryGate.Proofs.Text.Split

/-!
# Cuts at several separators

A text is cut at the first place where any of some separators begins, and what follows that
separator is cut in the same way (`IsCut`). If two separators have no character in common,
this may be done for one after the other: a text that is split at one of them, and its parts
at the other, is cut at both, and in no other way (`isCut_iff`).
-/

namespace QueryGate.Text

variable {separators pieces : List (List Char)}
  {back cs piece rest tail separator other mark : List Char}

/-- No separator begins in a text before the place in front of its rest. -/
def IsFirst (separators : List (List Char)) (front rest : List Char) : Prop :=
  ∀ separator ∈ separators, ∀ left right, front ++ rest = left ++ (separator ++ right) →
    front.length ≤ left.length

/-- The pieces of a text that is cut wherever a separator begins, from left to right. -/
inductive IsCut (separators : List (List Char)) : List Char → List (List Char) → Prop
  | last {piece : List Char} (hpiece : ∀ separator ∈ separators, ¬separator <:+: piece) :
      IsCut separators piece [piece]
  | cut {piece separator rest : List Char} {pieces : List (List Char)}
      (hseparator : separator ∈ separators)
      (hfirst : IsFirst separators piece (separator ++ rest))
      (hrest : IsCut separators rest pieces) :
      IsCut separators (piece ++ (separator ++ rest)) (piece :: pieces)

theorem IsFirst.not_begins (h : IsFirst separators piece rest) (hseparator : separator ∈ separators)
    (hne : back ≠ []) (hback : back <:+ piece) : ¬separator <+: back ++ rest := by
  rintro ⟨right, hright⟩
  obtain ⟨left, rfl⟩ := hback
  have hle := h separator hseparator left right (by rw [hright, List.append_assoc])
  have hpos := List.length_pos_iff.2 hne
  rw [List.length_append] at hle
  omega

theorem IsFirst.not_stands (h : IsFirst separators piece rest) (hseparator : separator ∈ separators)
    (hne : separator ≠ []) : ¬separator <:+: piece := by
  rintro ⟨left, right, rfl⟩
  refine h.not_begins hseparator (List.append_ne_nil_of_left_ne_nil hne right) ⟨left, ?_⟩ ?_
  · rw [List.append_assoc]
  · rw [List.append_assoc]
    exact List.prefix_append _ _

/-- No separator stands in a piece. -/
theorem IsCut.not_stands (h : IsCut separators cs pieces) (hne : [] ∉ separators) :
    ∀ piece ∈ pieces, ∀ separator ∈ separators, ¬separator <:+: piece := by
  induction h with
  | last hpiece => exact List.forall_mem_singleton.2 hpiece
  | cut _ hfirst _ ih =>
    exact List.forall_mem_cons.2
      ⟨fun _ hother => hfirst.not_stands hother (ne_of_mem_of_not_mem hother hne), ih⟩

/-- Of the separators that stand in a text, one begins first. -/
theorem exists_isFirst (h : ∃ separator ∈ separators, separator <:+: cs) :
    ∃ piece, ∃ separator ∈ separators, ∃ rest, cs = piece ++ (separator ++ rest) ∧
      IsFirst separators piece (separator ++ rest) := by
  classical
  have hstands : ∃ n piece, ∃ separator ∈ separators, ∃ rest,
      cs = piece ++ (separator ++ rest) ∧ piece.length = n := by
    obtain ⟨separator, hseparator, piece, rest, hcs⟩ := h
    exact ⟨_, piece, separator, hseparator, rest, by rw [← hcs, List.append_assoc], rfl⟩
  obtain ⟨piece, separator, hseparator, rest, rfl, hpiece⟩ := Nat.find_spec hstands
  refine ⟨piece, separator, hseparator, rest, rfl, fun other hother left right hleft => ?_⟩
  rw [hpiece]
  exact Nat.find_min' hstands ⟨left, other, hother, right, hleft, rfl⟩

/-! ## Two separators -/

theorem splitOn_mark_append (hne : mark ≠ [])
    (h : ∀ back, back ≠ [] → back <:+ piece → ¬mark <+: back ++ (mark ++ rest)) :
    splitOn mark (piece ++ (mark ++ rest)) = piece :: splitOn mark rest := by
  rw [splitOn_append h, splitOn_separator hne, List.modifyHead_cons, List.append_nil]

/-- Whether a mark begins before the place where it stands does not depend on what follows. -/
theorem prefix_append_mark (h : mark <+: back ++ (mark ++ tail)) (rest : List Char) :
    mark <+: back ++ (mark ++ rest) := by
  rw [← List.append_assoc] at h ⊢
  have hlength : mark.length ≤ (back ++ mark).length := by
    rw [List.length_append]
    omega
  exact (List.prefix_of_prefix_length_le h (List.prefix_append _ _) hlength).trans
    (List.prefix_append _ _)

/-- A separator does not begin in another one with which it has no character in common. -/
theorem not_prefix_of_disjoint (hne : separator ≠ []) (hdisjoint : separator.Disjoint other)
    (hback : back ≠ []) (hother : back <:+ other) : ¬separator <+: back ++ rest := by
  obtain ⟨c, separator, rfl⟩ := List.exists_cons_of_ne_nil hne
  obtain ⟨d, back, rfl⟩ := List.exists_cons_of_ne_nil hback
  intro h
  obtain ⟨rfl, -⟩ := List.cons_prefix_cons.1 h
  exact hdisjoint List.mem_cons_self (hother.subset List.mem_cons_self)

/-- What stands before the first separator is split off, whichever it is. -/
theorem splitOn_splitOn_first (hne : separator ≠ []) (hother : other ≠ [])
    (hdisjoint : separator.Disjoint other) (hmark : mark ∈ [separator, other])
    (hfirst : IsFirst [separator, other] piece (mark ++ rest)) :
    (splitOn separator (piece ++ (mark ++ rest))).flatMap (splitOn other) =
      piece :: (splitOn separator rest).flatMap (splitOn other) := by
  have hseparator : separator ∈ [separator, other] := List.mem_cons_self
  have hmem : other ∈ [separator, other] := List.mem_cons_of_mem _ List.mem_cons_self
  rcases List.mem_pair.1 hmark with rfl | rfl
  · rw [splitOn_mark_append hne fun back => hfirst.not_begins hseparator, List.flatMap_cons,
      splitOn_eq_singleton (hfirst.not_stands hmem hother), List.singleton_append]
  · -- the mark stands within the first part, which is then split behind the piece
    have hmarkRest : splitOn separator (mark ++ rest) =
        (splitOn separator rest).modifyHead (mark ++ ·) :=
      splitOn_append fun back => not_prefix_of_disjoint hne hdisjoint
    have hpiece : ∀ tail, splitOn mark (piece ++ (mark ++ tail)) = piece :: splitOn mark tail :=
      fun tail => splitOn_mark_append hother fun back hback hsuffix hbegins =>
        hfirst.not_begins hmem hback hsuffix (prefix_append_mark hbegins rest)
    obtain ⟨part, parts, hparts⟩ : ∃ part parts, splitOn separator rest = part :: parts :=
      List.exists_cons_of_ne_nil (between_ne_nil _)
    rw [splitOn_append fun back => hfirst.not_begins hseparator, hmarkRest, hparts,
      List.modifyHead_cons, List.modifyHead_cons, List.flatMap_cons, hpiece, List.flatMap_cons,
      List.cons_append]

theorem splitOn_splitOn_last (hpiece : ∀ mark ∈ [separator, other], ¬mark <:+: piece) :
    (splitOn separator piece).flatMap (splitOn other) = [piece] := by
  rw [splitOn_eq_singleton (hpiece separator List.mem_cons_self), List.flatMap_singleton,
    splitOn_eq_singleton (hpiece other (List.mem_cons_of_mem _ List.mem_cons_self))]

theorem isCut_splitOn_splitOn (hne : separator ≠ []) (hother : other ≠ [])
    (hdisjoint : separator.Disjoint other) (cs : List Char) :
    IsCut [separator, other] cs ((splitOn separator cs).flatMap (splitOn other)) := by
  induction hlength : cs.length using Nat.strong_induction_on generalizing cs with
  | _ n ih =>
    subst hlength
    by_cases hstands : ∃ mark ∈ [separator, other], mark <:+: cs
    · obtain ⟨piece, mark, hmark, rest, rfl, hfirst⟩ := exists_isFirst hstands
      have hmarkne : mark ≠ [] := by
        rcases List.mem_pair.1 hmark with rfl | rfl
        exacts [hne, hother]
      have hshorter : rest.length < (piece ++ (mark ++ rest)).length := by
        have hpos := List.length_pos_iff.2 hmarkne
        simp only [List.length_append]
        omega
      rw [splitOn_splitOn_first hne hother hdisjoint hmark hfirst]
      exact .cut hmark hfirst (ih _ hshorter rest rfl)
    · push Not at hstands
      rw [splitOn_splitOn_last hstands]
      exact .last hstands

/-- To split a text at a separator, and its parts at another, is to cut it at both. -/
theorem isCut_iff (hne : separator ≠ []) (hother : other ≠ [])
    (hdisjoint : separator.Disjoint other) :
    IsCut [separator, other] cs pieces ↔
      pieces = (splitOn separator cs).flatMap (splitOn other) := by
  constructor
  · intro h
    induction h with
    | last hpiece => exact (splitOn_splitOn_last hpiece).symm
    | cut hmark hfirst _ ih => rw [splitOn_splitOn_first hne hother hdisjoint hmark hfirst, ih]
  · rintro rfl
    exact isCut_splitOn_splitOn hne hother hdisjoint cs

end QueryGate.Text
