import Mathlib.Data.List.Infix
import Mathlib.Tactic.SplitIfs
import QueryGate.Proofs.Text.Scan

/-!
# Splitting what was joined

Parts with a separator between them are what a split at the separator gives back, if the
separator does not start within any of them (`Unbroken`, `splitOn_intercalate`).

* `unbroken_joinLines`: empty lines do not start within lines that are not empty;
* `not_infix_joinLines`: a word without line feeds occurs in lines if it does in one;
* `lines_joinLines`: lines are read back;
* `lines_append_feed`: the first line of a text, and those behind it.
-/

namespace QueryGate.Text

/-! ## Separators -/

section Separators

variable {separator part cs : List Char} {c : Char}

theorem consFirst_eq_modifyHead {parts : List (List Char)} (h : parts ≠ []) (c : Char) :
    consFirst c parts = parts.modifyHead (c :: ·) := by
  cases parts with
  | nil => exact absurd rfl h
  | cons first rest => rfl

theorem between_ne_nil {α : Type} (ps : List (Piece α)) : between ps ≠ [] := by
  cases ps with
  | nil => exact List.cons_ne_nil _ _
  | cons p ps =>
    cases p with
    | found value => exact List.cons_ne_nil _ _
    | plain c => rw [between]; cases between ps <;> exact List.cons_ne_nil _ _

/-- Where a text is searched for a fixed word, nothing but what is still ahead matters. -/
theorem piecesFrom_literal (word : List Char) (before : Option Char) (skip : ℕ) (cs : List Char) :
    piecesFrom (literal word) before skip cs = pieces (literal word) (cs.drop skip) := by
  induction cs generalizing before skip with
  | nil => cases skip <;> rfl
  | cons c cs ih =>
    cases skip with
    | zero => rfl
    | succ skip => rw [piecesFrom, ih, List.drop_succ_cons]

/-- A separator parts what stands before it from what follows. -/
theorem splitOn_separator (h : separator ≠ []) (cs : List Char) :
    splitOn separator (separator ++ cs) = [] :: splitOn separator cs := by
  cases separator with
  | nil => exact absurd rfl h
  | cons d separator =>
    have hmatch : literal (d :: separator) none (d :: (separator ++ cs)) = some ((), cs) := by
      rw [literal, ← List.cons_append, after_eq_some_iff.2 rfl]
      rfl
    rw [splitOn, pieces, List.cons_append, piecesFrom, hmatch]
    dsimp only
    rw [piecesFrom_literal, List.length_append, Nat.add_sub_cancel, List.drop_left]
    rfl

theorem splitOn_cons (h : ¬separator <+: c :: cs) :
    splitOn separator (c :: cs) = (splitOn separator cs).modifyHead (c :: ·) := by
  have hmatch : literal separator none (c :: cs) = none :=
    Option.not_isSome_iff_eq_none.1 (mt literal_isSome_iff.1 h)
  rw [splitOn, pieces, piecesFrom, hmatch]
  dsimp only
  rw [piecesFrom_literal, between, consFirst_eq_modifyHead (between_ne_nil _)]
  rfl

/-- A separator does not start within a part, whatever follows it. -/
def Unbroken (separator part : List Char) : Prop :=
  ∀ back rest, back ≠ [] → back <:+ part → ¬separator <+: back ++ rest

/-- A part of a text belongs to the first part of all of it, if the separator does not start within
    it there. -/
theorem splitOn_append (h : ∀ back, back ≠ [] → back <:+ part → ¬separator <+: back ++ cs) :
    splitOn separator (part ++ cs) = (splitOn separator cs).modifyHead (part ++ ·) := by
  induction part with
  | nil =>
    rw [List.nil_append]
    cases splitOn separator cs <;> rfl
  | cons c part ih =>
    have hstart := h (c :: part) (List.cons_ne_nil _ _) List.suffix_rfl
    have hpart := ih fun back hne hback => h back hne (hback.trans (List.suffix_cons c part))
    rw [List.cons_append] at hstart ⊢
    rw [splitOn_cons hstart, hpart, List.modifyHead_modifyHead]
    rfl

/-- An unbroken part belongs to the first part of a text that starts with it. -/
theorem Unbroken.splitOn_append (h : Unbroken separator part) (cs : List Char) :
    splitOn separator (part ++ cs) = (splitOn separator cs).modifyHead (part ++ ·) :=
  Text.splitOn_append fun back => h back cs

/-- Unbroken parts with separators between them are given back by a split. -/
theorem splitOn_intercalate {parts : List (List Char)} (hseparator : separator ≠ [])
    (hparts : parts ≠ []) (h : ∀ part ∈ parts, Unbroken separator part) :
    splitOn separator (separator.intercalate parts) = parts := by
  induction parts with
  | nil => exact absurd rfl hparts
  | cons part parts ih =>
    have hpart := h part List.mem_cons_self
    cases parts with
    | nil =>
      rw [List.intercalate_singleton, ← List.append_nil part, hpart.splitOn_append]
      rfl
    | cons next parts =>
      rw [List.intercalate_cons_cons, List.append_assoc, hpart.splitOn_append,
        splitOn_separator hseparator, ih (List.cons_ne_nil _ _)
          fun part hmem => h part (List.mem_cons_of_mem _ hmem)]
      rw [List.modifyHead_cons, List.append_nil]

/-- A text in which the separator does not occur has one part. -/
theorem splitOn_eq_singleton (h : ¬separator <:+: cs) : splitOn separator cs = [cs] := by
  induction cs with
  | nil => rfl
  | cons c cs ih =>
    rw [splitOn_cons fun hstart => h hstart.isInfix,
      ih fun hin => h (hin.trans (List.suffix_cons c cs).isInfix)]
    rfl

end Separators

/-! ## Lines -/

theorem splitWhere_eq_splitOnP (p : Char → Bool) (cs : List Char) :
    splitWhere p cs = cs.splitOnP p := by
  induction cs with
  | nil => rfl
  | cons c cs ih =>
    rw [splitWhere, List.splitOnP_cons_eq_if_modifyHead, ih,
      consFirst_eq_modifyHead (List.splitOnP_ne_nil p cs)]

theorem splitWhere_of_not_mem {line : List Char} (h : '\n' ∉ line) :
    splitWhere (· == '\n') line = [line] := by
  rw [splitWhere_eq_splitOnP]
  exact List.splitOnP_eq_singleton fun c hc => beq_eq_false_iff_ne.2 (ne_of_mem_of_not_mem hc h)

/-- A text without line feeds is one line, unless it is empty. -/
theorem lines_of_not_mem {line : List Char} (h : '\n' ∉ line) :
    lines line = if line.isEmpty then [] else [line] := by
  dsimp only [lines]
  rw [splitWhere_of_not_mem h]
  cases line <;> rfl

/-- The first line of a text is what stands before the first line feed. -/
theorem lines_append_feed {line : List Char} (h : '\n' ∉ line) (rest : List Char) :
    lines (line ++ '\n' :: rest) = withoutReturn line :: lines rest := by
  have hsplit : splitWhere (· == '\n') (line ++ '\n' :: rest) =
      line :: splitWhere (· == '\n') rest := by
    rw [splitWhere_eq_splitOnP, splitWhere_eq_splitOnP, List.splitOnP_append_cons _ _ rfl,
      ← splitWhere_eq_splitOnP, splitWhere_of_not_mem h]
    rfl
  have hne : splitWhere (· == '\n') rest ≠ [] := by
    rw [splitWhere_eq_splitOnP]
    exact List.splitOnP_ne_nil _ rest
  dsimp only [lines]
  rw [hsplit, List.dropLast_cons_of_ne_nil hne, List.getLast?_cons_of_ne_nil hne]
  rfl

/-- What holds for texts without line feeds, and for a line with a text behind it if it does for
    that, holds for all texts. -/
theorem line_by_line {motive : List Char → Prop} (last : ∀ line, '\n' ∉ line → motive line)
    (first : ∀ line rest, '\n' ∉ line → motive rest → motive (line ++ '\n' :: rest))
    (cs : List Char) : motive cs := by
  induction hlength : cs.length using Nat.strong_induction_on generalizing cs with
  | _ n ih =>
    subst hlength
    by_cases hmem : '\n' ∈ cs
    · obtain ⟨line, rest, rfl, hline⟩ := List.eq_append_cons_of_mem hmem
      refine first line rest hline (ih rest.length ?_ rest rfl)
      rw [List.length_append, List.length_cons]
      omega
    · exact last cs hmem

theorem not_mem_of_mem_lines {cs line : List Char} (hline : line ∈ lines cs) : '\n' ∉ line := by
  induction cs using line_by_line with
  | last last hlast =>
    rw [lines_of_not_mem hlast] at hline
    split_ifs at hline
    · cases hline
    · rwa [List.mem_singleton.1 hline]
  | first first rest hfirst ih =>
    rw [lines_append_feed hfirst] at hline
    rcases List.mem_cons.1 hline with rfl | hline
    · rw [withoutReturn]
      split_ifs
      · exact fun hmem => hfirst (List.mem_of_mem_dropLast hmem)
      · exact hfirst
    · exact ih hline

/-- The text that lines make up, with a line feed between any two. -/
def joinLines (ls : List (List Char)) : List Char := ['\n'].intercalate ls

theorem joinLines_cons_cons (line next : List Char) (ls : List (List Char)) :
    joinLines (line :: next :: ls) = line ++ '\n' :: joinLines (next :: ls) := by
  rw [joinLines, List.intercalate_cons_cons, List.append_assoc]
  rfl

theorem Unbroken.cons_of_ne {separator part : List Char} {c d : Char}
    (h : Unbroken (d :: separator) part) (hc : c ≠ d) : Unbroken (d :: separator) (c :: part) := by
  intro back rest hne hback hstart
  rcases List.suffix_cons_iff.1 hback with rfl | hback
  · exact hc (List.cons_prefix_cons.1 hstart).1.symm
  · exact h back rest hne hback hstart

/-- No empty line starts within lines that are not empty. -/
theorem unbroken_joinLines {ls : List (List Char)} (h : ∀ line ∈ ls, line ≠ [] ∧ '\n' ∉ line) :
    Unbroken ['\n', '\n'] (joinLines ls) := by
  have hnil : Unbroken ['\n', '\n'] [] :=
    fun back _ hne hback => absurd (List.suffix_nil.1 hback) hne
  have happend : ∀ line part, '\n' ∉ line → Unbroken ['\n', '\n'] part →
      Unbroken ['\n', '\n'] (line ++ part) := by
    intro line part hline hpart
    induction line with
    | nil => exact hpart
    | cons c line ih =>
      rw [List.mem_cons, not_or] at hline
      exact (ih hline.2).cons_of_ne (Ne.symm hline.1)
  induction ls with
  | nil => exact hnil
  | cons line ls ih =>
    have hline := (h line List.mem_cons_self).2
    cases ls with
    | nil =>
      rw [joinLines, List.intercalate_singleton, ← List.append_nil line]
      exact happend line [] hline hnil
    | cons next ls =>
      have hrest := ih fun line hmem => h line (List.mem_cons_of_mem _ hmem)
      rw [joinLines_cons_cons]
      refine happend line _ hline fun back rest hne hback hstart => ?_
      rcases List.suffix_cons_iff.1 hback with rfl | hback
      · -- the next line starts with something else than a line feed
        obtain ⟨hne, hnext⟩ := h next (List.mem_cons_of_mem _ List.mem_cons_self)
        obtain ⟨c, next, rfl⟩ := List.exists_cons_of_ne_nil hne
        have hfeed := (List.cons_prefix_cons.1 hstart).2
        cases ls with
        | nil =>
          rw [joinLines, List.intercalate_singleton] at hfeed
          exact hnext (List.mem_cons.2 (.inl (List.cons_prefix_cons.1 hfeed).1))
        | cons line ls =>
          rw [joinLines_cons_cons] at hfeed
          exact hnext (List.mem_cons.2 (.inl (List.cons_prefix_cons.1 hfeed).1))
      · exact hrest back rest hne hback hstart

/-- A word that occurs in lines, and holds no line feed, occurs in one of them. -/
theorem not_infix_joinLines {word : List Char} {ls : List (List Char)} (hword : word ≠ [])
    (hfeed : '\n' ∉ word) (h : ∀ line ∈ ls, ¬word <:+: line) : ¬word <:+: joinLines ls := by
  have hbegin : ∀ word' back, word' <+: '\n' :: back → word' ≠ [] → '\n' ∈ word' := by
    intro word' back hstart hne
    obtain ⟨c, word', rfl⟩ := List.exists_cons_of_ne_nil hne
    rw [(List.cons_prefix_cons.1 hstart).1]
    exact List.mem_cons_self
  induction ls with
  | nil => exact fun hin => hword (List.infix_nil.1 hin)
  | cons line ls ih =>
    have hline := h line List.mem_cons_self
    cases ls with
    | nil => rwa [joinLines, List.intercalate_singleton]
    | cons next ls =>
      have hrest := ih fun line hmem => h line (List.mem_cons_of_mem _ hmem)
      rw [joinLines_cons_cons, List.infix_append_iff, List.infix_cons_iff]
      rintro (hin | (hstart | hin) | ⟨front, back, rfl, hfront, hback⟩)
      · exact hline hin
      · exact hfeed (hbegin _ _ hstart hword)
      · exact hrest hin
      · -- the word would have to hold the line feed that it stands across
        by_cases hne : back = []
        · subst hne
          rw [List.append_nil] at hline
          exact hline hfront.isInfix
        · exact hfeed (List.mem_append_right _ (hbegin _ _ hback hne))

/-- Lines that hold no line ends are read back. -/
theorem lines_joinLines {ls : List (List Char)}
    (h : ∀ line ∈ ls, line ≠ [] ∧ '\n' ∉ line ∧ line.getLast? ≠ some '\r') :
    lines (joinLines ls) = ls := by
  rcases List.eq_nil_or_concat ls with rfl | ⟨init, last, rfl⟩
  · rfl
  rw [List.concat_eq_append] at h ⊢
  have hsplit : splitWhere (· == '\n') (joinLines (init ++ [last])) = init ++ [last] := by
    rw [splitWhere_eq_splitOnP]
    refine List.splitOn_intercalate '\n' (fun line hline => (h line hline).2.1) ?_
    exact List.append_ne_nil_of_right_ne_nil _ (List.cons_ne_nil _ _)
  have hinit : init.map withoutReturn = init := by
    refine (List.map_congr_left fun line hline => ?_).trans (List.map_id init)
    rw [withoutReturn, if_neg (h line (List.mem_append_left _ hline)).2.2]
    rfl
  have hlast := (h last (List.mem_append_right _ List.mem_cons_self)).1
  dsimp only [lines]
  rw [hsplit, List.dropLast_concat, List.getLast?_concat, hinit, Option.filter_some]
  simp [hlast]

end QueryGate.Text
