import Mathlib.Data.List.TakeWhile
import Mathlib.Tactic.SplitIfs
import QueryGate.Proofs.Text.Split

/-!
# Blanks

To collapse the blanks of a text is to trim it and to put one space in the place of each
run of them that is left (`collapse_eq`). Unlike the words it is defined by, this can be
read off the parts of a text (`squeeze_append`), and off what it holds between its
blanks (`exists_trim`, `trim_squeeze`).
-/

namespace QueryGate.Text

variable {cs ds front back : List Char} {c : Char}

/-- A text of blanks. -/
def AllBlank (cs : List Char) : Prop := ∀ c ∈ cs, isBlank c = true

/-- A text neither starts nor ends with a blank. -/
structure IsTrim (cs : List Char) : Prop where
  head : cs.head?.any isBlank = false
  last : cs.getLast?.any isBlank = false

instance (cs : List Char) : Decidable (AllBlank cs) :=
  decidable_of_iff (cs.all isBlank = true) List.all_eq_true

/-! ## Trimming -/

theorem trimStart_of_head (h : cs.head?.any isBlank = false) : trimStart cs = cs := by
  cases cs with
  | nil => rfl
  | cons c cs => exact List.dropWhile_cons_of_neg (Bool.eq_false_iff.1 h)

/-- A text is as trim as what it starts and ends with. -/
theorem IsTrim.append (hfront : IsTrim front) (hfrontne : front ≠ []) (hback : IsTrim back)
    (hbackne : back ≠ []) (cs : List Char) : IsTrim (front ++ (cs ++ back)) where
  head := by
    rw [List.head?_append_of_ne_nil front hfrontne]
    exact hfront.head
  last := by
    rw [← List.append_assoc, List.getLast?_append_of_ne_nil _ hbackne]
    exact hback.last

theorem IsTrim.reverse (h : IsTrim cs) : IsTrim cs.reverse where
  head := by rw [List.head?_reverse]; exact h.last
  last := by rw [List.getLast?_reverse]; exact h.head

theorem trimStart_append (hfront : AllBlank front) : trimStart (front ++ cs) = trimStart cs :=
  List.dropWhile_append_of_pos hfront

theorem trimStart_of_allBlank (h : AllBlank cs) : trimStart cs = [] :=
  List.dropWhile_eq_nil_iff.2 h

/-- What stands between blanks is what is left when they are trimmed off. -/
theorem trim_append (hfront : AllBlank front) (h : IsTrim cs) (hback : AllBlank back) :
    trim (front ++ (cs ++ back)) = cs := by
  have hback' : AllBlank back.reverse := fun c hc => hback c (List.mem_reverse.1 hc)
  rw [trim, trimStart_append hfront, dropEndWhile]
  cases cs with
  | nil =>
    rw [List.nil_append, trimStart_of_allBlank hback]
    rfl
  | cons c cs =>
    have hstart : trimStart (c :: (cs ++ back)) = (c :: cs) ++ back := trimStart_of_head h.head
    rw [List.cons_append, hstart, List.reverse_append]
    change (trimStart _).reverse = _
    rw [trimStart_append hback', trimStart_of_head h.reverse.head, List.reverse_reverse]

theorem IsTrim.trim_eq (h : IsTrim cs) : trim cs = cs := by
  have hnil : AllBlank [] := fun _ hc => absurd hc List.not_mem_nil
  have htrim := trim_append hnil h hnil
  rwa [List.append_nil, List.nil_append] at htrim

theorem head_trimStart (cs : List Char) : (trimStart cs).head?.any isBlank = false := by
  induction cs with
  | nil => rfl
  | cons c cs ih =>
    cases hc : isBlank c with
    | true => rwa [trimStart, List.dropWhile_cons_of_pos hc]
    | false => rwa [trimStart, List.dropWhile_cons_of_neg (Bool.eq_false_iff.1 hc)]

/-- A text has blanks around what is left when it is trimmed. -/
theorem exists_trim (cs : List Char) : ∃ front back, AllBlank front ∧ AllBlank back ∧
    IsTrim (trim cs) ∧ cs = front ++ (trim cs ++ back) := by
  have hblank : ∀ cs : List Char, AllBlank (cs.takeWhile isBlank) := fun cs =>
    List.all_eq_true.1 List.all_takeWhile
  set middle := trimStart cs with hmiddle
  have hend : trim cs ++ (middle.reverse.takeWhile isBlank).reverse = middle := by
    rw [trim, dropEndWhile, ← List.reverse_append, List.takeWhile_append_dropWhile,
      List.reverse_reverse]
  refine ⟨cs.takeWhile isBlank, (middle.reverse.takeWhile isBlank).reverse, hblank cs,
    fun c hc => hblank _ c (List.mem_reverse.1 hc), ⟨?_, ?_⟩, ?_⟩
  · -- the text starts as it does once its first blanks are trimmed off
    have hhead := head_trimStart cs
    rw [← hmiddle, ← hend] at hhead
    cases htrim : trim cs with
    | nil => rfl
    | cons c rest => rwa [htrim] at hhead
  · rw [trim, dropEndWhile, List.getLast?_reverse]
    exact head_trimStart _
  · rw [hend]
    exact List.takeWhile_append_dropWhile.symm

theorem mem_trim_iff (hc : isBlank c = false) : c ∈ trim cs ↔ c ∈ cs := by
  obtain ⟨front, back, hfront, hback, -, hcs⟩ := exists_trim cs
  have hout : ∀ blanks, AllBlank blanks → c ∉ blanks := fun blanks hblanks hmem =>
    Bool.false_ne_true (hc.symm.trans (hblanks c hmem))
  conv_rhs => rw [hcs]
  simp [hout front hfront, hout back hback]

/-! ## Squeezing -/

/-- The text with one space in the place of each run of blanks. -/
def squeeze : List Char → List Char
  | [] => []
  | c :: cs =>
    if isBlank c then
      -- the last blank of a run stands for all of it
      if cs.head?.any isBlank then squeeze cs else ' ' :: squeeze cs
    else c :: squeeze cs

theorem squeeze_cons_of_not_isBlank (hc : isBlank c = false) (cs : List Char) :
    squeeze (c :: cs) = c :: squeeze cs := by
  rw [squeeze, hc, if_neg Bool.false_ne_true]

/-- Parts of a text are squeezed on their own unless a run of blanks goes on from one to the
    other. -/
theorem squeeze_append
    (h : front.getLast?.any isBlank = false ∨ back.head?.any isBlank = false) :
    squeeze (front ++ back) = squeeze front ++ squeeze back := by
  induction front with
  | nil => rfl
  | cons c front ih =>
    cases front with
    | nil =>
      rw [List.singleton_append, squeeze, squeeze]
      cases hc : isBlank c with
      | false => rfl
      | true =>
        have hback : back.head?.any isBlank = false :=
          h.resolve_left fun hfalse => Bool.false_ne_true (hfalse.symm.trans hc)
        rw [hback]
        rfl
    | cons d front =>
      rw [List.getLast?_cons_cons] at h
      have ih := ih h
      rw [List.cons_append, squeeze, squeeze, ih]
      split_ifs <;> simp_all

theorem squeeze_of_not_isBlank (h : ∀ c ∈ cs, isBlank c = false) : squeeze cs = cs := by
  induction cs with
  | nil => rfl
  | cons c cs ih =>
    rw [squeeze_cons_of_not_isBlank (h c List.mem_cons_self),
      ih fun d hd => h d (List.mem_cons_of_mem _ hd)]

theorem squeeze_of_allBlank (h : AllBlank cs) : squeeze cs = if cs.isEmpty then [] else [' '] := by
  induction cs with
  | nil => rfl
  | cons c cs ih =>
    rw [squeeze, if_pos (h c List.mem_cons_self), ih fun d hd => h d (List.mem_cons_of_mem _ hd)]
    cases cs with
    | nil => rfl
    | cons d cs => exact if_pos (h d (List.mem_cons_of_mem _ List.mem_cons_self))

/-- A text that holds blanks still holds one when it is squeezed. -/
theorem space_mem_squeeze (h : ∃ c ∈ cs, isBlank c = true) : ' ' ∈ squeeze cs := by
  induction cs with
  | nil => exact absurd h (by simp)
  | cons c cs ih =>
    obtain ⟨d, hmem, hd⟩ := h
    rcases List.mem_cons.1 hmem with rfl | hmem
    · rw [squeeze, if_pos hd]
      split_ifs with hnext
      · obtain ⟨e, he, hblank⟩ := (Option.any_eq_true _ _).1 hnext
        exact ih ⟨e, List.mem_of_head? he, hblank⟩
      · exact List.mem_cons_self
    · have hin := ih ⟨d, hmem, hd⟩
      rw [squeeze]
      split_ifs
      · exact hin
      · exact List.mem_cons_of_mem _ hin
      · exact List.mem_cons_of_mem _ hin

/-- Squeezing takes no characters but blanks. -/
theorem mem_squeeze_iff (hc : isBlank c = false) : c ∈ squeeze cs ↔ c ∈ cs := by
  have hspace : c ≠ ' ' := by
    rintro rfl
    exact absurd hc (by decide)
  induction cs with
  | nil => rfl
  | cons d cs ih =>
    have hne : isBlank d = true → c ≠ d := by
      rintro hd rfl
      exact Bool.false_ne_true (hc.symm.trans hd)
    rw [squeeze]
    split_ifs with hd
    · simp [ih, hne hd]
    · simp [ih, hne hd, hspace]
    · simp [ih]

theorem AllBlank.squeezed (h : AllBlank cs) : AllBlank (squeeze cs) := by
  rw [squeeze_of_allBlank h]
  split_ifs
  · exact fun _ hc => absurd hc List.not_mem_nil
  · decide

theorem IsTrim.squeezed (h : IsTrim cs) : IsTrim (squeeze cs) where
  head := by
    cases cs with
    | nil => rfl
    | cons c cs =>
      rw [squeeze_cons_of_not_isBlank h.head]
      exact h.head
  last := by
    rcases List.eq_nil_or_concat cs with rfl | ⟨front, c, rfl⟩
    · rfl
    · rw [List.concat_eq_append] at h ⊢
      have hc : isBlank c = false := by
        have hlast := h.last
        rwa [List.getLast?_concat] at hlast
      have hconcat : squeeze (front ++ [c]) = squeeze front ++ squeeze [c] :=
        squeeze_append (.inr hc)
      rw [hconcat, squeeze_cons_of_not_isBlank hc, squeeze, List.getLast?_concat]
      exact hc

theorem AllBlank.trim_eq (h : AllBlank cs) : trim cs = [] := by
  rw [trim, trimStart_of_allBlank h]
  rfl

/-- Trimming and squeezing do not depend on their order. -/
theorem trim_squeeze (cs : List Char) : trim (squeeze cs) = squeeze (trim cs) := by
  obtain ⟨front, back, hfront, hback, htrim, hcs⟩ := exists_trim cs
  by_cases hnil : trim cs = []
  · have hblank : AllBlank cs := by
      rw [hcs, hnil]
      exact fun c hc => (List.mem_append.1 hc).elim (hfront c) (hback c)
    rw [hnil, hblank.squeezed.trim_eq]
    rfl
  · have hhead : (trim cs ++ back).head?.any isBlank = false := by
      rw [List.head?_append_of_ne_nil _ hnil]
      exact htrim.head
    have hsqueeze : squeeze cs = squeeze front ++ (squeeze (trim cs) ++ squeeze back) :=
      calc squeeze cs = squeeze (front ++ (trim cs ++ back)) := congrArg squeeze hcs
        _ = squeeze front ++ squeeze (trim cs ++ back) := squeeze_append (.inr hhead)
        _ = squeeze front ++ (squeeze (trim cs) ++ squeeze back) := by
          rw [squeeze_append (.inl htrim.last)]
    rw [hsqueeze, trim_append hfront.squeezed htrim.squeezed hback.squeezed]

/-! ## Collapsing -/

/-- A blank parts the words of a text. -/
theorem words_append_cons (hc : isBlank c = true) (front back : List Char) :
    words (front ++ c :: back) = words front ++ words back := by
  rw [words, words, words, ← List.filter_append, splitWhere_eq_splitOnP, splitWhere_eq_splitOnP,
    splitWhere_eq_splitOnP, List.splitOnP_append_cons front back hc]

theorem words_of_allBlank (h : AllBlank cs) : words cs = [] := by
  induction cs with
  | nil => rfl
  | cons c cs ih =>
    rw [← List.nil_append (c :: cs), words_append_cons (h c List.mem_cons_self),
      ih fun d hd => h d (List.mem_cons_of_mem _ hd)]
    rfl

/-- Blanks around a text add no words to it. -/
theorem words_append (hfront : AllBlank front) (hback : AllBlank back) (cs : List Char) :
    words (front ++ (cs ++ back)) = words cs := by
  have hend : words (cs ++ back) = words cs := by
    cases back with
    | nil => rw [List.append_nil]
    | cons c back =>
      rw [words_append_cons (hback c List.mem_cons_self),
        words_of_allBlank fun d hd => hback d (List.mem_cons_of_mem _ hd), List.append_nil]
  rcases List.eq_nil_or_concat front with rfl | ⟨front, c, rfl⟩
  · exact hend
  · rw [List.concat_eq_append] at hfront ⊢
    have hblank := words_of_allBlank fun d hd => hfront d (List.mem_append_left _ hd)
    rw [List.append_assoc, List.singleton_append,
      words_append_cons (hfront c (List.mem_append_right _ List.mem_cons_self)), hblank, hend,
      List.nil_append]

theorem words_of_not_isBlank (hne : cs ≠ []) (h : ∀ c ∈ cs, isBlank c = false) :
    words cs = [cs] := by
  rw [words, splitWhere_eq_splitOnP, List.splitOnP_eq_singleton h]
  simp [hne]

theorem words_ne_nil (hc : isBlank c = false) (cs : List Char) : words (c :: cs) ≠ [] := by
  rw [words, splitWhere, hc, if_neg Bool.false_ne_true]
  cases splitWhere isBlank cs <;> exact List.cons_ne_nil _ _

theorem last_not_isBlank (h : ∀ c ∈ cs, isBlank c = false) : cs.getLast?.any isBlank = false := by
  cases hlast : cs.getLast? with
  | none => rfl
  | some c => exact h c (List.mem_of_getLast? hlast)

/-- A trimmed text is one word, or a word with blanks and a trimmed text behind it. -/
theorem IsTrim.word_cases (h : IsTrim cs) : (∀ c ∈ cs, isBlank c = false) ∨
    ∃ word gap rest, cs = word ++ (gap ++ rest) ∧ word ≠ [] ∧ (∀ c ∈ word, isBlank c = false) ∧
      gap ≠ [] ∧ AllBlank gap ∧ rest ≠ [] ∧ IsTrim rest := by
  set word := cs.takeWhile (!isBlank ·) with hword
  have hsplit : word ++ cs.dropWhile (!isBlank ·) = cs := List.takeWhile_append_dropWhile
  have hplain : ∀ c ∈ word, isBlank c = false := fun c hc => by
    have hnot : (!isBlank c) = true := List.all_eq_true.1 List.all_takeWhile c (hword ▸ hc)
    rwa [Bool.not_eq_true'] at hnot
  cases htail : cs.dropWhile (!isBlank ·) with
  | nil =>
    rw [htail, List.append_nil] at hsplit
    exact .inl (hsplit ▸ hplain)
  | cons b tail =>
    have hb : isBlank b = true := by
      have hhead := List.head?_dropWhile_not (!isBlank ·) cs
      rw [htail] at hhead
      simpa using hhead
    rw [htail] at hsplit
    have hne : word ≠ [] := fun hnil => by
      have hhead := h.head
      rw [← hsplit, hnil] at hhead
      exact Bool.false_ne_true (hhead.symm.trans hb)
    have hgap : tail.takeWhile isBlank ++ trimStart tail = tail := List.takeWhile_append_dropWhile
    have hblank : AllBlank (b :: tail.takeWhile isBlank) :=
      List.forall_mem_cons.2 ⟨hb, List.all_eq_true.1 List.all_takeWhile⟩
    have hrest : trimStart tail ≠ [] := fun hnil => by
      -- the text would end with a blank
      have hlast := h.last
      rw [hnil, List.append_nil] at hgap
      rw [hgap] at hblank
      obtain ⟨c, hc⟩ := Option.isSome_iff_exists.1
        (List.getLast?_isSome.2 (List.cons_ne_nil b tail))
      rw [← hsplit, List.getLast?_append, hc] at hlast
      exact Bool.false_ne_true (hlast.symm.trans (hblank c (List.mem_of_getLast? hc)))
    refine .inr ⟨word, b :: tail.takeWhile isBlank, trimStart tail, ?_, hne, hplain,
      List.cons_ne_nil _ _, hblank, hrest, head_trimStart tail, ?_⟩
    · rw [List.cons_append, hgap, hsplit]
    · have hlast := h.last
      rwa [← hsplit, ← hgap, ← List.cons_append, ← List.append_assoc,
        List.getLast?_append_of_ne_nil _ hrest] at hlast

/-- To collapse the blanks of a trimmed text is to squeeze it. -/
theorem IsTrim.collapse_eq (h : IsTrim cs) : collapse cs = squeeze cs := by
  induction hlength : cs.length using Nat.strong_induction_on generalizing cs with
  | _ n ih =>
    subst hlength
    rcases h.word_cases with hplain | ⟨word, gap, rest, rfl, hne, hword, hgapne, hgap, hrest, htrim⟩
    · rw [squeeze_of_not_isBlank hplain]
      cases cs with
      | nil => rfl
      | cons c cs =>
        rw [collapse, words_of_not_isBlank (List.cons_ne_nil c cs) hplain,
          List.intercalate_singleton]
    · -- the words of the rest come behind the first one, and a space in the place of the gap
      have hlength : rest.length < (word ++ (gap ++ rest)).length := by
        have hpos := List.length_pos_iff.2 hne
        simp only [List.length_append]
        omega
      have ih := ih _ hlength htrim rfl
      have hwords : words (word ++ (gap ++ rest)) = word :: words rest := by
        obtain ⟨b, gap, rfl⟩ := List.exists_cons_of_ne_nil hgapne
        have hrest' := words_append (fun c hc => hgap c (List.mem_cons_of_mem _ hc))
          (fun c hc => absurd hc List.not_mem_nil) rest
        rw [List.append_nil] at hrest'
        rw [List.cons_append, words_append_cons (hgap b List.mem_cons_self), hrest',
          words_of_not_isBlank hne hword]
        rfl
      have hsqueeze : squeeze (word ++ (gap ++ rest)) = word ++ ' ' :: squeeze rest := by
        rw [squeeze_append (.inl (last_not_isBlank hword)), squeeze_append (.inr htrim.head),
          squeeze_of_not_isBlank hword, squeeze_of_allBlank hgap,
          if_neg (by simpa using hgapne)]
        rfl
      obtain ⟨first, more, hmore⟩ : ∃ first more, words rest = first :: more := by
        cases rest with
        | nil => exact absurd rfl hrest
        | cons c rest => exact List.exists_cons_of_ne_nil (words_ne_nil htrim.head rest)
      rw [hsqueeze, ← ih, collapse, collapse, hwords, hmore, List.intercalate_cons_cons,
        List.append_assoc]
      rfl

/-- To collapse the blanks of a text is to trim and to squeeze it. -/
theorem collapse_eq (cs : List Char) : collapse cs = squeeze (trim cs) := by
  obtain ⟨front, back, hfront, hback, htrim, hcs⟩ := exists_trim cs
  rw [← htrim.collapse_eq, collapse, collapse]
  conv_lhs => rw [hcs, words_append hfront hback]

end QueryGate.Text
