import QueryGate.Proofs.Query.Reader

/-!
# Literals read back

No unquoted literal holds a delimiter, and none is of two kinds: dates and numbers are
no keywords, a date begins with a capital or has a hyphen behind its fourth digit, and
no number does. So every literal is read back from its text (`readLiteral_text`).

* `isToken_date`, `isToken_number`: where an unquoted literal ends;
* `isDateText_number`: a number is no date.
-/

namespace QueryGate

/-! ## Characters of tokens -/

theorem isBlank_eq_false {c : Char} (hlow : 0x20 < c.toNat) (hhigh : c.toNat < 0x85) :
    Text.isBlank c = false := by
  simp only [Text.isBlank, Text.inRanges, Text.blankRanges, List.any_cons, List.any_nil,
    Bool.or_false, Bool.or_eq_false_iff, Bool.and_eq_false_iff, decide_eq_false_iff_not]
  omega

/-- Past the closing parenthesis, ASCII has no delimiter but the comma. -/
theorem isDelimiter_eq_false {c : Char} (hlow : ')'.toNat < c.toNat) (hhigh : c.toNat < 0x85)
    (hcomma : c ≠ ',') : isDelimiter c = false := by
  have hlow' : 41 < c.toNat := hlow
  have hne : ∀ d : Char, d.toNat ≤ 41 → c ≠ d := by
    rintro d hd rfl
    omega
  have h₁ := hne '\'' (by decide)
  have h₂ := hne '(' (by decide)
  have h₃ := hne ')' (by decide)
  simp [isDelimiter, isBlank_eq_false (c := c) (by omega) hhigh, hcomma, h₁, h₂, h₃]

theorem isDelimiter_of_isDigit {c : Char} (hc : c.isDigit = true) : isDelimiter c = false := by
  obtain ⟨hlow, hhigh⟩ := Char.isDigit_iff_toNat.1 hc
  refine isDelimiter_eq_false (lt_of_lt_of_le (by decide) hlow)
    (lt_of_le_of_lt hhigh (by decide)) ?_
  rintro rfl
  cases hc

theorem isToken_of_allDigits {cs : List Char} (hcs : AllDigits cs) : IsToken cs :=
  fun c hc => isDelimiter_of_isDigit (hcs c hc)

theorem IsToken.append {cs ds : List Char} (hc : IsToken cs) (hd : IsToken ds) :
    IsToken (cs ++ ds) := fun c h => (List.mem_append.1 h).elim (hc c) (hd c)

theorem IsToken.cons {c : Char} {cs : List Char} (hc : isDelimiter c = false) (hcs : IsToken cs) :
    IsToken (c :: cs) := fun d hd => (List.mem_cons.1 hd).elim (fun h => h ▸ hc) (hcs d)

theorem eq_append_of_after {word cs rest : List Char} (h : Text.after word cs = some rest) :
    cs = word ++ rest := by
  induction word generalizing cs with
  | nil => exact Option.some.inj h
  | cons w word ih =>
    cases cs with
    | nil => cases h
    | cons c cs =>
      rw [Text.after, Text.afterBy] at h
      split_ifs at h with hw
      rw [List.cons_append, ← ih h, beq_iff_eq.1 hw]

/-! ## Dates -/

namespace Literal

/-- A text has digits and the characters of a form that it fits. -/
theorem isDigit_or_mem_of_fits {form cs : List Char} (h : fits form cs = true) {c : Char}
    (hc : c ∈ cs) : c.isDigit = true ∨ c ∈ form := by
  induction form generalizing cs with
  | nil =>
    cases cs with
    | nil => cases hc
    | cons d cs => cases h
  | cons f form ih =>
    cases cs with
    | nil => cases hc
    | cons d cs =>
      rw [fits, Bool.and_eq_true] at h
      obtain ⟨hd, hcs⟩ := h
      rcases List.mem_cons.1 hc with rfl | hc
      · split_ifs at hd with hf
        · exact .inl hd
        · exact .inr (beq_iff_eq.1 hd ▸ List.mem_cons_self)
      · exact (ih hcs hc).imp_right (List.mem_cons_of_mem f)

theorem isDigit_or_mem_of_isTimeEnd {cs : List Char} (h : isTimeEnd cs = true) {c : Char}
    (hc : c ∈ cs) : c.isDigit = true ∨ c ∈ ['.', 'Z'] := by
  unfold isTimeEnd at h
  split at h
  · exact .inr (List.mem_cons_of_mem _ hc)
  · next cs =>
    simp only [Bool.and_eq_true, beq_iff_eq] at h
    rcases List.mem_cons.1 hc with rfl | hc
    · exact .inr List.mem_cons_self
    rw [← List.take_append_drop (cs.takeWhile Char.isDigit).length cs, h.2,
      ← List.prefix_iff_eq_take.1 (List.takeWhile_prefix _)] at hc
    rcases List.mem_append.1 hc with hc | hc
    · exact .inl (List.all_eq_true.1 List.all_takeWhile c hc)
    · exact .inr (List.mem_cons_of_mem _ hc)
  · cases h

theorem isToken_of_fits {form cs : List Char} (hform : IsToken form) (h : fits form cs = true) :
    IsToken cs := fun _ hc =>
  (isDigit_or_mem_of_fits h hc).elim isDelimiter_of_isDigit fun hmem => hform _ hmem

theorem isToken_of_isTimeEnd {cs : List Char} (h : isTimeEnd cs = true) : IsToken cs := by
  have hends : IsToken ['.', 'Z'] := by decide
  exact fun _ hc =>
    (isDigit_or_mem_of_isTimeEnd h hc).elim isDelimiter_of_isDigit fun hmem => hends _ hmem

/-- A counted range is one of the words with digits behind it. -/
theorem exists_of_isCountedRange {cs : List Char} (h : isCountedRange cs = true) :
    ∃ range ∈ countedRanges, ∃ count, AllDigits count ∧ cs = range.toList ++ count := by
  rw [isCountedRange, List.any_eq_true] at h
  obtain ⟨range, hrange, h⟩ := h
  split at h
  · next count hafter =>
    simp only [Bool.and_eq_true, List.all_eq_true] at h
    exact ⟨range, hrange, count, h.2, eq_append_of_after hafter⟩
  · cases h

/-- The words for dates stand in the part of ASCII without delimiters, and none begins with a digit
    or a hyphen. -/
theorem dateWords_spec : ∀ word ∈ relativeDates ++ countedRanges,
    word.toList.all (fun c => ')'.toNat < c.toNat && c.toNat < 0x85 && c != ',') = true ∧
      word.toList.head?.any (fun c => c != '-' && !c.isDigit) = true := by
  decide +kernel

theorem isToken_dateWord {word : String} (h : word ∈ relativeDates ++ countedRanges) :
    IsToken word.toList := by
  intro c hc
  have hall := List.all_eq_true.1 (dateWords_spec word h).1 c hc
  simp only [Bool.and_eq_true, decide_eq_true_eq, bne_iff_ne] at hall
  exact isDelimiter_eq_false hall.1.1 hall.1.2 hall.2

/-- A date literal is one token. -/
theorem isToken_date {s : String} (h : isDate s = true) : IsToken s.toList := by
  have hform : IsToken timeForm := by decide
  have hform' : IsToken dateForm := by decide
  rw [isDate, isDateText] at h
  simp only [Bool.or_eq_true, Bool.and_eq_true] at h
  rcases h with ((h | h) | h) | h
  · exact isToken_of_fits hform' h
  · rw [← List.take_append_drop timeForm.length s.toList]
    exact (isToken_of_fits hform h.1).append (isToken_of_isTimeEnd h.2)
  · rw [String.ofList_toList] at h
    exact isToken_dateWord (List.mem_append_left _ (List.contains_iff_mem.1 h))
  · obtain ⟨range, hrange, count, hcount, hcs⟩ := exists_of_isCountedRange h
    rw [hcs]
    exact (isToken_dateWord (List.mem_append_right _ hrange)).append (isToken_of_allDigits hcount)

/-! ## Numbers -/

/-- A numeral begins with digits, behind the sign if it has one, and what follows them is no hyphen
    and no further digit. -/
theorem exists_numeral_whole (n : JsonNumber) :
    ∃ (negative : Bool) (whole ending : List Char),
      n.text = (if negative then ['-'] else []) ++ whole ++ ending ∧
      whole ≠ [] ∧ AllDigits whole ∧ (∀ c ∈ ending.head?, c ≠ '-' ∧ c.isDigit = false) ∧
      IsToken ending := by
  obtain ⟨m, hm, htext⟩ := n.exists_numeral_text
  refine ⟨m.negative, m.whole, m.fraction.elim [] (fun ds => '.' :: ds) ++ m.exponentText,
    by rw [htext, Json.Numeral.text, List.append_assoc], hm.whole_ne_nil, hm.whole_digits, ?_, ?_⟩
  · intro c hc
    cases hf : m.fraction with
    | none =>
      rw [hf, Option.elim_none, List.nil_append] at hc
      rw [Real64.head_exponent m c hc]
      exact ⟨by decide, by decide⟩
    | some ds =>
      rw [hf] at hc
      obtain rfl : '.' = c := Option.some.inj hc
      exact ⟨by decide, by decide⟩
  · refine IsToken.append ?_ ?_
    · cases hf : m.fraction with
      | none => exact fun _ h => absurd h List.not_mem_nil
      | some ds =>
        exact IsToken.cons (by decide) (isToken_of_allDigits (hm.fraction_digits ds hf))
    · rw [Json.Numeral.exponentText]
      cases he : m.exponent with
      | none => exact fun _ h => absurd h List.not_mem_nil
      | some p =>
        have hsign : isDelimiter (if p.1 then '-' else '+') = false := by cases p.1 <;> decide
        exact IsToken.cons (by decide)
          (IsToken.cons hsign (isToken_of_allDigits (hm.exponent_digits p he)))

/-- A number is one token. -/
theorem isToken_number (n : JsonNumber) : IsToken n.text := by
  obtain ⟨negative, whole, ending, htext, -, hwhole, -, hending⟩ := exists_numeral_whole n
  rw [htext]
  refine (IsToken.append ?_ (isToken_of_allDigits hwhole)).append hending
  cases negative
  · exact fun _ h => absurd h List.not_mem_nil
  · exact IsToken.cons (by decide) fun _ h => absurd h List.not_mem_nil

/-- A number begins with a hyphen or a digit, and so with no word that does not. -/
theorem number_ne_append (n : JsonNumber) {word : List Char}
    (hword : word.head?.any (fun c => c != '-' && !c.isDigit) = true) (rest : List Char) :
    n.text ≠ word ++ rest := by
  obtain ⟨negative, whole, ending, htext, hne, hwhole, -, -⟩ := exists_numeral_whole n
  obtain ⟨c, cs, rfl⟩ := List.exists_cons_of_ne_nil hne
  cases word with
  | nil => cases hword
  | cons w word =>
    obtain ⟨hhyphen, hdigit⟩ : w ≠ '-' ∧ w.isDigit = false := by simpa using hword
    intro heq
    rw [heq] at htext
    cases negative with
    | true => exact hhyphen (List.cons.inj htext).1
    | false =>
      obtain ⟨rfl, -⟩ := List.cons.inj htext
      rw [hwhole w List.mem_cons_self] at hdigit
      cases hdigit

/-- No numeral has a hyphen behind digits that it begins with. -/
theorem fits_eq_false {whole ending form : List Char} (hwhole : AllDigits whole)
    (hending : ∀ c ∈ ending.head?, c ≠ '-' ∧ c.isDigit = false) (zeros : ℕ) :
    fits (List.replicate zeros '0' ++ '-' :: form) (whole ++ ending) = false := by
  induction whole generalizing zeros with
  | nil =>
    cases ending with
    | nil => cases zeros <;> rfl
    | cons c cs =>
      obtain ⟨hne, hdigit⟩ := hending c rfl
      cases zeros with
      | zero => simp [fits, hne]
      | succ zeros => simp [fits, List.replicate_succ, hdigit]
  | cons w whole ih =>
    have hw : w.isDigit = true := hwhole w List.mem_cons_self
    cases zeros with
    | zero =>
      have hne : w ≠ '-' := by
        rintro rfl
        cases hw
      simp [fits, hne]
    | succ zeros =>
      simp [fits, List.replicate_succ, hw, ih (fun c hc => hwhole c (List.mem_cons_of_mem _ hc))]

/-- No form of a date fits the beginning of a number. -/
theorem fits_number (n : JsonNumber) (form : List Char) (count : ℕ) :
    fits ("0000-".toList ++ form) (n.text.take count) = false := by
  obtain ⟨negative, whole, ending, htext, -, hwhole, hending, -⟩ := exists_numeral_whole n
  rw [htext]
  cases negative with
  | true =>
    cases count with
    | zero => rfl
    | succ count => rfl
  | false =>
    rw [if_neg Bool.false_ne_true, List.nil_append, List.take_append]
    refine fits_eq_false (hwhole.take count) (fun c hc => hending c ?_) 4
    rw [List.head?_take] at hc
    split_ifs at hc
    · cases hc
    · exact hc

/-- A number is no date. -/
theorem isDateText_number (n : JsonNumber) : isDateText n.text = false := by
  have hword : ∀ word ∈ relativeDates ++ countedRanges, ∀ rest, n.text ≠ word.toList ++ rest :=
    fun word hmem => number_ne_append n (dateWords_spec word hmem).2
  have hform := fits_number n "00-00".toList n.text.length
  rw [List.take_length] at hform
  have htime := fits_number n "00-00T00:00:00".toList timeForm.length
  rw [isDateText, Bool.or_eq_false_iff, Bool.or_eq_false_iff, Bool.or_eq_false_iff,
    Bool.and_eq_false_iff]
  refine ⟨⟨⟨hform, .inl htime⟩, ?_⟩, ?_⟩
  · refine Bool.eq_false_iff.2 fun h => ?_
    have hmem := List.mem_append_left countedRanges (List.contains_iff_mem.1 h)
    exact hword _ hmem [] (by rw [String.toList_ofList, List.append_nil])
  · refine Bool.eq_false_iff.2 fun h => ?_
    obtain ⟨range, hrange, count, -, heq⟩ := exists_of_isCountedRange h
    exact hword range (List.mem_append_right _ hrange) count heq

end Literal

/-! ## Reading literals -/

namespace Literal

/-- A literal is proper if it is a date only for what has the form of one. -/
def IsProper : Literal → Prop
  | .date s => isDate s = true
  | _ => True

theorem ofToken?_date {s : String} (h : isDate s = true) : ofToken? s.toList = some (.date s) := by
  have hne : ∀ word, isDateText word = false → s.toList ≠ word := by
    rintro word hword rfl
    rw [isDate, hword] at h
    cases h
  rw [ofToken?, if_neg (hne _ (by decide)), if_neg (hne _ (by decide)), if_neg (hne _ (by decide)),
    if_pos (show isDateText s.toList = true from h), String.ofList_toList]

theorem ofToken?_number (n : JsonNumber) : ofToken? n.text = some (.number n) := by
  have hne : ∀ word : List Char, word.head?.any (fun c => c != '-' && !c.isDigit) = true →
      n.text ≠ word := by
    intro word hword
    simpa using number_ne_append n hword []
  rw [ofToken?, if_neg (hne _ (by decide)), if_neg (hne _ (by decide)), if_neg (hne _ (by decide)),
    isDateText_number, if_neg Bool.false_ne_true, JsonNumber.ofText?_text]
  rfl

/-- A token that stands for a literal is read as it. -/
theorem readLiteral_token {token : List Char} {l : Literal} (htoken : IsToken token)
    (h : ofToken? token = some l) {rest : List Char} (hr : Ends rest) :
    readLiteral (token ++ rest) = some (l, rest) := by
  unfold readLiteral
  split
  · next cs heq =>
    -- neither the token nor what follows it begins with a quote
    exfalso
    cases token with
    | nil => exact hr.head_ne_quote (by rw [← List.nil_append rest, heq]; rfl)
    | cons c token =>
      obtain ⟨rfl, -⟩ := List.cons.inj heq
      exact absurd (htoken '\'' List.mem_cons_self) (by decide)
  · simp [spanToken_append htoken hr, h]

/-- A literal is read back from its text. -/
theorem readLiteral_text {l : Literal} (hl : l.IsProper) {rest : List Char} (hr : Ends rest) :
    readLiteral (l.text ++ rest) = some (l, rest) := by
  cases l with
  | null => exact readLiteral_token (by decide) (by decide) hr
  | bool b =>
    cases b
    · exact readLiteral_token (by decide) (by decide) hr
    · exact readLiteral_token (by decide) (by decide) hr
  | number n => exact readLiteral_token (isToken_number n) (ofToken?_number n) hr
  | date s => exact readLiteral_token (isToken_date hl) (ofToken?_date hl) hr
  | string s =>
    have htext : (string s).text ++ rest = '\'' :: (s.toList.flatMap escape ++ '\'' :: rest) := by
      change quoted s ++ rest = _
      rw [quoted, List.append_assoc, List.cons_append, List.singleton_append]
    rw [htext, readLiteral, readQuoted_escape s.toList hr.head_ne_quote, Option.map_some]
    dsimp only
    rw [String.ofList_toList]

end Literal

end QueryGate
