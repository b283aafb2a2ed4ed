import QueryGate.Proofs.Discovery.ConditionScan

/-!
# Conditions of queries, as a clause of free text

The conditions of a query are found again in their text. No literal is taken for a
condition once it is emptied, and the names are free of all words that the search for
conditions knows (`Name.IsFree`). So up to an operand the conditions are found one by
one, whatever follows (`Comparison.usagesIn_upTo`), and no clause ends before it unless
a string holds such an end (`Comparison.misses_clauseEnd_upTo`).
-/

namespace QueryGate

open Text WhereClause

/-! ## Literals -/

/-- The characters of numbers, of dates and times, and of emptied strings. -/
def dullChars : List Char := "0123456789+-.:'eTZ".toList

/-- A text of such characters. -/
def IsDull (cs : List Char) : Prop := ∀ c ∈ cs, c ∈ dullChars

theorem mem_dullChars_of_isDigit {c : Char} (h : c.isDigit = true) : c ∈ dullChars := by
  have hall : ∀ n ∈ List.range' 48 10, Char.ofNat n ∈ dullChars := by decide
  obtain ⟨hlow, hhigh⟩ := Char.isDigit_iff_toNat.1 h
  have hlow' : 48 ≤ c.toNat := hlow
  have hhigh' : c.toNat ≤ 57 := hhigh
  have hc := hall c.toNat (List.mem_range'_1.2 ⟨hlow', by omega⟩)
  rwa [Char.ofNat_toNat] at hc

theorem IsDull.append {cs ds : List Char} (hc : IsDull cs) (hd : IsDull ds) : IsDull (cs ++ ds) :=
  fun c h => (List.mem_append.1 h).elim (hc c) (hd c)

theorem isDull_of_allDigits {cs : List Char} (h : AllDigits cs) : IsDull cs := fun c hc =>
  mem_dullChars_of_isDigit (h c hc)

theorem IsDull.lacks {keywords : List (List Char)} {marks cs : List Char} (h : IsDull cs)
    (hheads : (keywords.all fun keyword => keyword.head?.any fun k =>
      dullChars.all fun c => fold c != k) = true)
    (hmarks : (dullChars.all fun c => c ∉ marks) = true) : Lacks keywords marks cs where
  words _ hword := map_fold_not_mem_of_heads hheads fun c hc =>
    h c (mem_of_mem_splitWhere hword hc)
  marks c hc := List.all_iff_forall_prop.1 hmarks c (h c hc)

theorem IsDull.isInert {cs : List Char} (h : IsDull cs) : IsInert cs where
  chars c hc := by
    have hall : ∀ c ∈ dullChars, isBlank c = false ∧ c ∉ symbolHeads :=
      List.all_iff_forall_prop.1 (by decide)
    exact hall c (h c hc)
  words word hword ending hending := by
    have hheads : (operatorWords.all fun keyword => keyword.head?.any fun k =>
        dullChars.all fun c => fold c != k) = true := by decide
    exact map_fold_not_mem_of_heads hheads fun c hc =>
      h c (mem_of_mem_splitWhere hword (((List.mem_tails _ _).1 hending).subset hc))

namespace Literal

/-- A number is dull. -/
theorem isDull_number (n : JsonNumber) : IsDull n.text := by
  obtain ⟨m, hm, htext⟩ := n.exists_numeral_text
  have hexponent : IsDull m.exponentText := by
    rw [Json.Numeral.exponentText]
    cases he : m.exponent with
    | none => exact fun _ h => absurd h List.not_mem_nil
    | some p =>
      have hsign : IsDull ['e', if p.1 then '-' else '+'] := by
        cases p.1
        · exact List.all_iff_forall_prop.1 (by decide)
        · exact List.all_iff_forall_prop.1 (by decide)
      exact hsign.append (isDull_of_allDigits (hm.exponent_digits p he))
  have hfraction : IsDull (m.fraction.elim [] fun ds => '.' :: ds) := by
    cases hf : m.fraction with
    | none => exact fun _ h => absurd h List.not_mem_nil
    | some ds =>
      have hpoint : IsDull ['.'] := List.all_iff_forall_prop.1 (by decide)
      exact hpoint.append (isDull_of_allDigits (hm.fraction_digits ds hf))
  have hminus : IsDull (if m.negative then ['-'] else []) := by
    cases m.negative
    · exact fun _ h => absurd h List.not_mem_nil
    · exact List.all_iff_forall_prop.1 (by decide)
  rw [htext, Json.Numeral.text]
  exact ((hminus.append (isDull_of_allDigits hm.whole_digits)).append hfraction).append hexponent

/-- The words of counted ranges: a range is one of them with a colon behind it. -/
def rangeWords : List (List Char) :=
  dateUnits.flatMap fun unit =>
    ["LAST_N_".toList ++ unit.toList, "NEXT_N_".toList ++ unit.toList,
      "N_".toList ++ unit.toList ++ "_AGO".toList]

theorem exists_rangeWord {range : String} (h : range ∈ countedRanges) :
    ∃ word ∈ rangeWords, range.toList = word ++ [':'] := by
  obtain ⟨unit, hunit, hrange⟩ := List.mem_flatMap.1 h
  have hmem : ∀ word ∈ ["LAST_N_".toList ++ unit.toList, "NEXT_N_".toList ++ unit.toList,
      "N_".toList ++ unit.toList ++ "_AGO".toList], word ∈ rangeWords := fun word hword =>
    List.mem_flatMap.2 ⟨unit, hunit, hword⟩
  simp only [List.mem_cons, List.not_mem_nil, or_false] at hrange
  rcases hrange with rfl | rfl | rfl
  · refine ⟨"LAST_N_".toList ++ unit.toList, hmem _ (by simp), ?_⟩
    rw [String.toList_append, String.toList_append]
    rfl
  · refine ⟨"NEXT_N_".toList ++ unit.toList, hmem _ (by simp), ?_⟩
    rw [String.toList_append, String.toList_append]
    rfl
  · refine ⟨"N_".toList ++ unit.toList ++ "_AGO".toList, hmem _ (by simp), ?_⟩
    rw [String.toList_append, String.toList_append, List.append_assoc _ "_AGO".toList]
    rfl

/-- A date is dull, or made up of words that neither end a clause nor end in the letters of an
    operator. -/
theorem date_cases {s : String} (h : isDate s = true) :
    IsDull s.toList ∨ (Lacks endWords endMarks s.toList ∧ IsInert s.toList) := by
  have hform : IsDull timeForm := List.all_iff_forall_prop.1 (by decide)
  have hform' : IsDull dateForm := List.all_iff_forall_prop.1 (by decide)
  have hends : IsDull ['.', 'Z'] := List.all_iff_forall_prop.1 (by decide)
  rw [isDate, isDateText] at h
  simp only [Bool.or_eq_true, Bool.and_eq_true] at h
  rcases h with ((h | h) | h) | h
  · exact .inl fun c hc => (isDigit_or_mem_of_fits h hc).elim mem_dullChars_of_isDigit (hform' c)
  · rw [← List.take_append_drop timeForm.length s.toList]
    exact .inl (IsDull.append
      (fun c hc => (isDigit_or_mem_of_fits h.1 hc).elim mem_dullChars_of_isDigit (hform c))
      fun c hc => (isDigit_or_mem_of_isTimeEnd h.2 hc).elim mem_dullChars_of_isDigit (hends c))
  · have hall : ∀ word ∈ relativeDates,
        Lacks endWords endMarks word.toList ∧ IsInert word.toList := by decide +kernel
    rw [String.ofList_toList] at h
    exact .inr (hall s (List.contains_iff_mem.1 h))
  · have hall : ∀ word ∈ rangeWords, Lacks endWords endMarks word ∧ IsInert word := by
      decide +kernel
    obtain ⟨range, hrange, count, hcount, hs⟩ := exists_of_isCountedRange h
    obtain ⟨word, hword, hcolon⟩ := exists_rangeWord hrange
    obtain ⟨hlacks, hinert⟩ := hall word hword
    have hdull := isDull_of_allDigits hcount
    rw [hs, hcolon, List.append_assoc]
    exact .inr ⟨hlacks.append_cons (by decide) (by decide)
        (hdull.lacks (by decide) (by decide)),
      hinert.append_cons (by decide) hdull.isInert⟩

/-- Whether a literal is a string that holds what ends a clause. -/
def holdsEnd : Literal → Bool
  | .string s => WhereClause.holdsEnd s
  | _ => false

/-- A literal is passed over in the search for the end of a clause, unless it holds one. -/
theorem misses_clauseEnd {l : Literal} (hl : l.IsProper) (hend : l.holdsEnd = false)
    {tail : List Char} (htail : wordAt tail.head? = false) (before : Option Char) :
    Misses clauseEnd before l.text tail := by
  have hlacks : Lacks endWords endMarks l.text → Misses clauseEnd before l.text tail := fun h =>
    clauseEnd_opensOn.misses h (.inr htail) before
  cases l with
  | null => exact hlacks (by decide)
  | bool b => cases b <;> exact hlacks (by decide)
  | number n => exact hlacks ((isDull_number n).lacks (by decide) (by decide))
  | date s =>
    rcases date_cases hl with hdull | ⟨hdate, -⟩
    · exact hlacks (hdull.lacks (by decide) (by decide))
    · exact hlacks hdate
  | string s => exact misses_quoted hend before tail

/-- A literal is whole, and no condition can be found in it once it is emptied. -/
theorem isWhole_and_isInert {l : Literal} (hl : l.IsProper) :
    IsWhole l.text ∧ IsInert (emptyLiterals l.text) := by
  have hplain : '\'' ∉ l.text → IsInert l.text →
      IsWhole l.text ∧ IsInert (emptyLiterals l.text) := by
    intro hquote hinert
    rw [emptyLiterals_of_not_mem hquote]
    exact ⟨isWhole_of_not_mem hquote, hinert⟩
  have htoken : IsToken l.text → '\'' ∉ l.text := fun htoken hmem =>
    absurd (htoken '\'' hmem) (by decide)
  cases l with
  | null => exact hplain (by decide) (by decide)
  | bool b => cases b <;> exact hplain (by decide) (by decide)
  | number n => exact hplain (htoken (isToken_number n)) (isDull_number n).isInert
  | date s =>
    exact hplain (htoken (isToken_date hl)) ((date_cases hl).elim IsDull.isInert And.right)
  | string s =>
    obtain ⟨hwhole, hquotes⟩ := isWhole_and_eq_quoted s
    have hdull : IsDull (emptyLiterals (quoted s)) := fun c hc => by
      rw [hquotes c hc]
      decide
    exact ⟨hwhole, hdull.isInert⟩

end Literal

/-! ## Operands -/

section Joined

variable {α : Type} {m : Matcher α} {P : List Char → Prop}

/-- Texts with a separator between them are passed over if each of them is, and the separator. -/
theorem misses_joined (separator : String)
    (hsep : ∀ before tail, Misses m before separator.toList tail)
    (hP : ∀ tail, P (separator.toList ++ tail)) {texts : List (List Char)}
    (htexts : ∀ text ∈ texts, ∀ before tail, P tail → Misses m before text tail)
    (before : Option Char) {tail : List Char} (htail : P tail) :
    Misses m before (joined separator texts) tail := by
  induction texts generalizing before with
  | nil => exact misses_nil
  | cons text texts ih =>
    have htext := htexts text List.mem_cons_self
    cases texts with
    | nil =>
      rw [joined, List.intercalate_singleton]
      exact htext before tail htail
    | cons next texts =>
      rw [joined, List.intercalate_cons_cons, List.append_assoc]
      refine misses_append.2 ⟨?_, misses_append.2 ⟨hsep _ _, ?_⟩⟩
      · rw [List.append_assoc]
        exact htext _ _ (hP _)
      · exact ih (fun t ht => htexts t (List.mem_cons_of_mem _ ht)) _

theorem isWhole_and_eq_joined (separator : String) (hsep : '\'' ∉ separator.toList)
    {texts : List (List Char)} (htexts : ∀ text ∈ texts, IsWhole text) :
    IsWhole (joined separator texts) ∧
      emptyLiterals (joined separator texts) = joined separator (texts.map emptyLiterals) := by
  induction texts with
  | nil => exact ⟨isWhole_nil, rfl⟩
  | cons text texts ih =>
    have htext := htexts text List.mem_cons_self
    cases texts with
    | nil =>
      rw [joined, List.intercalate_singleton]
      exact ⟨htext, List.intercalate_singleton.symm⟩
    | cons next texts =>
      obtain ⟨hwhole, heq⟩ := ih fun t ht => htexts t (List.mem_cons_of_mem _ ht)
      have hseparator := isWhole_of_not_mem hsep
      rw [joined, List.intercalate_cons_cons, List.append_assoc]
      refine ⟨htext.append (hseparator.append hwhole), ?_⟩
      rw [htext, hseparator, emptyLiterals_of_not_mem hsep]
      rw [joined] at heq
      rw [heq, joined, joined, List.map_cons, List.map_cons, List.map_cons,
        List.intercalate_cons_cons, List.append_assoc]

end Joined

theorem isIdle_comma (cs : List Char) : IsIdle (',' :: cs) := ⟨rfl, by rintro ⟨⟩, rfl⟩

theorem isIdle_closing (cs : List Char) : IsIdle (')' :: cs) := ⟨rfl, by rintro ⟨⟩, rfl⟩

namespace Operand

/-- The literals of an operand. -/
def literals : Operand → List Literal
  | .one literal => [literal]
  | .list literals => literals

variable {op : Operator} {operand : Operand}

theorem misses_clauseEnd (h : operand.IsProper op)
    (hend : ∀ l ∈ operand.literals, l.holdsEnd = false) {tail : List Char}
    (htail : wordAt tail.head? = false) (before : Option Char) :
    Misses clauseEnd before operand.text tail := by
  cases operand with
  | one literal =>
    exact literal.misses_clauseEnd h.2 (hend literal List.mem_cons_self) htail before
  | list literals =>
    have hpunctuation : ∀ c ∈ ['(', ')', ',', ' '], ∀ before cs,
        clauseEnd before (c :: cs) = none := by
      intro c hc before cs
      have hall : ∀ c ∈ ['(', ')', ',', ' '], c ∉ endMarks ∧ isWord c = false :=
        List.all_iff_forall_prop.1 (by decide)
      exact clauseEnd_opensOn.eq_none_of_not_isWord (hall c hc).1 (hall c hc).2
    refine ⟨hpunctuation _ (by decide) _ _, misses_append.2 ⟨?_, ?_, misses_nil⟩⟩
    · refine misses_joined (P := fun tail => wordAt tail.head? = false) ", "
        (fun before cs => ⟨hpunctuation ',' (by decide) _ _, hpunctuation ' ' (by decide) _ _,
          misses_nil⟩) (fun _ => rfl) ?_ _ rfl
      intro text htext before tail htail
      obtain ⟨l, hl, rfl⟩ := List.mem_map.1 htext
      exact l.misses_clauseEnd (h.2.2 l hl) (hend l hl) htail before
    · exact hpunctuation _ (by decide) _ _

theorem isWhole_text (h : operand.IsProper op) : IsWhole operand.text := by
  cases operand with
  | one literal => exact (literal.isWhole_and_isInert h.2).1
  | list literals =>
    have hitems : ∀ text ∈ literals.map Literal.text, IsWhole text := fun text htext => by
      obtain ⟨l, hl, rfl⟩ := List.mem_map.1 htext
      exact (l.isWhole_and_isInert (h.2.2 l hl)).1
    have hopening : IsWhole ['('] := isWhole_of_not_mem (by decide)
    have hclosing : IsWhole [')'] := isWhole_of_not_mem (by decide)
    exact hopening.append ((isWhole_and_eq_joined ", " (by decide) hitems).1.append hclosing)

/-- No condition is found in an operand once it is emptied. -/
theorem misses_conditionMatcher (h : operand.IsProper op) {tail : List Char} (htail : IsIdle tail)
    (before : Option Char) :
    Misses conditionMatcher before (emptyLiterals operand.text) tail := by
  cases operand with
  | one literal => exact (literal.isWhole_and_isInert h.2).2.misses htail before
  | list literals =>
    have hpunctuation : ∀ c ∈ ['(', ')', ',', ' '], ∀ before cs,
        conditionMatcher before (c :: cs) = none := by
      intro c hc before cs
      have hall : ∀ c ∈ ['(', ')', ',', ' '], isFieldStart c = false :=
        List.all_iff_forall_prop.1 (by decide)
      exact conditionMatcher_eq_none (hall c hc) before cs
    have hitems : ∀ text ∈ literals.map Literal.text, IsWhole text := fun text htext => by
      obtain ⟨l, hl, rfl⟩ := List.mem_map.1 htext
      exact (l.isWhole_and_isInert (h.2.2 l hl)).1
    obtain ⟨hwhole, heq⟩ := isWhole_and_eq_joined ", " (by decide) hitems
    have htext : emptyLiterals (Operand.list literals).text =
        '(' :: (joined ", " ((literals.map Literal.text).map emptyLiterals) ++ [')']) := by
      rw [← heq]
      change emptyLiterals ('(' :: (joined ", " (literals.map Literal.text) ++ [')'])) = _
      rw [emptyLiterals_cons (by decide), hwhole]
      rfl
    rw [htext]
    refine ⟨hpunctuation _ (by decide) _ _, misses_append.2 ⟨?_, ?_, misses_nil⟩⟩
    · refine misses_joined (P := IsIdle) ", "
        (fun before cs => ⟨hpunctuation ',' (by decide) _ _, hpunctuation ' ' (by decide) _ _,
          misses_nil⟩) (fun _ => isIdle_comma _) ?_ _ (isIdle_closing _)
      intro text htext before tail htail
      obtain ⟨raw, hraw, rfl⟩ := List.mem_map.1 htext
      obtain ⟨l, hl, rfl⟩ := List.mem_map.1 hraw
      exact (l.isWhole_and_isInert (h.2.2 l hl)).2.misses htail before
    · exact hpunctuation _ (by decide) _ _

end Operand

/-! ## Free names -/

namespace Name

/-- The words that queries are written with, and others that miners take for such, in small
    letters. -/
def reserved : List (List Char) :=
  ["and", "or", "not", "in", "like", "null", "true", "false", "includes", "excludes", "select",
    "from", "where", "order", "group", "by", "having", "limit", "offset"].map String.toList

/-- A field name with no reserved word among its segments, in any case. -/
structure IsFree (s : String) : Prop where
  field : isField s = true
  unreserved : ∀ segment ∈ segments s, lowered segment ∉ reserved

theorem IsFree.lacks {s : String} (h : IsFree s) {keywords : List (List Char)} {marks : List Char}
    (hkeywords : keywords ⊆ reserved) (hmarks : (marks.all fun c => !isPart c && c != '.') = true) :
    Lacks keywords marks s.toList :=
  lacks_of_isField h.field (fun segment hsegment hmem => h.unreserved segment hsegment
    (hkeywords hmem)) hmarks

theorem IsFree.isPath {s : String} (h : IsFree s) : isPath s.toList = true := h.field

/-- A text that begins with a free name, and goes on behind it with no word, begins with no
    operator. -/
theorem IsFree.afterOperator?_eq_none {s : String} (h : IsFree s) {tail : List Char}
    (htail : wordAt tail.head? = false) : afterOperator? (s.toList ++ tail) = none := by
  obtain ⟨first, more, hsplit⟩ :=
    List.exists_cons_of_ne_nil (splitWhere_ne_nil (· == '.') s.toList)
  have hfirst : isSegment first = true :=
    List.all_eq_true.1 h.field first (hsplit ▸ List.mem_cons_self)
  obtain ⟨c, rest, hs, hc⟩ := exists_head_of_isSegment hsplit hfirst
  have htake : (s.toList ++ tail).takeWhile isWord = first := by
    rw [takeWhile_append_of_ends (hs ▸ List.cons_ne_nil c rest) (.inr htail)]
    obtain ⟨words, hwords⟩ := exists_wordsOf s.toList
    rw [wordsOf_toList h.field, show segments s = first :: more from hsplit] at hwords
    exact (List.cons.inj hwords).1.symm
  have hfold : first.map fold ∉ reserved := by
    have hmem : first ∈ segments s := by
      rw [segments, hsplit]
      exact List.mem_cons_self
    rw [map_fold_segment h.field hmem]
    exact h.unreserved first hmem
  refine WhereClause.afterOperator?_eq_none ?_ ?_ ?_
  · rw [hs]
    rintro _ ⟨⟩ hmem
    have hall : ∀ c ∈ symbolHeads, isStart c = false := List.all_iff_forall_prop.1 (by decide)
    rw [hall c hmem] at hc
    cases hc
  · rw [htake]
    exact fun hmem => hfold ((by decide : operatorWords ⊆ reserved) hmem)
  · rw [htake]
    intro hnot
    exact absurd (hnot.symm ▸ (by decide : "not".toList ∈ reserved)) hfold

/-- A free name is none of the keywords that are not taken for fields. -/
theorem IsFree.isKeyword {s : String} (h : IsFree s) : isKeyword s.toList = false := by
  refine List.any_eq_false.2 fun word hword hsame => ?_
  have hlowered : lowered s.toList = lowered word.toList := (beq_iff_eq.1 hsame).symm
  have hall : ∀ word ∈ keywords, lowered word.toList ∈ reserved ∧
      splitWhere (· == '.') (lowered word.toList) = [lowered word.toList] := by decide
  obtain ⟨hreserved, hsplit⟩ := hall word hword
  rw [← hlowered, lowered, splitWhere_map toLower_beq_dot] at hsplit
  obtain ⟨segment, rest, hsegments⟩ :=
    List.exists_cons_of_ne_nil (splitWhere_ne_nil (· == '.') s.toList)
  have hmem : segment ∈ segments s := by
    rw [segments, hsegments]
    exact List.mem_cons_self
  rw [hsegments, List.map_cons] at hsplit
  refine h.unreserved segment hmem ?_
  rw [lowered, (List.cons.inj hsplit).1]
  change lowered s.toList ∈ reserved
  rw [hlowered]
  exact hreserved

end Name

/-- A field name before a blank goes on with no condition. -/
theorem Name.IsFree.isIdle {s : String} (h : IsFree s) (rest : List Char) :
    IsIdle (' ' :: (s.toList ++ ' ' :: rest)) where
  word := rfl
  dot := by rintro ⟨⟩
  operator := by
    have hne : s.toList ≠ [] := by
      intro hnil
      have hpath := h.isPath
      rw [hnil] at hpath
      exact absurd hpath (by decide)
    obtain ⟨c, cs, hs⟩ := List.exists_cons_of_ne_nil hne
    have hpart : isBlank c = false := by
      rcases isPart_or_dot h.field (hs ▸ List.mem_cons_self : c ∈ s.toList) with hpart | rfl
      · exact not_isBlank_of_isWord (isWord_of_isPart hpart)
      · decide
    have htrim : trimStart (' ' :: (s.toList ++ ' ' :: rest)) = s.toList ++ ' ' :: rest := by
      rw [hs, List.cons_append, trimStart, List.dropWhile_cons, if_pos (by decide),
        List.dropWhile_cons, hpart, if_neg Bool.false_ne_true]
    rw [htrim]
    exact h.afterOperator?_eq_none rfl

/-! ## Conditions -/

namespace Comparison

/-- Whether a condition compares with a string that holds what ends a clause. -/
def holdsEnd (c : Comparison) : Bool := c.operand.literals.any Literal.holdsEnd

/-- What is mined from a condition: its field and its operator. -/
def usage (c : Comparison) : String × Operator := (c.field, c.op)

/-- A condition on a free name, with an operand that its operator takes. -/
structure IsFree (c : Comparison) : Prop where
  field : Name.IsFree c.field
  operand : c.operand.IsProper c.op

/-- The text of a condition up to its operand. -/
def opening (c : Comparison) : List Char :=
  c.field.toList ++ ' ' :: c.op.spelling.toList ++ [' ']

theorem text_eq (c : Comparison) : c.text = c.opening ++ c.operand.text := by
  simp [text, opening]

theorem getLast?_opening (c : Comparison) : c.opening.getLast? = some ' ' :=
  List.getLast?_concat

/-- The text of conditions up to the operand of the last one. -/
def upTo : List Comparison → Comparison → List Char
  | [], c => c.opening
  | d :: shown, c => d.opening ++ (d.operand.text ++ (" AND ".toList ++ upTo shown c))

theorem joined_append (shown rest : List Comparison) (c : Comparison) :
    joined " AND " ((shown ++ c :: rest).map text) =
      upTo shown c ++ (c.operand.text ++ rest.flatMap fun d => " AND ".toList ++ d.text) := by
  induction shown generalizing c rest with
  | nil =>
    induction rest generalizing c with
    | nil => simp [joined, upTo, text_eq]
    | cons d rest ih =>
      have hrest := ih d
      rw [List.nil_append, joined] at hrest
      rw [List.nil_append, joined, List.map_cons, List.map_cons, List.intercalate_cons_cons,
        ← List.map_cons, hrest]
      simp [upTo, text_eq]
  | cons d shown ih =>
    have hshown := ih rest c
    rw [joined] at hshown
    obtain ⟨next, texts, htexts⟩ : ∃ next texts, (shown ++ c :: rest).map text = next :: texts :=
      List.exists_cons_of_ne_nil (by simp)
    rw [List.cons_append, joined, List.map_cons, htexts, List.intercalate_cons_cons, ← htexts,
      hshown, upTo, text_eq]
    simp only [List.append_assoc]

section Scanning

variable {shown : List Comparison} {c : Comparison}

theorem IsFree.lacks_opening (h : c.IsFree) : Lacks endWords endMarks c.opening := by
  have hop : Lacks endWords endMarks (c.op.spelling.toList ++ [' ']) := by cases c.op <;> decide
  have htext : c.opening = c.field.toList ++ ' ' :: (c.op.spelling.toList ++ [' ']) := by
    simp [opening]
  rw [htext]
  exact (h.field.lacks (by decide) (by decide)).append_cons (by decide) (by decide) hop

theorem IsFree.not_mem_opening (h : c.IsFree) : '\'' ∉ c.opening := by
  intro hmem
  rw [opening, List.append_assoc, List.mem_append] at hmem
  rcases hmem with hmem | hmem
  · rcases Name.isPart_or_dot h.field.field hmem with hpart | hdot
    · exact absurd hpart (by decide)
    · exact absurd hdot (by decide)
  · revert hmem
    cases c.op <;> decide

theorem literals_holdsEnd (h : c.holdsEnd = false) :
    ∀ l ∈ c.operand.literals, l.holdsEnd = false := fun l hl =>
  Bool.eq_false_iff.2 (List.any_eq_false.1 h l hl)

/-- The end of a clause is not found up to the operand of a condition, if no condition before it
    holds one. -/
theorem misses_clauseEnd_upTo (hshown : ∀ d ∈ shown, d.IsFree ∧ d.holdsEnd = false)
    (hc : c.IsFree) (before : Option Char) (tail : List Char) :
    Misses clauseEnd before (upTo shown c) tail := by
  have hopening : ∀ d : Comparison, d.IsFree → ∀ before tail,
      Misses clauseEnd before d.opening tail := by
    intro d hd before tail
    refine clauseEnd_opensOn.misses hd.lacks_opening (.inl ?_) before
    rw [getLast?_opening]
    rfl
  induction shown generalizing before with
  | nil => exact hopening c hc before tail
  | cons d shown ih =>
    obtain ⟨hd, hend⟩ := hshown d List.mem_cons_self
    refine misses_append.2 ⟨hopening d hd _ _, misses_append.2 ⟨?_, misses_append.2 ⟨?_, ?_⟩⟩⟩
    · exact Operand.misses_clauseEnd hd.operand (literals_holdsEnd hend) rfl _
    · exact clauseEnd_opensOn.misses (by decide) (.inl (by decide)) _
    · exact ih (fun e he => hshown e (List.mem_cons_of_mem _ he)) _

theorem misses_space (before : Option Char) (tail : List Char) :
    Misses conditionMatcher before [' '] tail :=
  ⟨conditionMatcher_eq_none (by decide) before tail, misses_nil⟩

/-- A condition is found where a text opens one. -/
theorem matchesFrom_opening (hc : c.IsFree) {before : Option Char}
    (hbefore : wordAt before = false) (rest : List Char) :
    matchesFrom conditionMatcher before (c.opening ++ rest) =
      (c.field.toList, c.op.spelling.toList) :: matchesFrom conditionMatcher (some ' ') rest := by
  have hfound := conditionMatcher_found hc.field.isPath c.op rest hbefore
  have htext : ∀ tail, c.field.toList ++ ' ' :: (c.op.spelling.toList ++ tail) =
      (c.field.toList ++ ' ' :: c.op.spelling.toList) ++ tail := by simp
  rw [htext] at hfound
  rw [opening, List.append_assoc]
  refine (matchesFrom_found (by simp) hfound).trans (congrArg _ ?_)
  exact (misses_space _ rest).matchesFrom_eq

theorem emptyLiterals_opening_append (hc : c.IsFree) (tail : List Char) :
    emptyLiterals (c.opening ++ tail) = c.opening ++ emptyLiterals tail := by
  rw [isWhole_of_not_mem hc.not_mem_opening, emptyLiterals_of_not_mem hc.not_mem_opening]

/-- A clause begins with the first of its conditions, and a name is no operator. -/
theorem isIdle_upTo (hshown : ∀ d ∈ shown, d.IsFree) (hc : c.IsFree) (tail : List Char) :
    IsIdle (' ' :: emptyLiterals (upTo shown c ++ tail)) := by
  have hopening : ∀ d : Comparison, d.IsFree → ∀ rest,
      IsIdle (' ' :: emptyLiterals (d.opening ++ rest)) := by
    intro d hd rest
    rw [emptyLiterals_opening_append hd, opening, List.append_assoc, List.append_assoc,
      List.cons_append]
    exact hd.field.isIdle _
  cases shown with
  | nil => exact hopening c hc tail
  | cons d shown =>
    rw [upTo, List.append_assoc]
    exact hopening d (hshown d List.mem_cons_self) _

/-- The conditions up to an operand are found, and then what follows. -/
theorem matchesFrom_upTo (hshown : ∀ d ∈ shown, d.IsFree) (hc : c.IsFree) {before : Option Char}
    (hbefore : wordAt before = false) (tail : List Char) :
    matchesFrom conditionMatcher before (emptyLiterals (upTo shown c ++ tail)) =
      (shown ++ [c]).map (fun d => (d.field.toList, d.op.spelling.toList)) ++
        matchesFrom conditionMatcher (some ' ') (emptyLiterals tail) := by
  induction shown generalizing before with
  | nil =>
    rw [upTo, emptyLiterals_opening_append hc, matchesFrom_opening hc hbefore]
    rfl
  | cons d shown ih =>
    have hd := hshown d List.mem_cons_self
    have hrest : ∀ e ∈ shown, e.IsFree := fun e he => hshown e (List.mem_cons_of_mem _ he)
    have hand : '\'' ∉ " AND ".toList := by decide
    set more := emptyLiterals (upTo shown c ++ tail) with hmore
    have htext : emptyLiterals (upTo (d :: shown) c ++ tail) =
        d.opening ++ (emptyLiterals d.operand.text ++ (" AND ".toList ++ more)) := by
      rw [upTo, List.append_assoc, List.append_assoc, List.append_assoc,
        emptyLiterals_opening_append hd, Operand.isWhole_text hd.operand, isWhole_of_not_mem hand,
        emptyLiterals_of_not_mem hand, hmore]
    have hword : Misses conditionMatcher (some ' ') "AND".toList (' ' :: more) :=
      IsInert.misses (by decide) (isIdle_upTo hrest hc tail) _
    -- the word between two conditions is no field: the name behind it is no operator
    have hseparator : ∀ before, Misses conditionMatcher before " AND ".toList more := fun before =>
      ⟨conditionMatcher_eq_none (by decide) _ _, misses_append.2 ⟨hword, misses_space _ _⟩⟩
    have hidle : IsIdle (" AND ".toList ++ more) := ⟨rfl, by rintro ⟨⟩, rfl⟩
    rw [htext, matchesFrom_opening hd hbefore,
      (Operand.misses_conditionMatcher hd.operand hidle _).matchesFrom_eq,
      (hseparator _).matchesFrom_eq]
    exact congrArg _ (ih hrest rfl)

theorem IsFree.usage?_eq (hc : c.IsFree) :
    usage? c.field.toList c.op.spelling.toList = some c.usage := by
  have hparse : Operator.parse? (String.ofList c.op.spelling.toList) = some c.op := by
    cases c.op <;> decide
  rw [usage?, hc.field.isKeyword, if_neg Bool.false_ne_true, hparse, String.ofList_toList]
  rfl

/-- What is mined from a clause begins with its conditions up to an operand. -/
theorem usagesIn_upTo (hshown : ∀ d ∈ shown, d.IsFree) (hc : c.IsFree) (tail : List Char) :
    usagesIn (' ' :: (upTo shown c ++ tail)) = (shown ++ [c]).map usage ++
      (matchesFrom conditionMatcher (some ' ') (emptyLiterals tail)).filterMap fun (field, op) =>
        usage? field op := by
  have hfree : ∀ d ∈ shown ++ [c], d.IsFree := fun d hd =>
    (List.mem_append.1 hd).elim (hshown d) fun hd => List.mem_singleton.1 hd ▸ hc
  have hspace : findAll conditionMatcher (emptyLiterals (' ' :: (upTo shown c ++ tail))) =
      matchesFrom conditionMatcher (some ' ') (emptyLiterals (upTo shown c ++ tail)) := by
    rw [emptyLiterals_cons (by decide), findAll_eq]
    exact (misses_space none _).matchesFrom_eq
  rw [usagesIn, hspace, matchesFrom_upTo hshown hc rfl, List.filterMap_append, List.filterMap_map]
  congr 1
  rw [← List.filterMap_eq_map]
  exact List.filterMap_congr fun d hd => (hfree d hd).usage?_eq

/-- The conditions of a clause, with the space before the first and behind the last. -/
def clauseText (shown : List Comparison) (c : Comparison) : List Char :=
  ' ' :: (upTo shown c ++ (c.operand.text ++ [' ']))

theorem getLast?_clauseText (shown : List Comparison) (c : Comparison) :
    (clauseText shown c).getLast? = some ' ' := by
  rw [clauseText, ← List.append_assoc, ← List.cons_append, List.getLast?_concat]

/-- A clause does not end among its conditions if none of them holds an end. -/
theorem misses_clauseText (hshown : ∀ d ∈ shown ++ [c], d.IsFree ∧ d.holdsEnd = false)
    (before : Option Char) (tail : List Char) :
    Misses clauseEnd before (clauseText shown c) tail := by
  have hspace : ∀ before cs, clauseEnd before (' ' :: cs) = none := fun _ _ =>
    clauseEnd_opensOn.eq_none_of_not_isWord (by decide) (by decide)
  obtain ⟨hc, hend⟩ := hshown c (List.mem_append_right _ List.mem_cons_self)
  refine ⟨hspace _ _, misses_append.2 ⟨?_, misses_append.2 ⟨?_, hspace _ _, misses_nil⟩⟩⟩
  · exact misses_clauseEnd_upTo (fun d hd => hshown d (List.mem_append_left _ hd)) hc _ _
  · exact Operand.misses_clauseEnd hc.operand (literals_holdsEnd hend) rfl _

/-- All its conditions are mined from a clause, and nothing else. -/
theorem usagesIn_clauseText (hshown : ∀ d ∈ shown ++ [c], d.IsFree) :
    usagesIn (clauseText shown c) = (shown ++ [c]).map usage := by
  have hc := hshown c (List.mem_append_right _ List.mem_cons_self)
  have hidle : IsIdle [' '] := ⟨rfl, by rintro ⟨⟩, rfl⟩
  have hmisses :
      Misses conditionMatcher (some ' ') (emptyLiterals (c.operand.text ++ [' '])) [] := by
    rw [Operand.isWhole_text hc.operand]
    exact misses_append.2 ⟨Operand.misses_conditionMatcher hc.operand hidle _, misses_space _ _⟩
  rw [clauseText, usagesIn_upTo (fun d hd => hshown d (List.mem_append_left _ hd)) hc,
    hmisses.matchesFrom_eq_nil, List.filterMap_nil, List.append_nil]

end Scanning

end Comparison

end QueryGate
