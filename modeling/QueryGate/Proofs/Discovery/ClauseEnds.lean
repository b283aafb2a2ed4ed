import QueryGate.Proofs.Discovery.Names
import QueryGate.Proofs.Query.Readability
import QueryGate.Proofs.Text.Misses

/-!
# Where clauses begin and end

A clause begins at the word `WHERE` and ends at one of a few words and marks
(`clauseMatcher_opensOn`, `clauseEnd_opensOn`). A name without those among its segments
is passed over (`Name.lacks_of_isField`), and so is a quoted string, unless the string
holds such an end (`misses_quoted`): quotes do not hide what stands between them.
-/

namespace QueryGate

open Text

/-! ## Letters and words -/

namespace Name

theorem lt_of_isPart {c : Char} (h : isPart c = true) : c.toNat < 0x80 := by
  rw [isPart, Bool.or_eq_true, beq_iff_eq] at h
  rcases h with h | rfl
  · have hbounds := bounds_of_isAlphanum h
    omega
  · decide

theorem isWord_of_isPart {c : Char} (h : isPart c = true) : isWord c = true := by
  rwa [isWord, if_pos (lt_of_isPart h)]

end Name

namespace WhereClause

theorem isWord_of_isFieldPart {c : Char} (h : isFieldPart c = true) : isWord c = true := by
  by_cases hs : c = longS
  · subst hs
    decide +kernel
  by_cases hk : c = kelvin
  · subst hk
    decide +kernel
  rw [isFieldPart, fold, if_neg hs, if_neg hk, Name.isPart_toLower] at h
  exact Name.isWord_of_isPart h

theorem isFieldPart_of_isFieldStart {c : Char} (h : isFieldStart c = true) :
    isFieldPart c = true := Name.isPart_of_isStart h

/-- The characters of a plain name fold to characters of names. -/
theorem fold_eq_toLower {c : Char} (h : Name.isPart c = true) : fold c = c.toLower := by
  rw [fold, if_neg, if_neg]
  · rintro rfl
    exact absurd h (by decide)
  · rintro rfl
    exact absurd h (by decide)

theorem isFieldPart_of_isPart {c : Char} (h : Name.isPart c = true) : isFieldPart c = true := by
  rwa [isFieldPart, fold_eq_toLower h, Name.isPart_toLower]

/-- What folds to characters of names goes on with a field. -/
theorem isFieldPart_of_map_fold {cs word : List Char} (h : cs.map fold = word)
    (hword : word.all Name.isPart = true) : ∀ c ∈ cs, isFieldPart c = true := fun _ hc =>
  List.all_eq_true.1 hword _ (h ▸ List.mem_map_of_mem hc)

end WhereClause

namespace Text

/-- All blanks, by their numbers. -/
def blankNumbers : List ℕ := blankRanges.flatMap fun (low, high) => List.range' low (high + 1 - low)

theorem not_isWord_of_isBlank {c : Char} (h : isBlank c = true) : isWord c = false := by
  have hall : ∀ n ∈ blankNumbers, isWord (Char.ofNat n) = false := by decide +kernel
  obtain ⟨⟨low, high⟩, hrange, hbounds⟩ := List.any_eq_true.1 h
  rw [Bool.and_eq_true, decide_eq_true_eq, decide_eq_true_eq] at hbounds
  have hmem : c.toNat ∈ blankNumbers :=
    List.mem_flatMap.2 ⟨_, hrange, List.mem_range'_1.2 ⟨hbounds.1, by omega⟩⟩
  have hc := hall _ hmem
  rwa [Char.ofNat_toNat] at hc

theorem not_isBlank_of_isWord {c : Char} (h : isWord c = true) : isBlank c = false :=
  Bool.eq_false_iff.2 fun hblank => Bool.false_ne_true ((not_isWord_of_isBlank hblank).symm.trans h)

/-- What folds to characters of names is not blank. -/
theorem not_isBlank_of_map_fold {cs word : List Char} (h : cs.map fold = word)
    (hword : word.all Name.isPart = true) : ∀ c ∈ cs, isBlank c = false := fun c hc =>
  not_isBlank_of_isWord
    (WhereClause.isWord_of_isFieldPart (WhereClause.isFieldPart_of_map_fold h hword c hc))

/-- A word of letters that no word goes on behind is the first run of the text. -/
theorem takeWhile_isWord_of_fold {word front rest : List Char}
    (hword : word.all (fun w => WhereClause.isFieldPart w) = true)
    (hfold : front.map fold = word.map fold) (hrest : wordAt rest.head? = false) :
    (front ++ rest).takeWhile isWord = front := by
  have hfront : ∀ c ∈ front, isWord c = true := fun c hc => WhereClause.isWord_of_isFieldPart
    (WhereClause.isFieldPart_of_map_fold hfold (List.all_map.trans hword) c hc)
  rw [List.takeWhile_append_of_pos hfront, List.append_right_eq_self]
  cases rest with
  | nil => rfl
  | cons c rest =>
    have hc : isWord c = false := hrest
    rw [List.takeWhile_cons, hc]
    rfl

/-! ## Openings -/

section Openings

variable {α : Type} {keywords more : List (List Char)} {marks : List Char}

theorem OpensOn.mono {m : Matcher α} (h : OpensOn keywords marks m) (hmore : keywords ⊆ more) :
    OpensOn more marks m := by
  intro before c cs found hfound
  exact (h before c cs found hfound).imp_right fun ⟨hbefore, hc, hmem⟩ => ⟨hbefore, hc, hmore hmem⟩

theorem OpensOn.anyOf {ms : List (Matcher α)} (h : ∀ m ∈ ms, OpensOn keywords marks m) :
    OpensOn keywords marks (anyOf ms) := by
  intro before c cs found hfound
  obtain ⟨m, hm, hsome⟩ := List.exists_of_findSome?_eq_some hfound
  exact h m hm before c cs found hsome

theorem isWord_of_takeWhile_eq {word cs : List Char} {c : Char} (hne : word ≠ [])
    (h : ((c :: cs).takeWhile isWord).map fold = word.map fold) : isWord c = true := by
  rw [List.takeWhile_cons] at h
  split_ifs at h with hc
  · exact hc
  · exact absurd (List.map_eq_nil_iff.1 h.symm) hne

theorem opensOn_keyword {word : List Char} (hne : word ≠ [])
    (hword : word.all (fun w => WhereClause.isFieldPart w) = true) (marks : List Char) :
    OpensOn [word.map fold] marks (keyword word) := by
  intro before c cs found hfound
  obtain ⟨hbefore, hafter⟩ := keyword_eq_some hfound
  obtain ⟨front, hcs, hfold, hrest⟩ := afterKeyword_eq_some_iff.1 hafter
  have hsame : ((c :: cs).takeWhile isWord).map fold = word.map fold := by
    rw [hcs, takeWhile_isWord_of_fold hword hfold hrest, hfold]
  exact .inr ⟨hbefore, isWord_of_takeWhile_eq hne hsame, List.mem_singleton.2 hsame⟩

/-- A keyword that is not recognized is not there either in front of a text with which no word
    goes on. -/
theorem keyword_append_eq_none {word cs tail : List Char} {before : Option Char} {c : Char}
    (hne : word ≠ []) (hword : word.all (fun w => WhereClause.isFieldPart w) = true)
    (h : keyword word before (c :: cs) = none) (htail : wordAt tail.head? = false) :
    keyword word before (c :: (cs ++ tail)) = none := by
  refine Option.eq_none_iff_forall_ne_some.2 fun found hfound => ?_
  rcases opensOn_keyword hne hword [] before c _ found hfound with hc | ⟨hbefore, -, hmem⟩
  · cases hc
  · rw [← List.cons_append, takeWhile_append_of_ends (List.cons_ne_nil c cs) (.inr htail),
      List.mem_singleton] at hmem
    -- the whole word stands in the shorter text already
    have hrest : wordAt ((c :: cs).dropWhile isWord).head? = false := by
      have hhead := List.head?_dropWhile_not isWord (c :: cs)
      cases hdrop : ((c :: cs).dropWhile isWord).head? with
      | none => rfl
      | some d => rwa [hdrop] at hhead
    have hsome := keyword_of_fold hmem hbefore hrest
    rw [List.takeWhile_append_dropWhile, h] at hsome
    cases hsome

end Openings

end Text

namespace WhereClause

theorem head_of_afterBlanks {cs rest : List Char} (h : afterBlanks cs = some rest) :
    ∃ c more, cs = c :: more ∧ isBlank c = true ∧ rest = trimStart cs := by
  cases cs with
  | nil => cases h
  | cons c cs =>
    rw [afterBlanks] at h
    split_ifs at h with hc
    refine ⟨c, cs, rfl, hc, ?_⟩
    rw [← Option.some.inj h, trimStart, trimStart, List.dropWhile_cons, if_pos hc]

theorem opensOn_keywordPair {first second : List Char} (hne : first ≠ [])
    (hfirst : first.all (fun w => isFieldPart w) = true) (marks : List Char) :
    OpensOn [first.map fold] marks (keywordPair first second) := by
  intro before c cs found hfound
  rw [keywordPair] at hfound
  split_ifs at hfound with hbefore
  obtain ⟨rest, hrest, -⟩ := Option.map_eq_some_iff.1 hfound
  obtain ⟨behind, hbehind, -⟩ := Option.bind_eq_some_iff.1 hrest
  obtain ⟨middle, hmiddle, hblanks⟩ := Option.bind_eq_some_iff.1 hbehind
  obtain ⟨b, more, rfl, hb, -⟩ := head_of_afterBlanks hblanks
  obtain ⟨front, hcs, hfold⟩ := exists_of_afterFolded hmiddle
  have hends : wordAt (b :: more).head? = false := not_isWord_of_isBlank hb
  have hsame : ((c :: cs).takeWhile isWord).map fold = first.map fold := by
    rw [hcs, takeWhile_isWord_of_fold hfirst hfold hends, hfold]
  exact .inr ⟨Bool.eq_false_iff.2 hbefore, isWord_of_takeWhile_eq hne hsame,
    List.mem_singleton.2 hsame⟩

/-- The words that a clause may end at. -/
def endWords : List (List Char) :=
  ["order".toList, "group".toList, "having".toList, "limit".toList, "offset".toList]

/-- The other characters that the end of a clause may begin with. -/
def endMarks : List Char := ['\x60', '\n']

theorem clauseEnd_opensOn : OpensOn endWords endMarks clauseEnd := by
  refine OpensOn.anyOf fun m hm => ?_
  simp only [List.mem_cons, List.not_mem_nil, or_false] at hm
  rcases hm with rfl | rfl | rfl | rfl | rfl | rfl | rfl
  · exact (opensOn_keywordPair (by decide) (by decide) _).mono (by decide)
  · exact (opensOn_keywordPair (by decide) (by decide) _).mono (by decide)
  · exact (opensOn_keyword (by decide) (by decide) _).mono (by decide)
  · exact (opensOn_keyword (by decide) (by decide) _).mono (by decide)
  · exact (opensOn_keyword (by decide) (by decide) _).mono (by decide)
  · intro before c cs found hfound
    obtain ⟨rest, hrest, -⟩ := Option.map_eq_some_iff.1 hfound
    have hc : c = '\x60' := (List.cons.inj (after_eq_some_iff.1 hrest)).1
    exact .inl (hc ▸ List.mem_cons_self)
  · intro before c cs found hfound
    unfold blankLine at hfound
    split at hfound
    · next heq =>
      obtain rfl := (List.cons.inj heq).1
      exact .inl (by decide)
    · cases hfound

theorem clauseMatcher_opensOn : OpensOn ["where".toList] [] clauseMatcher := by
  intro before c cs found hfound
  obtain ⟨found', hkeyword, -⟩ := Option.map_eq_some_iff.1 hfound
  exact opensOn_keyword (by decide) (by decide) [] before c cs found' hkeyword

end WhereClause

/-! ## Names -/

namespace Name

/-- The segments of a name. -/
def segments (s : String) : List (List Char) := splitWhere (· == '.') s.toList

theorem isPart_or_dot {s : String} (h : isField s = true) {c : Char} (hc : c ∈ s.toList) :
    isPart c = true ∨ c = '.' := by
  rcases mem_splitWhere (p := (· == '.')) hc with hdot | ⟨piece, hpiece, hmem⟩
  · exact .inr (beq_iff_eq.1 hdot)
  · exact .inl (isPart_of_isSegment (List.all_eq_true.1 h piece hpiece) hmem)

theorem splitWhere_congr {p q : Char → Bool} {cs : List Char} (h : ∀ c ∈ cs, p c = q c) :
    splitWhere p cs = splitWhere q cs := by
  induction cs with
  | nil => rfl
  | cons c cs ih =>
    rw [splitWhere, splitWhere, h c List.mem_cons_self,
      ih fun d hd => h d (List.mem_cons_of_mem _ hd)]

/-- The words of a field name are its segments. -/
theorem wordsOf_toList {s : String} (h : isField s = true) : wordsOf s.toList = segments s := by
  refine splitWhere_congr fun c hc => ?_
  rcases isPart_or_dot h hc with hpart | rfl
  · rw [isWord_of_isPart hpart, ne_dot_of_isPart hpart]
    rfl
  · decide

theorem map_fold_segment {s : String} (h : isField s = true) {segment : List Char}
    (hsegment : segment ∈ segments s) : segment.map fold = lowered segment := by
  refine List.map_congr_left fun c hc => WhereClause.fold_eq_toLower ?_
  exact isPart_of_isSegment (List.all_eq_true.1 h segment hsegment) hc

theorem lacks_of_isField {s : String} {keywords : List (List Char)} {marks : List Char}
    (h : isField s = true) (hsegments : ∀ segment ∈ segments s, lowered segment ∉ keywords)
    (hmarks : (marks.all fun c => !isPart c && c != '.') = true) :
    Lacks keywords marks s.toList where
  words word hword := by
    rw [wordsOf_toList h] at hword
    rw [map_fold_segment h hword]
    exact hsegments word hword
  marks c hc hmem := by
    have hmark := List.all_eq_true.1 hmarks c hmem
    rw [Bool.and_eq_true, Bool.not_eq_true', bne_iff_ne] at hmark
    rcases isPart_or_dot h hc with hpart | hdot
    · exact Bool.false_ne_true (hmark.1.symm.trans hpart)
    · exact hmark.2 hdot

end Name

/-! ## Strings -/

namespace WhereClause

/-- Something stands behind a text that is in no way part of what ends a clause. -/
def IsStop (tail : List Char) : Prop := ∀ c ∈ tail.head?, c = '\'' ∨ c = '\\'

theorem isStop_nil : IsStop [] := fun _ h => by cases h

theorem isStop_quote (cs : List Char) : IsStop ('\'' :: cs) := by
  rintro _ ⟨⟩
  exact .inl rfl

/-- A matcher does not look past a stop. -/
def HaltsAt {α : Type} (m : Matcher α) : Prop :=
  ∀ before front tail, IsStop tail →
    m before (front ++ tail) = (m before front).map fun (value, rest) => (value, rest ++ tail)

section Stops

variable {tail : List Char}

theorem IsStop.eq_nil_or_cons (h : IsStop tail) :
    tail = [] ∨ ∃ c cs, tail = c :: cs ∧ (c = '\'' ∨ c = '\\') := by
  cases tail with
  | nil => exact .inl rfl
  | cons c cs => exact .inr ⟨c, cs, rfl, h c rfl⟩

theorem IsStop.wordAt (h : IsStop tail) : wordAt tail.head? = false := by
  obtain rfl | ⟨c, cs, rfl, rfl | rfl⟩ := h.eq_nil_or_cons <;> rfl

theorem IsStop.dropWhile {p : Char → Bool} (hquote : p '\'' = false) (hbackslash : p '\\' = false)
    (h : IsStop tail) (front : List Char) :
    (front ++ tail).dropWhile p = front.dropWhile p ++ tail := by
  have hnil : tail.dropWhile p = tail := by
    obtain rfl | ⟨c, cs, rfl, rfl | rfl⟩ := h.eq_nil_or_cons
    · rfl
    · rw [List.dropWhile_cons, hquote, if_neg Bool.false_ne_true]
    · rw [List.dropWhile_cons, hbackslash, if_neg Bool.false_ne_true]
  rw [List.dropWhile_append, hnil]
  split_ifs with hempty
  · rw [List.isEmpty_iff.1 hempty, List.nil_append]
  · rfl

theorem IsStop.afterBy {same : Char → Char → Bool} {word : List Char}
    (hword : ∀ w ∈ word, same w '\'' = false ∧ same w '\\' = false) (h : IsStop tail)
    (front : List Char) :
    afterBy same word (front ++ tail) = (afterBy same word front).map (· ++ tail) := by
  induction word generalizing front with
  | nil => rfl
  | cons w word ih =>
    cases front with
    | nil =>
      obtain ⟨hquote, hbackslash⟩ := hword w List.mem_cons_self
      obtain rfl | ⟨c, cs, rfl, rfl | rfl⟩ := h.eq_nil_or_cons
      · rfl
      · simp [Text.afterBy, hquote]
      · simp [Text.afterBy, hbackslash]
    | cons c front =>
      rw [List.cons_append, Text.afterBy, Text.afterBy,
        ih fun v hv => hword v (List.mem_cons_of_mem _ hv)]
      split_ifs <;> rfl

theorem IsStop.afterBlanks (h : IsStop tail) (front : List Char) :
    afterBlanks (front ++ tail) = (afterBlanks front).map (· ++ tail) := by
  cases front with
  | nil => obtain rfl | ⟨c, cs, rfl, rfl | rfl⟩ := h.eq_nil_or_cons <;> rfl
  | cons c front =>
    rw [List.cons_append, Text.afterBlanks, Text.afterBlanks, trimStart, trimStart,
      h.dropWhile (by decide) (by decide)]
    split_ifs <;> rfl

theorem IsStop.afterFolded {word : List Char} (hword : word.all (fun w => isFieldPart w) = true)
    (h : IsStop tail) (front : List Char) :
    afterFolded word (front ++ tail) = (afterFolded word front).map (· ++ tail) := by
  refine h.afterBy (fun w hw => ?_) front
  have hpart : Name.isPart (fold w) = true := List.all_eq_true.1 hword w hw
  constructor <;>
  · refine beq_eq_false_iff_ne.2 fun heq => ?_
    rw [heq] at hpart
    exact absurd hpart (by decide)

theorem IsStop.afterKeyword {word : List Char} (hword : word.all (fun w => isFieldPart w) = true)
    (h : IsStop tail) (front : List Char) :
    afterKeyword word (front ++ tail) = (afterKeyword word front).map (· ++ tail) := by
  rw [Text.afterKeyword, Text.afterKeyword, h.afterFolded hword]
  cases Text.afterFolded word front with
  | none => rfl
  | some rest =>
    have hhead : Text.wordAt (rest ++ tail).head? = Text.wordAt rest.head? := by
      cases rest with
      | nil => exact h.wordAt
      | cons c rest => rfl
    rw [Option.map_some]
    dsimp only
    rw [hhead]
    split_ifs <;> rfl

theorem haltsAt_keyword {word : List Char} (hword : word.all (fun w => isFieldPart w) = true) :
    HaltsAt (keyword word) := by
  intro before front tail h
  rw [keyword, keyword, h.afterKeyword hword]
  split_ifs
  · rfl
  · cases afterKeyword word front <;> rfl

theorem haltsAt_keywordPair {first second : List Char}
    (hfirst : first.all (fun w => isFieldPart w) = true)
    (hsecond : second.all (fun w => isFieldPart w) = true) :
    HaltsAt (keywordPair first second) := by
  intro before front tail h
  rw [keywordPair, keywordPair, h.afterFolded hfirst]
  split_ifs
  · rfl
  cases afterFolded first front with
  | none => rfl
  | some rest =>
    rw [Option.map_some, Option.bind_some, Option.bind_some, h.afterBlanks]
    cases afterBlanks rest with
    | none => rfl
    | some rest =>
      rw [Option.map_some, Option.bind_some, Option.bind_some, h.afterKeyword hsecond]
      cases afterKeyword second rest <;> rfl

theorem haltsAt_fence : HaltsAt (literal fence) := by
  intro before front tail h
  rw [literal, literal, after, h.afterBy (List.all_iff_forall_prop.1 (by decide)), after]
  cases afterBy (· == ·) fence front <;> rfl

theorem haltsAt_blankLine : HaltsAt blankLine := by
  intro before front tail h
  cases front with
  | nil => obtain rfl | ⟨c, cs, rfl, rfl | rfl⟩ := h.eq_nil_or_cons <;> rfl
  | cons c front =>
    by_cases hc : c = '\n'
    · subst hc
      have hdrop := h.dropWhile (p := fun c => c == ' ' || c == '\t') (by decide) (by decide) front
      simp only [blankLine, List.cons_append, hdrop]
      cases front.dropWhile fun c => c == ' ' || c == '\t' with
      | nil => obtain rfl | ⟨c, cs, rfl, rfl | rfl⟩ := h.eq_nil_or_cons <;> rfl
      | cons d rest =>
        by_cases hd : d = '\n'
        · subst hd
          rfl
        · simp [hd]
    · simp [blankLine, hc]

theorem haltsAt_anyOf {α : Type} {ms : List (Matcher α)} (hall : ∀ m ∈ ms, HaltsAt m) :
    HaltsAt (anyOf ms) := by
  intro before front tail h
  rw [anyOf, anyOf]
  induction ms with
  | nil => rfl
  | cons m ms ih =>
    rw [List.findSome?_cons, List.findSome?_cons, hall m List.mem_cons_self before front tail h]
    cases m before front with
    | none => exact ih fun m hm => hall m (List.mem_cons_of_mem _ hm)
    | some found => rfl

theorem haltsAt_clauseEnd : HaltsAt clauseEnd := by
  refine haltsAt_anyOf fun m hm => ?_
  simp only [List.mem_cons, List.not_mem_nil, or_false] at hm
  rcases hm with rfl | rfl | rfl | rfl | rfl | rfl | rfl
  · exact haltsAt_keywordPair (by decide) (by decide)
  · exact haltsAt_keywordPair (by decide) (by decide)
  · exact haltsAt_keyword (by decide)
  · exact haltsAt_keyword (by decide)
  · exact haltsAt_keyword (by decide)
  · exact haltsAt_fence
  · exact haltsAt_blankLine

end Stops

/-- Whether a string, seen behind a quote, holds what ends a clause. -/
def holdsEnd (s : String) : Bool := (findFirst clauseEnd (some '\'') s.toList).isSome

/-- A string, as it is and within quotes, goes on in the same way up to a first stop. -/
theorem exists_stop (s tail : List Char) :
    ∃ front stop stop', s = front ++ stop ∧
      s.flatMap Literal.escape ++ '\'' :: tail = front ++ stop' ∧ IsStop stop ∧ IsStop stop' := by
  induction s with
  | nil => exact ⟨[], [], '\'' :: tail, rfl, rfl, isStop_nil, isStop_quote tail⟩
  | cons c s ih =>
    by_cases hc : c = '\'' ∨ c = '\\'
    · have hstop : ∀ cs, IsStop (c :: cs) := by
        rintro cs _ ⟨⟩
        exact hc
      have hescape : Literal.escape c = [c, c] := if_pos hc
      refine ⟨[], c :: s, _, rfl, rfl, hstop s, ?_⟩
      rw [List.flatMap_cons, hescape]
      exact hstop _
    · have hescape : Literal.escape c = [c] := if_neg hc
      obtain ⟨front, stop, stop', hs, hescaped, h, h'⟩ := ih
      refine ⟨c :: front, stop, stop', by rw [hs]; rfl, ?_, h, h'⟩
      rw [List.flatMap_cons, hescape, List.append_assoc, hescaped]
      rfl

theorem clauseEnd_quote {c : Char} (hc : c = '\'' ∨ c = '\\') (before : Option Char)
    (cs : List Char) : clauseEnd before (c :: cs) = none := by
  rcases hc with rfl | rfl <;>
  exact clauseEnd_opensOn.eq_none_of_not_isWord (by decide) (by decide)

/-- Within quotes a clause ends nowhere if it ends nowhere in the string itself. -/
theorem misses_escape {before : Option Char} {s : List Char}
    (h : findFirst clauseEnd before s = none) (tail : List Char) :
    Misses clauseEnd before (s.flatMap Literal.escape) ('\'' :: tail) := by
  induction s generalizing before with
  | nil => exact misses_nil
  | cons c s ih =>
    rw [findFirst] at h
    split at h
    · cases h
    next hnone =>
    rw [List.flatMap_cons]
    by_cases hc : c = '\'' ∨ c = '\\'
    · have hescape : Literal.escape c = [c, c] := if_pos hc
      rw [hescape]
      exact ⟨clauseEnd_quote hc _ _, clauseEnd_quote hc _ _, ih h⟩
    · have hescape : Literal.escape c = [c] := if_neg hc
      -- up to the first stop nothing is escaped, and no end is seen past it
      obtain ⟨front, stop, stop', rfl, hescaped, hstop, hstop'⟩ := exists_stop s tail
      have hfront : clauseEnd before (c :: front) = none := by
        rwa [← List.cons_append, haltsAt_clauseEnd before _ _ hstop,
          Option.map_eq_none_iff] at hnone
      have hgoes : c :: ((front ++ stop).flatMap Literal.escape ++ '\'' :: tail) =
          c :: front ++ stop' := congrArg (c :: ·) hescaped
      rw [hescape]
      refine ⟨?_, ih h⟩
      change clauseEnd before (c :: ((front ++ stop).flatMap Literal.escape ++ '\'' :: tail)) = none
      rw [hgoes, haltsAt_clauseEnd before _ _ hstop', hfront]
      rfl

/-- A quoted string in which no clause ends is passed over. -/
theorem misses_quoted {s : String} (h : holdsEnd s = false) (before : Option Char)
    (tail : List Char) : Misses clauseEnd before (Literal.quoted s) tail := by
  have hquote : ∀ before cs, clauseEnd before ('\'' :: cs) = none := clauseEnd_quote (.inl rfl)
  rw [holdsEnd, Option.isSome_eq_false_iff, Option.isNone_iff_eq_none] at h
  rw [Literal.quoted, List.cons_append]
  exact ⟨hquote _ _, misses_append.2 ⟨misses_escape h tail, hquote _ _, misses_nil⟩⟩

end WhereClause

end QueryGate
