import QueryGate.Proofs.Discovery.ClauseEnds

/-!
# Where conditions are found

In a clause the literals are emptied, which can be done part by part if no literal goes
over the end of a part (`IsWhole`). Then a field with its operator behind it is found as
it stands there (`conditionMatcher_found`), and nothing is found in a text whose words do
not end in the letters of an operator (`IsInert.misses`).
-/

namespace QueryGate.WhereClause

open Text

/-! ## Emptied literals -/

theorem piecesFrom_literalMatcher (before before' : Option Char) (skip : ℕ) (cs : List Char) :
    piecesFrom literalMatcher before skip cs = piecesFrom literalMatcher before' skip cs := by
  cases cs with
  | nil => cases skip <;> rfl
  | cons c cs => cases skip <;> rfl

theorem emptyLiterals_cons {c : Char} (hc : c ≠ '\'') (cs : List Char) :
    emptyLiterals (c :: cs) = c :: emptyLiterals cs := by
  have hmatch : literalMatcher none (c :: cs) = none := by
    unfold literalMatcher
    split
    · next heq => exact absurd (List.cons.inj heq).1 hc
    · rfl
  rw [emptyLiterals, replaceAll, pieces, piecesFrom, hmatch,
    piecesFrom_literalMatcher (some c) none]
  rfl

/-- A literal ends at a quote. -/
theorem exists_of_afterLiteral? {cs rest : List Char} (h : afterLiteral? cs = some rest) :
    ∃ content, cs = content ++ '\'' :: rest := by
  induction cs using afterLiteral?.induct with
  | case1 => cases h
  | case2 cs => exact ⟨[], by rw [Option.some.inj h]; rfl⟩
  | case3 cs => cases h
  | case4 c cs hc ih =>
    rw [afterLiteral?, if_neg hc] at h
    obtain ⟨content, rfl⟩ := ih h
    exact ⟨'\\' :: c :: content, rfl⟩
  | case5 cs hquote hescape =>
    rw [afterLiteral?, if_pos rfl] at h
    · cases h
    all_goals assumption
  | case6 c cs hquote hescape hc ih =>
    rw [afterLiteral?, if_neg hc] at h
    · obtain ⟨content, rfl⟩ := ih h
      exact ⟨c :: content, rfl⟩
    all_goals assumption

/-- A literal is emptied. -/
theorem emptyLiterals_quote {cs rest : List Char} (h : afterLiteral? cs = some rest) :
    emptyLiterals ('\'' :: cs) = '\'' :: '\'' :: emptyLiterals rest := by
  obtain ⟨content, hcs⟩ := exists_of_afterLiteral? h
  have htext : '\'' :: cs = ('\'' :: content ++ ['\'']) ++ rest := by simp [hcs]
  have hmatch : literalMatcher none (('\'' :: content ++ ['\'']) ++ rest) =
      some (['\'', '\''], rest) := by
    rw [← htext, literalMatcher, h]
    rfl
  rw [htext, emptyLiterals, replaceAll, pieces, piecesFrom_found (by simp) hmatch,
    piecesFrom_literalMatcher _ none]
  rfl

theorem emptyLiterals_unclosed {cs : List Char} (h : afterLiteral? cs = none) :
    emptyLiterals ('\'' :: cs) = '\'' :: emptyLiterals cs := by
  have hmatch : literalMatcher none ('\'' :: cs) = none := by
    rw [literalMatcher, h]
    rfl
  rw [emptyLiterals, replaceAll, pieces, piecesFrom, hmatch,
    piecesFrom_literalMatcher _ none]
  rfl

/-- A text begins with a character that stays, or with a literal that is emptied. -/
theorem emptyLiterals_cases {cs : List Char} (hne : cs ≠ []) :
    (∃ c more, cs = c :: more ∧ emptyLiterals cs = c :: emptyLiterals more) ∨
      ∃ content rest, cs = '\'' :: content ++ '\'' :: rest ∧
        emptyLiterals cs = '\'' :: '\'' :: emptyLiterals rest := by
  obtain ⟨c, more, rfl⟩ := List.exists_cons_of_ne_nil hne
  by_cases hc : c = '\''
  · subst hc
    cases hafter : afterLiteral? more with
    | none => exact .inl ⟨'\'', more, rfl, emptyLiterals_unclosed hafter⟩
    | some rest =>
      obtain ⟨content, hmore⟩ := exists_of_afterLiteral? hafter
      exact .inr ⟨content, rest, by rw [hmore]; rfl, emptyLiterals_quote hafter⟩
  · exact .inl ⟨c, more, rfl, emptyLiterals_cons hc more⟩

/-- The literals that open in a text end in it, so that it is emptied on its own. -/
def IsWhole (cs : List Char) : Prop :=
  ∀ tail, emptyLiterals (cs ++ tail) = emptyLiterals cs ++ emptyLiterals tail

theorem IsWhole.append {cs ds : List Char} (hc : IsWhole cs) (hd : IsWhole ds) :
    IsWhole (cs ++ ds) := by
  intro tail
  rw [List.append_assoc, hc, hd, hc, List.append_assoc]

theorem isWhole_nil : IsWhole [] := fun _ => rfl

theorem isWhole_and_eq_of_not_mem {cs : List Char} (h : '\'' ∉ cs) :
    IsWhole cs ∧ emptyLiterals cs = cs := by
  induction cs with
  | nil => exact ⟨isWhole_nil, rfl⟩
  | cons c cs ih =>
    rw [List.mem_cons, not_or] at h
    obtain ⟨hwhole, heq⟩ := ih h.2
    have hcons := emptyLiterals_cons (Ne.symm h.1)
    refine ⟨fun tail => ?_, by rw [hcons, heq]⟩
    rw [List.cons_append, hcons, hcons, hwhole, List.cons_append]

theorem isWhole_of_not_mem {cs : List Char} (h : '\'' ∉ cs) : IsWhole cs :=
  (isWhole_and_eq_of_not_mem h).1

theorem emptyLiterals_of_not_mem {cs : List Char} (h : '\'' ∉ cs) : emptyLiterals cs = cs :=
  (isWhole_and_eq_of_not_mem h).2

/-- Within quotes a literal ends at each quote of the string, and another one opens behind it, so
    that nothing is left of the string but quotes. -/
theorem exists_emptied_escape (s : List Char) :
    ∃ quotes : List Char, (∀ c ∈ quotes, c = '\'') ∧ ∀ tail, ∃ rest,
      afterLiteral? (s.flatMap Literal.escape ++ '\'' :: tail) = some rest ∧
        emptyLiterals rest = quotes ++ emptyLiterals tail := by
  induction s with
  | nil => exact ⟨[], fun _ h => absurd h List.not_mem_nil, fun tail => ⟨tail, rfl, rfl⟩⟩
  | cons c s ih =>
    obtain ⟨quotes, hquotes, hs⟩ := ih
    by_cases hquote : c = '\''
    · subst hquote
      refine ⟨'\'' :: '\'' :: quotes, by simpa using hquotes, fun tail => ?_⟩
      obtain ⟨rest, hafter, hrest⟩ := hs tail
      refine ⟨'\'' :: (s.flatMap Literal.escape ++ '\'' :: tail), rfl, ?_⟩
      rw [emptyLiterals_quote hafter, hrest]
      rfl
    · refine ⟨quotes, hquotes, fun tail => ?_⟩
      obtain ⟨rest, hafter, hrest⟩ := hs tail
      refine ⟨rest, ?_, hrest⟩
      rw [← hafter, List.flatMap_cons]
      by_cases hbackslash : c = '\\'
      · subst hbackslash
        rfl
      · have hescape : Literal.escape c = [c] := if_neg (not_or.2 ⟨hquote, hbackslash⟩)
        rw [hescape]
        simp [afterLiteral?, hbackslash]

/-- A quoted string is whole, and nothing is left of it but quotes. -/
theorem isWhole_and_eq_quoted (s : String) :
    IsWhole (Literal.quoted s) ∧ ∀ c ∈ emptyLiterals (Literal.quoted s), c = '\'' := by
  obtain ⟨quotes, hquotes, hs⟩ := exists_emptied_escape s.toList
  have hempty : ∀ tail,
      emptyLiterals (Literal.quoted s ++ tail) = '\'' :: '\'' :: quotes ++ emptyLiterals tail := by
    intro tail
    obtain ⟨rest, hafter, hrest⟩ := hs tail
    have htext : Literal.quoted s ++ tail =
        '\'' :: (s.toList.flatMap Literal.escape ++ '\'' :: tail) := by
      simp [Literal.quoted]
    rw [htext, emptyLiterals_quote hafter, hrest]
    rfl
  have hself : emptyLiterals (Literal.quoted s) = '\'' :: '\'' :: quotes := by
    have h := hempty []
    rwa [List.append_nil, show emptyLiterals [] = [] from rfl, List.append_nil] at h
  refine ⟨fun tail => by rw [hempty, hself], ?_⟩
  rw [hself]
  simpa using hquotes

/-! ## Operators -/

/-- The characters that an operator of symbols begins with. -/
def symbolHeads : List Char := ['!', '>', '<', '=']

/-- The words that an operator of letters begins with. -/
def operatorWords : List (List Char) := ["in".toList, "like".toList]

/-- What goes on with a text that holds no condition: no name and no operator follows. -/
structure IsIdle (tail : List Char) : Prop where
  word : wordAt tail.head? = false
  dot : tail.head? ≠ some '.'
  operator : afterOperator? (trimStart tail) = none

theorem operatorAt?_eq_none {cs : List Char} (h : afterOperator? cs = none) :
    operatorAt? cs = none := by
  rw [operatorAt?, h]
  rfl

theorem after_symbol_eq_none {cs : List Char} (h : ∀ c ∈ cs.head?, c ∉ symbolHeads) :
    (["!=", ">=", "<=", "=", ">", "<"].findSome? fun symbol => after symbol.toList cs) = none := by
  rw [List.findSome?_eq_none_iff]
  intro symbol hsymbol
  refine Option.eq_none_iff_forall_ne_some.2 fun rest hrest => ?_
  have hheads : ∀ symbol ∈ ["!=", ">=", "<=", "=", ">", "<"],
      symbol.toList.head?.any symbolHeads.contains = true := by decide
  obtain ⟨c, hhead, hc⟩ := (Option.any_eq_true _ _).1 (hheads symbol hsymbol)
  rw [after_eq_some_iff.1 hrest] at h
  refine h c ?_ (List.contains_iff_mem.1 hc)
  rw [List.head?_append, hhead]
  rfl

/-- No operator stands at the start of a text that begins with a word other than those of the
    operators, nor where `IN` is missing behind a `NOT`. -/
theorem afterOperator?_eq_none {cs : List Char} (hsymbol : ∀ c ∈ cs.head?, c ∉ symbolHeads)
    (hword : (cs.takeWhile isWord).map fold ∉ operatorWords)
    (hnot : (cs.takeWhile isWord).map fold = "not".toList → ∀ behind rest,
      cs = cs.takeWhile isWord ++ behind → afterBlanks behind = some rest →
        afterKeyword "IN".toList rest = none) :
    afterOperator? cs = none := by
  have hkeyword : ∀ word : String, word.toList.all (fun w => isFieldPart w) = true →
      word.toList.map fold ∈ operatorWords → afterKeyword word.toList cs = none := by
    intro word hletters hmem
    refine Option.eq_none_iff_forall_ne_some.2 fun rest hrest => ?_
    obtain ⟨front, hcs, hfold, hends⟩ := afterKeyword_eq_some_iff.1 hrest
    rw [hcs, takeWhile_isWord_of_fold hletters hfold hends, hfold] at hword
    exact hword hmem
  have hnotIn : ((afterFolded "NOT".toList cs).bind afterBlanks).bind (afterKeyword "IN".toList) =
      none := by
    refine Option.eq_none_iff_forall_ne_some.2 fun rest hrest => ?_
    obtain ⟨middle, hmiddle, hin⟩ := Option.bind_eq_some_iff.1 hrest
    obtain ⟨behind, hfolded, hblanks⟩ := Option.bind_eq_some_iff.1 hmiddle
    obtain ⟨b, more, rfl, hb, -⟩ := head_of_afterBlanks hblanks
    obtain ⟨front, hcs, hfold⟩ := exists_of_afterFolded hfolded
    have hends : wordAt (b :: more).head? = false := not_isWord_of_isBlank hb
    have htake : cs.takeWhile isWord = front := by
      rw [hcs, takeWhile_isWord_of_fold (by decide) hfold hends]
    rw [hnot (htake ▸ hfold) _ _ (by rwa [htake]) hblanks] at hin
    cases hin
  rw [afterOperator?, hnotIn, hkeyword "IN" (by decide) (by decide),
    hkeyword "LIKE" (by decide) (by decide), after_symbol_eq_none hsymbol]
  rfl

theorem afterKeyword_in_eq_none {cs : List Char} (h : afterOperator? cs = none) :
    afterKeyword "IN".toList cs = none := by
  rw [afterOperator?, Option.orElse_eq_none, Option.orElse_eq_none] at h
  exact h.2.1

/-! ## Texts without conditions -/

/-- A text in which no operator can be found: it holds neither blanks nor symbols, and none of its
    words ends in the letters of an operator. -/
structure IsInert (cs : List Char) : Prop where
  chars : ∀ c ∈ cs, isBlank c = false ∧ c ∉ symbolHeads
  words : ∀ word ∈ wordsOf cs, ∀ ending ∈ word.tails, ending.map fold ∉ operatorWords

theorem isInert_iff {cs : List Char} : IsInert cs ↔
    (∀ c ∈ cs, isBlank c = false ∧ c ∉ symbolHeads) ∧
      ∀ word ∈ wordsOf cs, ∀ ending ∈ word.tails, ending.map fold ∉ operatorWords :=
  ⟨fun h => ⟨h.chars, h.words⟩, fun ⟨chars, words⟩ => ⟨chars, words⟩⟩

instance (cs : List Char) : Decidable (IsInert cs) :=
  decidable_of_iff
    (((cs.all fun c => !isBlank c && !symbolHeads.contains c) &&
      (wordsOf cs).all fun word => word.tails.all fun ending =>
        !operatorWords.contains (ending.map fold)) = true)
    (by simp [isInert_iff])

theorem IsInert.of_cons {c : Char} {cs : List Char} (h : IsInert (c :: cs)) : IsInert cs where
  chars d hd := h.chars d (List.mem_cons_of_mem c hd)
  words word hword ending hending := by
    obtain ⟨more, hmore⟩ := exists_wordsOf cs
    have hcs := h.words
    cases hc : isWord c with
    | false =>
      rw [wordsOf_of_not_isWord hc] at hcs
      exact hcs word (List.mem_cons_of_mem _ hword) ending hending
    | true =>
      -- the first run becomes longer
      have hcons : wordsOf (c :: cs) = (c :: cs.takeWhile isWord) :: more := by
        rw [wordsOf] at hmore
        rw [wordsOf, splitWhere, hc, hmore]
        rfl
      rw [hcons] at hcs
      rw [hmore] at hword
      rcases List.mem_cons.1 hword with rfl | hword
      · exact hcs _ List.mem_cons_self ending
          ((List.mem_tails _ _).2 (((List.mem_tails _ _).1 hending).trans (List.suffix_cons c _)))
      · exact hcs word (List.mem_cons_of_mem _ hword) ending hending

theorem IsInert.drop {cs : List Char} (h : IsInert cs) (count : ℕ) : IsInert (cs.drop count) := by
  induction count generalizing cs with
  | zero => exact h
  | succ count ih =>
    cases cs with
    | nil => exact h
    | cons c cs => exact ih h.of_cons

theorem IsInert.append_cons {cs ds : List Char} {c : Char} (hcs : IsInert cs)
    (hc : isWord c = false ∧ isBlank c = false ∧ c ∉ symbolHeads) (hds : IsInert ds) :
    IsInert (cs ++ c :: ds) where
  chars d hd := by
    rcases List.mem_append.1 hd with hd | hd
    · exact hcs.chars d hd
    · rcases List.mem_cons.1 hd with rfl | hd
      · exact hc.2
      · exact hds.chars d hd
  words word hword := by
    rw [wordsOf_append_cons hc.1, List.mem_append] at hword
    exact hword.elim (hcs.words word) (hds.words word)

/-- No operator stands at the start of such a text, before an idle one. -/
theorem IsInert.afterOperator? {cs tail : List Char} (h : IsInert cs) (htail : IsIdle tail) :
    afterOperator? (trimStart (cs ++ tail)) = none := by
  cases cs with
  | nil => exact htail.operator
  | cons c cs =>
    obtain ⟨hblank, hsymbol⟩ := h.chars c List.mem_cons_self
    have htrim : trimStart (c :: cs ++ tail) = c :: cs ++ tail := by
      rw [trimStart, List.cons_append, List.dropWhile_cons, hblank, if_neg Bool.false_ne_true]
    have htake : (c :: cs ++ tail).takeWhile isWord = (c :: cs).takeWhile isWord :=
      takeWhile_append_of_ends (List.cons_ne_nil c cs) (.inr htail.word)
    rw [htrim]
    refine afterOperator?_eq_none ?_ ?_ ?_
    · rintro _ ⟨⟩
      exact hsymbol
    · obtain ⟨more, hmore⟩ := exists_wordsOf (c :: cs)
      rw [htake]
      exact h.words _ (hmore ▸ List.mem_cons_self) _ ((List.mem_tails _ _).2 List.suffix_rfl)
    · intro _ behind rest hcs hblanks
      obtain ⟨b, more, rfl, hb, rfl⟩ := head_of_afterBlanks hblanks
      -- the blank behind the word is none of the text, and so the word is all of it
      rw [htake] at hcs
      obtain ⟨left, hleft⟩ : ∃ left, (c :: cs).takeWhile isWord ++ left = c :: cs :=
        ⟨_, List.takeWhile_append_dropWhile⟩
      generalize (c :: cs).takeWhile isWord = word at hcs hleft
      have hbehind : left ++ tail = b :: more := by
        rw [← hleft, List.append_assoc] at hcs
        exact List.append_cancel_left hcs
      cases left with
      | cons d left =>
        obtain rfl := (List.cons.inj hbehind).1
        have hmem : d ∈ c :: cs := hleft ▸ List.mem_append_right _ List.mem_cons_self
        rw [(h.chars d hmem).1] at hb
        cases hb
      | nil =>
        rw [← show tail = b :: more from hbehind]
        exact afterKeyword_in_eq_none htail.operator

/-- A path does not go on into an idle text. -/
theorem length_pathSpan_append_le {tail : List Char} (htail : IsIdle tail) (inside : Bool)
    (cs : List Char) : (pathSpan inside (cs ++ tail)).length ≤ cs.length := by
  induction cs generalizing inside with
  | nil =>
    cases tail with
    | nil => cases inside <;> exact Nat.le_refl 0
    | cons c tail =>
      have hpart : isFieldPart c = false := Bool.eq_false_iff.2 fun hpart =>
        Bool.false_ne_true (htail.word.symm.trans (isWord_of_isFieldPart hpart))
      have hstart : isFieldStart c = false := Bool.eq_false_iff.2 fun hstart =>
        Bool.false_ne_true (hpart.symm.trans (isFieldPart_of_isFieldStart hstart))
      have hdot : c ≠ '.' := fun hdot => htail.dot (congrArg some hdot)
      cases inside <;> simp [pathSpan, hpart, hstart, hdot]
  | cons c cs ih =>
    have hlong := Nat.succ_le_succ (ih true)
    have hnil := Nat.zero_le (c :: cs).length
    cases inside with
    | false =>
      rw [List.cons_append, pathSpan]
      split_ifs
      · exact hlong
      · exact hnil
    | true =>
      rw [List.cons_append, pathSpan]
      split_ifs
      · exact hlong
      · exact hlong
      · exact hnil

/-- Nothing is found in such a text, before an idle one. -/
theorem IsInert.misses {cs tail : List Char} (h : IsInert cs) (htail : IsIdle tail)
    (before : Option Char) : Misses conditionMatcher before cs tail := by
  induction cs generalizing before with
  | nil => exact misses_nil
  | cons c cs ih =>
    refine ⟨Option.eq_none_iff_forall_ne_some.2 fun found hfound => ?_, ih h.of_cons (some c)⟩
    rw [conditionMatcher] at hfound
    split_ifs at hfound
    obtain ⟨⟨field, op⟩, rest⟩ := found
    obtain ⟨count, hcount, -, -, hoperator, -⟩ := exists_of_conditionAt? hfound
    have hlength := length_pathSpan_append_le htail false (c :: cs)
    rw [List.drop_append_of_le_length (by omega),
      operatorAt?_eq_none ((h.drop (count + 1)).afterOperator? htail)] at hoperator
    cases hoperator

/-- No field begins at other characters than letters and underscores. -/
theorem conditionMatcher_eq_none {c : Char} (hc : isFieldStart c = false) (before : Option Char)
    (cs : List Char) : conditionMatcher before (c :: cs) = none := by
  rw [conditionMatcher, pathSpan, hc, if_neg Bool.false_ne_true]
  split_ifs <;> rfl

/-! ## Conditions -/

theorem isFieldStart_of_isStart {c : Char} (h : Name.isStart c = true) : isFieldStart c = true := by
  rwa [isFieldStart, fold_eq_toLower (Name.isPart_of_isStart h), Name.isStart_toLower]

theorem splitWhere_ne_nil (p : Char → Bool) (cs : List Char) : splitWhere p cs ≠ [] := by
  rw [splitWhere_eq_splitOnP]
  exact List.splitOnP_ne_nil p cs

/-- A path begins like its first segment. -/
theorem exists_head_of_isSegment {cs first : List Char} {more : List (List Char)}
    (hsplit : splitWhere (· == '.') cs = first :: more) (hfirst : Name.isSegment first = true) :
    ∃ c rest, cs = c :: rest ∧ Name.isStart c = true := by
  cases cs with
  | nil =>
    obtain ⟨rfl, -⟩ := List.cons.inj hsplit
    exact absurd hfirst Bool.false_ne_true
  | cons c cs =>
    rw [splitWhere] at hsplit
    split_ifs at hsplit
    · obtain ⟨rfl, -⟩ := List.cons.inj hsplit
      exact absurd hfirst Bool.false_ne_true
    · obtain ⟨part, parts, hparts⟩ := List.exists_cons_of_ne_nil (splitWhere_ne_nil (· == '.') cs)
      rw [hparts] at hsplit
      obtain ⟨rfl, -⟩ := List.cons.inj hsplit
      exact ⟨c, cs, rfl, (Bool.and_eq_true_iff.1 hfirst).1⟩

theorem all_isPart_of_isSegment {cs : List Char} (h : Name.isSegment cs = true) :
    cs.all Name.isPart = true :=
  List.all_eq_true.2 fun _ hc => Name.isPart_of_isSegment h hc

/-- Inside of a path the span takes in what is left of it. -/
theorem pathSpan_true_append {cs first tail : List Char} {more : List (List Char)}
    (hsplit : splitWhere (· == '.') cs = first :: more) (hfirst : first.all Name.isPart = true)
    (hmore : more.all Name.isSegment = true) (hpart : ∀ c ∈ tail.head?, isFieldPart c = false)
    (hdot : tail.head? ≠ some '.') : pathSpan true (cs ++ tail) = cs := by
  induction cs generalizing first more with
  | nil =>
    cases tail with
    | nil => rfl
    | cons c tail =>
      have hc : c ≠ '.' := fun hc => hdot (congrArg some hc)
      simp [pathSpan, hpart c rfl, hc]
  | cons c cs ih =>
    obtain ⟨next, parts, hnext⟩ := List.exists_cons_of_ne_nil (splitWhere_ne_nil (· == '.') cs)
    rw [splitWhere] at hsplit
    split_ifs at hsplit with hc
    · -- a dot: a segment follows, and so a letter
      obtain rfl := beq_iff_eq.1 hc
      obtain ⟨rfl, rfl⟩ := List.cons.inj hsplit
      rw [hnext, List.all_cons, Bool.and_eq_true] at hmore
      obtain ⟨d, rest, rfl, hd⟩ := exists_head_of_isSegment hnext hmore.1
      have hhead : (d :: rest ++ tail).head?.any isFieldStart = true := isFieldStart_of_isStart hd
      rw [List.cons_append, pathSpan, if_neg (by decide), if_pos ⟨rfl, hhead⟩,
        ih hnext (all_isPart_of_isSegment hmore.1) hmore.2]
    · rw [hnext] at hsplit
      obtain ⟨rfl, rfl⟩ := List.cons.inj hsplit
      rw [List.all_cons, Bool.and_eq_true] at hfirst
      rw [List.cons_append, pathSpan, if_pos (isFieldPart_of_isPart hfirst.1),
        ih hnext hfirst.2 hmore]

/-- The path at the start of a text is all of a field name that stands there. -/
theorem pathSpan_append {field tail : List Char} (h : Name.isPath field = true)
    (hpart : ∀ c ∈ tail.head?, isFieldPart c = false) (hdot : tail.head? ≠ some '.') :
    pathSpan false (field ++ tail) = field := by
  obtain ⟨first, more, hsplit⟩ :=
    List.exists_cons_of_ne_nil (splitWhere_ne_nil (· == '.') field)
  rw [Name.isPath, hsplit, List.all_cons, Bool.and_eq_true] at h
  have hspan := pathSpan_true_append hsplit (all_isPart_of_isSegment h.1) h.2 hpart hdot
  obtain ⟨c, rest, rfl, hc⟩ := exists_head_of_isSegment hsplit h.1
  have hstart := isFieldStart_of_isStart hc
  rw [List.cons_append, pathSpan_of_isFieldStart hstart] at hspan
  rw [List.cons_append, pathSpan, if_pos hstart, hspan]

theorem getLast?_ne_dot {field : List Char} (h : Name.isPath field = true) :
    field.getLast? ≠ some '.' := by
  intro hdot
  obtain ⟨front, rfl⟩ := List.getLast?_eq_some_iff.1 hdot
  rw [Name.isPath, splitWhere_eq_splitOnP, List.splitOnP_append_cons front [] (by decide),
    List.all_append, Bool.and_eq_true] at h
  exact absurd h.2 (by decide)

theorem operatorAt?_append (op : Operator) (rest : List Char) :
    operatorAt? (op.spelling.toList ++ ' ' :: rest) =
      some (op.spelling.toList, ' ' :: rest) := by
  have hafter : afterOperator? (op.spelling.toList ++ ' ' :: rest) = some (' ' :: rest) := by
    cases op <;> rfl
  rw [operatorAt?, hafter, Option.map_some, List.length_append, Nat.add_sub_cancel,
    List.take_left]

/-- A field is found that stands before an operator. -/
theorem conditionMatcher_found {field : List Char} (h : Name.isPath field = true) (op : Operator)
    (rest : List Char) {before : Option Char} (hbefore : wordAt before = false) :
    conditionMatcher before (field ++ ' ' :: (op.spelling.toList ++ ' ' :: rest)) =
      some ((field, op.spelling.toList), ' ' :: rest) := by
  have hnil : field ≠ [] := by
    rintro rfl
    exact absurd h (by decide)
  have htrim : ∀ op : Operator, ∀ cs, trimStart (' ' :: (op.spelling.toList ++ cs)) =
      op.spelling.toList ++ cs := by
    intro op cs
    cases op <;> rfl
  have hspace : ∀ c ∈ (' ' :: (op.spelling.toList ++ ' ' :: rest)).head?,
      isFieldPart c = false := by
    rintro _ ⟨⟩
    decide
  obtain ⟨length, hlength⟩ := Nat.exists_eq_succ_of_ne_zero (List.length_pos_iff.2 hnil).ne'
  rw [conditionMatcher, hbefore, if_neg Bool.false_ne_true,
    pathSpan_append h hspace (by rintro ⟨⟩), hlength, conditionAt?, ← Nat.succ_eq_add_one,
    ← hlength, List.take_left, List.drop_left, if_neg (getLast?_ne_dot h), htrim, operatorAt?_append]

end QueryGate.WhereClause
