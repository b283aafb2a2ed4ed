import QueryGate.Proofs.Discovery.ConditionScan

/-!
# Where mined fields stand

Whatever is mined from a text stands in it: a field at a word boundary, blanks, and the
spelling of the operator (`usages_stand`). The clause is part of the text
(`exists_of_mem_clauses`), and so is what holds no quote of the clause with its literals
emptied (`exists_of_emptyLiterals`), with the same neighbours but for such as end a word
too.

The field ends a word itself unless its operator is spelled in letters right behind it.
Those are then the last letters of the word, and the field is but the rest of it
(`word_split`).
-/

namespace QueryGate.WhereClause

open Text

/-! ## Operators and fields -/

/-- The words of the operators in letters, with what may stand between them. -/
inductive SpelledInLetters : List Char → Prop where
  | word {cs : List Char} (h : cs.map fold ∈ operatorWords) : SpelledInLetters cs
  | notIn {first blanks last : List Char} (hfirst : first.map fold = "not".toList)
      (hne : blanks ≠ []) (hblanks : ∀ c ∈ blanks, isBlank c = true)
      (hlast : last.map fold = "in".toList) : SpelledInLetters (first ++ (blanks ++ last))

theorem exists_of_afterBlanks {cs rest : List Char} (h : afterBlanks cs = some rest) :
    ∃ blanks, cs = blanks ++ rest ∧ blanks ≠ [] ∧ ∀ c ∈ blanks, isBlank c = true := by
  obtain ⟨c, more, rfl, hc, rfl⟩ := head_of_afterBlanks h
  refine ⟨(c :: more).takeWhile isBlank, List.takeWhile_append_dropWhile.symm, ?_, ?_⟩
  · rw [List.takeWhile_cons, hc]
    exact List.cons_ne_nil _ _
  · exact List.all_eq_true.1 List.all_takeWhile

/-- The operators in symbols. -/
def symbols : List (List Char) := ["!=", ">=", "<=", "=", ">", "<"].map String.toList

/-- An operator is spelled in letters, and ends at a word boundary, or in symbols. -/
theorem exists_of_afterOperator? {cs rest : List Char} (h : afterOperator? cs = some rest) :
    ∃ op, cs = op ++ rest ∧
      (SpelledInLetters op ∧ wordAt rest.head? = false ∨ op ∈ symbols) := by
  have hword : ∀ word : String, word.toList.map fold ∈ operatorWords →
      afterKeyword word.toList cs = some rest → ∃ op, cs = op ++ rest ∧
        (SpelledInLetters op ∧ wordAt rest.head? = false ∨ op ∈ symbols) := by
    intro word hmem hafter
    obtain ⟨op, hcs, hfold, hrest⟩ := afterKeyword_eq_some_iff.1 hafter
    exact ⟨op, hcs, .inl ⟨.word (hfold ▸ hmem), hrest⟩⟩
  rw [afterOperator?, Option.orElse_eq_some, Option.orElse_eq_some, Option.orElse_eq_some] at h
  rcases h with hnot | ⟨-, hin | ⟨-, hlike | ⟨-, hsymbol⟩⟩⟩
  · obtain ⟨middle, hmiddle, hin⟩ := Option.bind_eq_some_iff.1 hnot
    obtain ⟨after, hfolded, hblanks⟩ := Option.bind_eq_some_iff.1 hmiddle
    obtain ⟨first, rfl, hfirst⟩ := exists_of_afterFolded hfolded
    obtain ⟨blanks, rfl, hne, hall⟩ := exists_of_afterBlanks hblanks
    obtain ⟨last, rfl, hlast, hrest⟩ := afterKeyword_eq_some_iff.1 hin
    exact ⟨first ++ (blanks ++ last), by simp, .inl ⟨.notIn hfirst hne hall hlast, hrest⟩⟩
  · exact hword "IN" (by decide) hin
  · exact hword "LIKE" (by decide) hlike
  · obtain ⟨symbol, hsymbol, hafter⟩ := List.exists_of_findSome?_eq_some hsymbol
    exact ⟨symbol.toList, after_eq_some_iff.1 hafter, .inr (List.mem_map_of_mem hsymbol)⟩

theorem exists_of_operatorAt? {cs op rest : List Char} (h : operatorAt? cs = some (op, rest)) :
    cs = op ++ rest ∧
      (SpelledInLetters op ∧ wordAt rest.head? = false ∨ op ∈ symbols) := by
  obtain ⟨rest', hafter, hpair⟩ := Option.map_eq_some_iff.1 h
  obtain ⟨op', rfl, hop⟩ := exists_of_afterOperator? hafter
  rw [List.length_append, Nat.add_sub_cancel, List.take_left] at hpair
  cases hpair
  exact ⟨rfl, hop⟩

theorem isFieldPart_of_operatorWord {cs : List Char} (h : cs.map fold ∈ operatorWords) :
    ∀ c ∈ cs, isFieldPart c = true := by
  have hall : ∀ word ∈ operatorWords, word.all Name.isPart = true := by decide
  exact isFieldPart_of_map_fold rfl (hall _ h)

theorem ne_quote_of_isFieldPart {c : Char} (h : isFieldPart c = true) : c ≠ '\'' := by
  rintro rfl
  exact absurd h (by decide)

theorem ne_quote_of_isBlank {c : Char} (h : isBlank c = true) : c ≠ '\'' := by
  rintro rfl
  exact absurd h (by decide)

/-- An operator in letters ends with a letter. -/
theorem SpelledInLetters.getLast? {op : List Char} (h : SpelledInLetters op) :
    ∃ c, op.getLast? = some c ∧ isWord c = true := by
  have hlast : ∀ cs : List Char, cs ≠ [] → (∀ c ∈ cs, isFieldPart c = true) →
      ∃ c, cs.getLast? = some c ∧ isWord c = true := by
    intro cs hne hparts
    exact ⟨_, List.getLast?_eq_some_getLast hne,
      isWord_of_isFieldPart (hparts _ (List.getLast_mem hne))⟩
  cases h with
  | word h =>
    refine hlast op ?_ (isFieldPart_of_operatorWord h)
    rintro rfl
    exact absurd h (by decide)
  | @notIn first blanks last _ _ _ hin =>
    have hnil : last ≠ [] := by
      rintro rfl
      cases hin
    obtain ⟨c, hc, hword⟩ := hlast last hnil (isFieldPart_of_map_fold hin (by decide))
    exact ⟨c, by rw [List.getLast?_append, List.getLast?_append, hc]; rfl, hword⟩

/-- No operator holds a quote. -/
theorem not_mem_operator {op : List Char}
    (h : SpelledInLetters op ∨ op ∈ symbols) : '\'' ∉ op := by
  rcases h with h | hsymbol
  · cases h with
    | word h => exact fun hmem => ne_quote_of_isFieldPart (isFieldPart_of_operatorWord h _ hmem) rfl
    | notIn hfirst hne hblanks hlast =>
      intro hmem
      rcases List.mem_append.1 hmem with hmem | hmem
      · exact ne_quote_of_isFieldPart (isFieldPart_of_map_fold hfirst (by decide) _ hmem) rfl
      · rcases List.mem_append.1 hmem with hmem | hmem
        · exact ne_quote_of_isBlank (hblanks _ hmem) rfl
        · exact ne_quote_of_isFieldPart (isFieldPart_of_map_fold hlast (by decide) _ hmem) rfl
  · have hall : ∀ symbol ∈ symbols, '\'' ∉ symbol := by decide
    exact hall op hsymbol

/-- A path takes in the first character and goes on, or it is at its end. -/
theorem pathSpan_cons (inside : Bool) (c : Char) (cs : List Char) :
    (isFieldPart c = true ∨ c = '.') ∧ pathSpan inside (c :: cs) = c :: pathSpan true cs ∨
      pathSpan inside (c :: cs) = [] := by
  cases inside with
  | false =>
    rw [pathSpan]
    split_ifs with hstart
    · exact .inl ⟨.inl (isFieldPart_of_isFieldStart hstart), rfl⟩
    · exact .inr rfl
  | true =>
    rw [pathSpan]
    split_ifs with hpart hdot
    · exact .inl ⟨.inl hpart, rfl⟩
    · exact .inl ⟨.inr hdot.1, rfl⟩
    · exact .inr rfl

theorem isFieldPart_or_dot_of_mem_pathSpan {inside : Bool} {cs : List Char} {c : Char}
    (h : c ∈ pathSpan inside cs) : isFieldPart c = true ∨ c = '.' := by
  induction cs generalizing inside with
  | nil => cases inside <;> cases h
  | cons d cs ih =>
    rcases pathSpan_cons inside d cs with ⟨hd, hspan⟩ | hspan
    · rw [hspan] at h
      rcases List.mem_cons.1 h with rfl | h
      · exact hd
      · exact ih h
    · rw [hspan] at h
      cases h

/-- Inside of a path the span takes in the characters of names that follow. -/
theorem prefix_pathSpan_append {field word rest : List Char} {inside : Bool}
    (hfield : field <+: pathSpan inside (field ++ (word ++ rest)))
    (hinside : field = [] → inside = true) (hword : ∀ c ∈ word, isFieldPart c = true) :
    field ++ word <+: pathSpan inside (field ++ (word ++ rest)) := by
  induction field generalizing inside with
  | nil =>
    -- behind the field, where characters of names need no other to stand before them
    obtain rfl := hinside rfl
    clear hfield hinside
    induction word with
    | nil => exact List.nil_prefix
    | cons c word ih =>
      change c :: word <+: pathSpan true (c :: (word ++ rest))
      rw [pathSpan, if_pos (hword c List.mem_cons_self)]
      exact List.cons_prefix_cons.2 ⟨rfl, ih fun d hd => hword d (List.mem_cons_of_mem c hd)⟩
  | cons c field ih =>
    rw [List.cons_append] at hfield
    rw [List.cons_append, List.cons_append]
    rcases pathSpan_cons inside c (field ++ (word ++ rest)) with ⟨-, hspan⟩ | hspan
    · rw [hspan] at hfield ⊢
      exact List.cons_prefix_cons.2 ⟨rfl, ih (List.cons_prefix_cons.1 hfield).2 fun _ => rfl⟩
    · rw [hspan] at hfield
      cases List.prefix_nil.1 hfield

/-- What begins a path begins with a character that fields start with. -/
theorem isFieldStart_of_begins {c : Char} {field cs : List Char}
    (h : c :: field <+: pathSpan false cs) : isFieldStart c = true := by
  cases cs with
  | nil => cases List.prefix_nil.1 h
  | cons d cs =>
    rw [pathSpan] at h
    split_ifs at h with hstart
    · rwa [(List.cons_prefix_cons.1 h).1]
    · cases List.prefix_nil.1 h

/-- A field is found at a word boundary, at the start of a path. Of its beginnings it is the longest
    one that has an operator behind it and does not end with a dot. -/
theorem longest_of_conditionMatcher {before : Option Char} {cs field op rest : List Char}
    (h : conditionMatcher before cs = some ((field, op), rest)) :
    wordAt before = false ∧ field ≠ [] ∧ field <+: pathSpan false cs ∧
      ∃ behind, cs = field ++ behind ∧ operatorAt? (trimStart behind) = some (op, rest) ∧
        ∀ longer behind', longer <+: pathSpan false cs → cs = longer ++ behind' →
          field.length < longer.length → longer.getLast? ≠ some '.' →
            operatorAt? (trimStart behind') = none := by
  rw [conditionMatcher] at h
  split_ifs at h with hbefore
  obtain ⟨count, hcount, rfl, -, hoperator, hlongest⟩ := exists_of_conditionAt? h
  have hspan := pathSpan_begins false cs
  have hlength : (cs.take (count + 1)).length = count + 1 :=
    List.length_take_of_le (hcount.trans_le hspan.length_le)
  refine ⟨Bool.eq_false_iff.2 hbefore, List.length_pos_iff.1 (by omega), ?_, _,
    (List.take_append_drop _ _).symm, hoperator, ?_⟩
  · exact List.prefix_of_prefix_length_le (List.take_prefix _ cs) hspan (by omega)
  · intro longer behind' hlonger hcs hlt hdot
    have hle := hlonger.length_le
    obtain ⟨more, hmore⟩ : ∃ more, longer.length = more + 1 := ⟨longer.length - 1, by omega⟩
    have htake : cs.take (more + 1) = longer := by rw [hcs, ← hmore, List.take_left]
    have hdrop : cs.drop (more + 1) = behind' := by rw [hcs, ← hmore, List.drop_left]
    have hnone := hlongest more (by omega) (by omega)
    rw [htake, hdrop] at hnone
    exact hnone hdot

/-- An `IN` with blanks before it is an operator. -/
theorem operatorAt?_in_ne_none {blanks last rest : List Char}
    (hblanks : ∀ c ∈ blanks, isBlank c = true) (hlast : last.map fold = "in".toList)
    (hrest : wordAt rest.head? = false) :
    operatorAt? (trimStart (blanks ++ (last ++ rest))) ≠ none := by
  have htrim : trimStart (blanks ++ (last ++ rest)) = last ++ rest := by
    rw [trimStart, List.dropWhile_append_of_pos hblanks]
    cases last with
    | nil => cases hlast
    | cons c last =>
      have hpart : isFieldPart c = true :=
        isFieldPart_of_map_fold hlast (by decide) c List.mem_cons_self
      have hblank : isBlank c = false := not_isBlank_of_isWord (isWord_of_isFieldPart hpart)
      rw [List.cons_append, List.dropWhile_cons, hblank, if_neg Bool.false_ne_true]
  have hkeyword : afterKeyword "IN".toList (last ++ rest) = some rest :=
    afterKeyword_eq_some_iff.2 ⟨last, rfl, hlast, hrest⟩
  rw [htrim]
  intro hnone
  rw [afterKeyword_in_eq_none (Option.map_eq_none_iff.1 hnone)] at hkeyword
  cases hkeyword

/-- A `NOT IN` right behind a field stands behind a longer one, too: the `NOT` is part of that, and the
    `IN` is its operator. -/
theorem exists_longer_of_notIn {field first blanks last rest : List Char}
    (hbegins : field <+: pathSpan false (field ++ (first ++ (blanks ++ last) ++ rest)))
    (hne : field ≠ []) (hfirst : first.map fold = "not".toList)
    (hblanks : ∀ c ∈ blanks, isBlank c = true) (hlast : last.map fold = "in".toList)
    (hrest : wordAt rest.head? = false) :
    ∃ longer behind, longer <+: pathSpan false (field ++ (first ++ (blanks ++ last) ++ rest)) ∧
      field ++ (first ++ (blanks ++ last) ++ rest) = longer ++ behind ∧
      field.length < longer.length ∧ longer.getLast? ≠ some '.' ∧
      operatorAt? (trimStart behind) ≠ none := by
  have hparts : ∀ c ∈ first, isFieldPart c = true := isFieldPart_of_map_fold hfirst (by decide)
  have hfirstne : first ≠ [] := by
    rintro rfl
    cases hfirst
  refine ⟨field ++ first, blanks ++ (last ++ rest), ?_, by simp, ?_, ?_,
    operatorAt?_in_ne_none hblanks hlast hrest⟩
  · rw [List.append_assoc first] at hbegins ⊢
    exact prefix_pathSpan_append hbegins (fun h => absurd h hne) hparts
  · have hpos := List.length_pos_iff.2 hfirstne
    rw [List.length_append]
    omega
  · rw [List.getLast?_append_of_ne_nil _ hfirstne]
    intro hdot
    exact absurd (hparts '.' (List.mem_of_getLast? hdot)) (by decide)

/-- A field is found at a word boundary, with blanks and the spelling of an operator behind it.
    Letters that follow at once are those of `IN` and `LIKE` only. -/
theorem exists_of_conditionMatcher {before : Option Char} {cs field op rest : List Char}
    (h : conditionMatcher before cs = some ((field, op), rest)) :
    wordAt before = false ∧ wordAt field.head? = true ∧ '\'' ∉ field ∧
      ∃ blanks, cs = field ++ (blanks ++ (op ++ rest)) ∧ (∀ c ∈ blanks, isBlank c = true) ∧
        (SpelledInLetters op ∧ wordAt rest.head? = false ∧
            (blanks = [] → op.map fold ∈ operatorWords) ∨
          op ∈ symbols) := by
  obtain ⟨hbefore, hne, hbegins, behind, rfl, hoperator, hlongest⟩ := longest_of_conditionMatcher h
  obtain ⟨htrim, hspelled⟩ := exists_of_operatorAt? hoperator
  have hbehind : behind = behind.takeWhile isBlank ++ (op ++ rest) := by
    rw [← htrim]
    exact List.takeWhile_append_dropWhile.symm
  refine ⟨hbefore, ?_, ?_, behind.takeWhile isBlank, by rw [← hbehind],
    List.all_eq_true.1 List.all_takeWhile, ?_⟩
  · obtain ⟨c, field, rfl⟩ := List.exists_cons_of_ne_nil hne
    exact isWord_of_isFieldPart (isFieldPart_of_isFieldStart (isFieldStart_of_begins hbegins))
  · intro hquote
    rcases isFieldPart_or_dot_of_mem_pathSpan (hbegins.subset hquote) with hpart | hdot
    · exact ne_quote_of_isFieldPart hpart rfl
    · cases hdot
  · refine hspelled.imp_left fun ⟨hletters, hrest⟩ => ⟨hletters, hrest, fun hnil => ?_⟩
    rw [hnil, List.nil_append] at hbehind
    subst hbehind
    cases hletters with
    | word hword => exact hword
    | notIn hfirst _ hblanks hlast =>
      -- the longer field is tried before this one, and would have been found
      obtain ⟨longer, behind, hlonger, hcs, hlength, hdot, hsome⟩ :=
        exists_longer_of_notIn hbegins hne hfirst hblanks hlast hrest
      exact absurd (hlongest longer behind hlonger hcs hlength hdot) hsome

/-! ## Emptied literals -/

/-- What begins a text with its literals emptied, and holds no quote, begins the text. -/
theorem exists_of_emptyLiterals_prefix {cs part back : List Char} (hquote : '\'' ∉ part)
    (h : emptyLiterals cs = part ++ back) :
    ∃ back', cs = part ++ back' ∧ back'.head? = back.head? := by
  induction part generalizing cs with
  | nil =>
    refine ⟨cs, rfl, ?_⟩
    rw [show back = emptyLiterals cs from h.symm]
    by_cases hne : cs = []
    · rw [hne]
      rfl
    · rcases emptyLiterals_cases hne with ⟨c, more, rfl, heq⟩ | ⟨content, rest, rfl, heq⟩
      · rw [heq]
        rfl
      · rw [heq]
        rfl
  | cons c part ih =>
    rw [List.mem_cons, not_or] at hquote
    have hne : cs ≠ [] := by
      rintro rfl
      cases h
    rcases emptyLiterals_cases hne with ⟨d, more, rfl, heq⟩ | ⟨content, rest, rfl, heq⟩
    · rw [heq, List.cons_append] at h
      obtain ⟨rfl, hmore⟩ := List.cons.inj h
      obtain ⟨back', rfl, hhead⟩ := ih hquote.2 hmore
      exact ⟨back', rfl, hhead⟩
    · rw [heq, List.cons_append] at h
      exact absurd (List.cons.inj h).1 hquote.1

/-- What stands in a text with its literals emptied, and holds no quote, stands in the text, with
    the same characters before and behind it. -/
theorem exists_of_emptyLiterals {cs front part back : List Char} (hne : part ≠ [])
    (hquote : '\'' ∉ part) (h : emptyLiterals cs = front ++ (part ++ back)) :
    ∃ front' back', cs = front' ++ (part ++ back') ∧ front'.getLast? = front.getLast? ∧
      back'.head? = back.head? := by
  -- on the length: where a literal is emptied, more than one character is left behind
  induction hlength : cs.length using Nat.strong_induction_on generalizing cs front with
  | _ length ih =>
    subst hlength
    cases front with
    | nil =>
      obtain ⟨back', hcs, hhead⟩ := exists_of_emptyLiterals_prefix hquote h
      exact ⟨[], back', hcs, rfl, hhead⟩
    | cons c front =>
      have hcs : cs ≠ [] := by
        rintro rfl
        cases h
      rcases emptyLiterals_cases hcs with ⟨d, more, rfl, heq⟩ | ⟨content, rest, rfl, heq⟩
      · rw [heq, List.cons_append] at h
        obtain ⟨rfl, hmore⟩ := List.cons.inj h
        obtain ⟨front', back', rfl, hlast, hhead⟩ := ih _ (Nat.lt_succ_self _) hmore rfl
        refine ⟨d :: front', back', rfl, ?_, hhead⟩
        rw [List.getLast?_cons, List.getLast?_cons, hlast]
      · rw [heq, List.cons_append] at h
        obtain ⟨rfl, hrest⟩ := List.cons.inj h
        cases front with
        | nil =>
          -- the part would begin with the second quote
          obtain ⟨d, part', rfl⟩ := List.exists_cons_of_ne_nil hne
          exact absurd (List.cons.inj hrest).1 fun hd => hquote (hd ▸ List.mem_cons_self)
        | cons d front =>
          obtain ⟨rfl, hmore⟩ := List.cons.inj hrest
          obtain ⟨front', back', rfl, hlast, hhead⟩ := ih _ (by simp; omega) hmore rfl
          refine ⟨'\'' :: content ++ '\'' :: front', back', by simp, ?_, hhead⟩
          rw [List.getLast?_append_cons, List.getLast?_cons, List.getLast?_cons,
            List.getLast?_cons, hlast]
          rfl

/-! ## Clauses -/

/-- A word before the end of a clause does not go on in it. -/
theorem wordAt_of_clauseEnd {before : Option Char} {back : List Char} {found : Unit × List Char}
    (h : clauseEnd before back = some found) (hbefore : wordAt before = true) :
    wordAt back.head? = false := by
  cases back with
  | nil => rfl
  | cons c back =>
    have hmarks : ∀ mark ∈ endMarks, isWord mark = false :=
      List.all_iff_forall_prop.1 (by decide)
    rcases clauseEnd_opensOn before c back found h with hmark | ⟨hfalse, -, -⟩
    · exact hmarks c hmark
    · rw [hbefore] at hfalse
      cases hfalse

/-- A clause is part of the text. No word goes on at its beginning, nor at its end. -/
theorem exists_of_mem_clauses {cs clause : List Char} (h : clause ∈ clauses cs) :
    ∃ front back, cs = front ++ (clause ++ back) ∧ wordAt clause.head? = false ∧
      (wordAt clause.getLast? = true → wordAt back.head? = false) := by
  obtain ⟨front, start, rest', rfl, hmatch⟩ := exists_of_mem_findAll h
  obtain ⟨⟨value, behind⟩, hkeyword, hpair⟩ := Option.map_eq_some_iff.1 hmatch
  obtain ⟨word, rfl, -, hbehind⟩ := afterKeyword_eq_some_iff.1 (keyword_eq_some hkeyword).2
  dsimp only at hpair
  split at hpair
  · next body found rest hcut =>
    -- the clause goes from behind its keyword to the first end
    cases hpair
    obtain ⟨back, rfl, hend⟩ := exists_of_cutFirst hcut
    refine ⟨front ++ word, back, by simp, ?_, fun hlast => ?_⟩
    · cases clause with
      | nil => rfl
      | cons c clause => exact hbehind
    · refine wordAt_of_clauseEnd hend ?_
      cases hclause : clause.getLast? with
      | none =>
        rw [hclause] at hlast
        cases hlast
      | some c => rwa [hclause] at hlast
  · cases hpair
    exact ⟨front ++ word, [], by simp, hbehind, fun _ => rfl⟩

/-- What stands in a clause with its literals emptied, and holds no quote, stands in the text. If it
    begins with a character of words, the same character stands before it. No word goes on behind it
    in the text that does not in the clause. -/
theorem exists_of_clause {cs clause front part back : List Char} (hclause : clause ∈ clauses cs)
    (hempty : emptyLiterals clause = front ++ (part ++ back)) (hquote : '\'' ∉ part)
    (hhead : wordAt part.head? = true) :
    ∃ front' back', cs = front' ++ (part ++ back') ∧ front'.getLast? = front.getLast? ∧
      (wordAt part.getLast? = true → wordAt back.head? = false → wordAt back'.head? = false) := by
  have hne : part ≠ [] := by
    rintro rfl
    cases hhead
  obtain ⟨left, right, hcs, hbegins, hends⟩ := exists_of_mem_clauses hclause
  obtain ⟨front', back', rfl, hlast, hnext⟩ := exists_of_emptyLiterals hne hquote hempty
  refine ⟨left ++ front', back' ++ right, by rw [hcs]; simp, ?_, fun hword hback => ?_⟩
  · -- the clause does not begin with a word, and so something stands before the part
    have hfront : front' ≠ [] := by
      rintro rfl
      rw [List.nil_append, List.head?_append_of_ne_nil _ hne, hhead] at hbegins
      cases hbegins
    rw [List.getLast?_append_of_ne_nil _ hfront, hlast]
  · cases back' with
    | cons c back' => rwa [← hnext] at hback
    | nil =>
      refine hends ?_
      rwa [List.append_nil, List.getLast?_append_of_ne_nil _ hne]

/-! ## Mined fields -/

/-- Whatever is mined from a text stands in it: the field begins at a word boundary, and behind it
    come blanks and a spelling of the operator. The field ends at a word boundary as well, unless
    letters that follow at once are those of the operator, and end the word. -/
theorem usages_stand {cs : List Char} {field : String} {op : Operator}
    (h : (field, op) ∈ usages cs) :
    ∃ front blanks spelled back,
      cs = front ++ (field.toList ++ (blanks ++ (spelled ++ back))) ∧
        wordAt front.getLast? = false ∧ (∀ c ∈ blanks, isBlank c = true) ∧
        Operator.parse? (String.ofList spelled) = some op ∧
        (wordAt (blanks ++ (spelled ++ back)).head? = false ∨
          blanks = [] ∧ spelled.map fold ∈ operatorWords ∧ wordAt back.head? = false) := by
  obtain ⟨clause, hclause, h⟩ := List.mem_flatMap.1 h
  obtain ⟨⟨name, spelled⟩, hfound, husage⟩ := List.mem_filterMap.1 h
  obtain ⟨rfl, hparse⟩ : String.ofList name = field ∧
      Operator.parse? (String.ofList spelled) = some op := by
    dsimp only [usage?] at husage
    split_ifs at husage
    obtain ⟨op', hop, hpair⟩ := Option.map_eq_some_iff.1 husage
    cases hpair
    exact ⟨rfl, hop⟩
  -- the field, the blanks and the operator hold no quote, and so they stand in the text as they do
  -- among the emptied literals
  obtain ⟨start, rest, rest', hempty, hmatch⟩ := exists_of_mem_findAll hfound
  obtain ⟨hbefore, hhead, hquote, blanks, rfl, hblanks, hspelled⟩ :=
    exists_of_conditionMatcher hmatch
  have hname : name ≠ [] := by
    rintro rfl
    cases hhead
  have hpart : emptyLiterals clause = start ++ (name ++ (blanks ++ spelled) ++ rest') := by
    rw [hempty]
    simp
  have hpartQuote : '\'' ∉ name ++ (blanks ++ spelled) := by
    rw [List.mem_append, List.mem_append, not_or, not_or]
    exact ⟨hquote, fun hmem => ne_quote_of_isBlank (hblanks _ hmem) rfl,
      not_mem_operator (hspelled.imp_left And.left)⟩
  have hpartHead : wordAt (name ++ (blanks ++ spelled)).head? = true := by
    rwa [List.head?_append_of_ne_nil _ hname]
  obtain ⟨front, back, hcs, hlast, hback⟩ := exists_of_clause hclause hpart hpartQuote hpartHead
  refine ⟨front, blanks, spelled, back, ?_, by rwa [hlast], hblanks, hparse, ?_⟩
  · rw [String.toList_ofList, hcs]
    simp
  cases blanks with
  | cons b blanks => exact .inl (not_isWord_of_isBlank (hblanks b List.mem_cons_self))
  | nil =>
    rcases hspelled with ⟨hletters, hrest, hwords⟩ | hsymbol
    · obtain ⟨c, hc, hword⟩ := hletters.getLast?
      refine .inr ⟨rfl, hwords rfl, hback ?_ hrest⟩
      rw [List.nil_append, List.getLast?_append, hc]
      exact hword
    · have hheads : ∀ symbol ∈ symbols, symbol ≠ [] ∧ wordAt symbol.head? = false := by decide
      obtain ⟨hne, hword⟩ := hheads spelled hsymbol
      left
      rwa [List.nil_append, List.head?_append_of_ne_nil _ hne]

/-- The field of a comparison stands before its operator. -/
theorem comparison_stands :
    ("Amount", .greater) ∈ usages "SELECT Id FROM Opportunity WHERE Amount > 5".toList ∧
      ∃ front blanks spelled back,
        "SELECT Id FROM Opportunity WHERE Amount > 5".toList =
            front ++ ("Amount".toList ++ (blanks ++ (spelled ++ back))) ∧
          wordAt front.getLast? = false ∧ (∀ c ∈ blanks, isBlank c = true) ∧
          Operator.parse? (String.ofList spelled) = some .greater ∧
          (wordAt (blanks ++ (spelled ++ back)).head? = false ∨
            blanks = [] ∧ spelled.map fold ∈ operatorWords ∧ wordAt back.head? = false) := by
  have hmined : ("Amount", .greater) ∈
      usages "SELECT Id FROM Opportunity WHERE Amount > 5".toList := by decide +kernel
  exact ⟨hmined, usages_stand hmined⟩

/-- A word of prose that ends in the letters of an operator is split, although no field ends where
    the rest of it does. -/
theorem word_split :
    ("Orig", .isIn) ∈ usages "the cases WHERE Origin is the web".toList ∧
      ∀ front back, "the cases WHERE Origin is the web".toList = front ++ ("Orig".toList ++ back) →
        wordAt back.head? = true := by
  refine ⟨by decide +kernel, fun front back h => ?_⟩
  have hall : ∀ n ∈ List.range 34, ∀ rest ∈
      after "Orig".toList ("the cases WHERE Origin is the web".toList.drop n),
        wordAt rest.head? = true := by
    decide +kernel
  have hlength := congrArg List.length h
  rw [List.length_append] at hlength
  refine hall front.length (List.mem_range.2 ?_) back ?_
  · have htext : "the cases WHERE Origin is the web".toList.length = 33 := by decide
    omega
  · rw [h, List.drop_left]
    exact after_eq_some_iff.2 rfl

end QueryGate.WhereClause
