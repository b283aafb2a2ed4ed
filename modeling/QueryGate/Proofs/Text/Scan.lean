import Mathlib.Data.List.Forall2
import Mathlib.Data.List.Infix
import QueryGate.Text.Scan

/-!
# What scanning finds

Whatever a scan yields comes from the text: a match starts at some position of it, and a
character that is in no match is one of its own.

* `keyword_append`: a keyword is recognized whatever follows the character behind it;
* `exists_of_mem_findAll`: a match that is found is one at some position;
* `exists_findAll_of_cutFirst`: the match that a text is cut at is found first;
* `mem_replaceAll`: a character of a text with its matches replaced;
* `mem_of_mem_splitOn`, `mem_of_mem_lines`: the parts of a text hold no other characters.
-/

namespace QueryGate.Text

variable {α : Type}

/-! ## Words -/

/-- A text that starts with a word is made up of as many characters and of what follows. -/
theorem exists_of_afterBy {same : Char → Char → Bool} {word cs rest : List Char}
    (h : afterBy same word cs = some rest) :
    ∃ front, cs = front ++ rest ∧ List.Forall₂ (fun w c => same w c = true) word front := by
  induction word generalizing cs with
  | nil =>
    obtain rfl := Option.some.inj h
    exact ⟨[], rfl, .nil⟩
  | cons w word ih =>
    cases cs with
    | nil => cases h
    | cons c cs =>
      rw [afterBy] at h
      split_ifs at h with hsame
      obtain ⟨front, rfl, hfront⟩ := ih h
      exact ⟨c :: front, rfl, .cons hsame hfront⟩

theorem length_of_afterBy {same : Char → Char → Bool} {word cs rest : List Char}
    (h : afterBy same word cs = some rest) : cs.length = word.length + rest.length := by
  obtain ⟨front, rfl, hfront⟩ := exists_of_afterBy h
  rw [List.length_append, hfront.length_eq]

theorem exists_of_afterFolded {word cs rest : List Char} (h : afterFolded word cs = some rest) :
    ∃ front, cs = front ++ rest ∧ front.map fold = word.map fold := by
  obtain ⟨front, rfl, hfront⟩ := exists_of_afterBy h
  refine ⟨front, rfl, ?_⟩
  clear h
  induction hfront with
  | nil => rfl
  | cons hsame _ ih => rw [List.map_cons, List.map_cons, ih, beq_iff_eq.1 hsame]

theorem afterFolded_append {word front : List Char} (h : front.map fold = word.map fold)
    (rest : List Char) : afterFolded word (front ++ rest) = some rest := by
  rw [afterFolded]
  induction word generalizing front with
  | nil =>
    obtain rfl := List.map_eq_nil_iff.1 h
    rfl
  | cons w word ih =>
    cases front with
    | nil => cases h
    | cons c front =>
      obtain ⟨hc, hfront⟩ := List.cons.inj h
      rw [List.cons_append, afterBy, hc, beq_self_eq_true, if_pos rfl, ih hfront]

/-- What stands behind the place of a word does not matter for whether the word is there. -/
theorem afterBy_append {same : Char → Char → Bool} {word cs : List Char} (tail : List Char)
    (h : word.length ≤ cs.length) :
    afterBy same word (cs ++ tail) = (afterBy same word cs).map (· ++ tail) := by
  induction word generalizing cs with
  | nil => rfl
  | cons w word ih =>
    cases cs with
    | nil => cases h
    | cons c cs =>
      rw [List.cons_append, afterBy, afterBy, ih (Nat.le_of_succ_le_succ h)]
      split_ifs <;> rfl

theorem after_eq_some_iff {word cs rest : List Char} :
    after word cs = some rest ↔ cs = word ++ rest := by
  induction word generalizing cs with
  | nil => simp [after, afterBy]
  | cons w word ih =>
    cases cs with
    | nil => simp [after, afterBy]
    | cons c cs =>
      rw [after, afterBy, List.cons_append, List.cons.injEq, ← ih]
      by_cases h : w = c
      · simp [h, after]
      · simp [h, Ne.symm h]

theorem literal_isSome_iff {word cs : List Char} {before : Option Char} :
    (literal word before cs).isSome = true ↔ word <+: cs := by
  rw [literal, Option.isSome_map, Option.isSome_iff_exists]
  exact exists_congr fun rest => after_eq_some_iff.trans eq_comm

/-- A word occurs in a text if it stands somewhere in it. -/
theorem occurs_iff {word cs : List Char} : occurs word cs = true ↔ word <:+: cs := by
  have hfind : ∀ before, (findFirst (literal word) before cs).isSome = true ↔ word <:+: cs := by
    induction cs with
    | nil =>
      intro before
      rw [findFirst, literal_isSome_iff, List.prefix_nil, List.infix_nil]
    | cons c cs ih =>
      intro before
      rw [findFirst, List.infix_cons_iff, ← ih (some c)]
      have hstart : (literal word before (c :: cs)).isSome = true ↔ word <+: c :: cs :=
        literal_isSome_iff
      rw [← hstart]
      cases literal word before (c :: cs) <;> simp
  exact hfind none

/-- A text starts with a keyword if it starts with its letters, whatever their case, and no word
    goes on behind them. -/
theorem afterKeyword_eq_some_iff {word cs rest : List Char} :
    afterKeyword word cs = some rest ↔
      ∃ front, cs = front ++ rest ∧ front.map fold = word.map fold ∧ wordAt rest.head? = false := by
  constructor
  · intro h
    rw [afterKeyword] at h
    split at h
    · next hfolded =>
      split_ifs at h with hrest
      obtain rfl := Option.some.inj h
      obtain ⟨front, hcs, hfold⟩ := exists_of_afterFolded hfolded
      exact ⟨front, hcs, hfold, Bool.eq_false_iff.2 hrest⟩
    · cases h
  · rintro ⟨front, rfl, hfold, hrest⟩
    rw [afterKeyword, afterFolded_append hfold]
    exact if_neg (Bool.eq_false_iff.1 hrest)

theorem suffix_of_afterKeyword {word cs rest : List Char} (h : afterKeyword word cs = some rest) :
    rest <:+ cs := by
  obtain ⟨front, rfl, -⟩ := afterKeyword_eq_some_iff.1 h
  exact List.suffix_append front rest

/-- A keyword is recognized where no word goes on, and nothing but its end matters. -/
theorem keyword_eq_some {word cs rest : List Char} {before : Option Char} {value : Unit}
    (h : keyword word before cs = some (value, rest)) :
    wordAt before = false ∧ afterKeyword word cs = some rest := by
  rw [keyword] at h
  split_ifs at h with hbefore
  obtain ⟨rest', hrest, hpair⟩ := Option.map_eq_some_iff.1 h
  cases hpair
  exact ⟨Bool.eq_false_iff.2 hbefore, hrest⟩

theorem keyword_of_fold {word front rest : List Char} {before : Option Char}
    (hfront : front.map fold = word.map fold) (hbefore : wordAt before = false)
    (hrest : wordAt rest.head? = false) :
    keyword word before (front ++ rest) = some ((), rest) := by
  rw [keyword, hbefore, if_neg Bool.false_ne_true,
    afterKeyword_eq_some_iff.2 ⟨front, rfl, hfront, hrest⟩]
  rfl

/-- What stands behind a keyword and the character after it does not matter for whether the keyword
    is there. -/
theorem keyword_append {word cs : List Char} (before : Option Char) (tail : List Char)
    (h : word.length < cs.length) :
    keyword word before (cs ++ tail) =
      (keyword word before cs).map fun (value, rest) => (value, rest ++ tail) := by
  rw [keyword, keyword, afterKeyword, afterKeyword, afterFolded, afterFolded,
    afterBy_append tail h.le]
  split_ifs
  · rfl
  cases hafter : afterBy (fun w c => fold w == fold c) word cs with
  | none => rfl
  | some rest =>
    -- the text goes on behind the word, with the same character
    have hhead : (rest ++ tail).head? = rest.head? := by
      have hlength := length_of_afterBy hafter
      cases rest with
      | nil => simp only [List.length_nil] at hlength; omega
      | cons c rest => rfl
    rw [Option.map_some]
    dsimp only
    rw [hhead]
    split_ifs <;> rfl

/-! ## Matches -/

section Pieces

variable {m : Matcher α} {before : Option Char} {skip : ℕ} {cs : List Char}

theorem getLast?_cons_or (c : Char) (front : List Char) (before : Option Char) :
    (c :: front).getLast?.or before = front.getLast?.or (some c) := by
  rw [List.getLast?_cons]
  cases front.getLast? <;> rfl

/-- A match that is found stands somewhere in the text, seen with the character before it. -/
theorem exists_of_found_mem {value : α} (h : .found value ∈ piecesFrom m before skip cs) :
    ∃ front rest rest', cs = front ++ rest ∧
      m (front.getLast?.or before) rest = some (value, rest') := by
  induction cs generalizing before skip with
  | nil => cases skip <;> cases h
  | cons c cs ih =>
    have htail : ∀ skip, .found value ∈ piecesFrom m (some c) skip cs →
        ∃ front rest rest', c :: cs = front ++ rest ∧
          m (front.getLast?.or before) rest = some (value, rest') := by
      intro skip h
      obtain ⟨front, rest, rest', rfl, hm⟩ := ih h
      exact ⟨c :: front, rest, rest', rfl, by rwa [getLast?_cons_or]⟩
    cases skip with
    | succ skip => exact htail _ h
    | zero =>
      rw [piecesFrom] at h
      split at h
      · next hm =>
        rcases List.mem_cons.1 h with heq | h
        · cases heq
          exact ⟨[], _, _, rfl, hm⟩
        · exact htail _ h
      · exact htail _ ((List.mem_cons.1 h).resolve_left fun heq => by cases heq)

theorem mem_of_plain_mem {d : Char} (h : .plain d ∈ piecesFrom m before skip cs) : d ∈ cs := by
  induction cs generalizing before skip with
  | nil => cases skip <;> cases h
  | cons c cs ih =>
    cases skip with
    | succ skip => exact List.mem_cons_of_mem _ (ih h)
    | zero =>
      rw [piecesFrom] at h
      split at h
      · exact List.mem_cons_of_mem _ (ih ((List.mem_cons.1 h).resolve_left fun heq => by cases heq))
      · rcases List.mem_cons.1 h with heq | h
        · cases heq
          exact List.mem_cons_self
        · exact List.mem_cons_of_mem _ (ih h)

/-- A match that is found in a text is one at some position of it. -/
theorem exists_of_mem_findAll {value : α} (h : value ∈ findAll m cs) :
    ∃ front rest rest', cs = front ++ rest ∧ m front.getLast? rest = some (value, rest') := by
  obtain ⟨piece, hpiece, hvalue⟩ := List.mem_filterMap.1 h
  cases piece with
  | plain c => cases hvalue
  | found value' =>
    obtain rfl := Option.some.inj hvalue
    obtain ⟨front, rest, rest', hcs, hm⟩ := exists_of_found_mem hpiece
    exact ⟨front, rest, rest', hcs, by rwa [Option.or_none] at hm⟩

/-- A character of a text with its matches replaced is one of the text, or of what stands for some
    match. -/
theorem mem_replaceAll {m : Matcher (List Char)} {d : Char} (h : d ∈ replaceAll m cs) :
    d ∈ cs ∨ ∃ before rest value rest', m before rest = some (value, rest') ∧ d ∈ value := by
  obtain ⟨piece, hpiece, hd⟩ := List.mem_flatMap.1 h
  cases piece with
  | plain c =>
    obtain rfl := List.mem_singleton.1 hd
    exact .inl (mem_of_plain_mem hpiece)
  | found value =>
    obtain ⟨front, rest, rest', -, hm⟩ := exists_of_found_mem hpiece
    exact .inr ⟨_, rest, value, rest', hm, hd⟩

end Pieces

/-- What stands before the first match is the beginning of the text. -/
theorem exists_of_cutFirst {m : Matcher α} {before : Option Char} {cs front rest : List Char}
    {value : α} (h : cutFirst m before cs = some (front, value, rest)) :
    ∃ back, cs = front ++ back ∧ m (front.getLast?.or before) back = some (value, rest) := by
  induction cs generalizing before front with
  | nil =>
    obtain ⟨found, hm, hpair⟩ := Option.map_eq_some_iff.1 h
    cases hpair
    exact ⟨[], rfl, hm⟩
  | cons c cs ih =>
    rw [cutFirst] at h
    split at h
    · next hm =>
      cases h
      exact ⟨c :: cs, rfl, hm⟩
    · obtain ⟨⟨front', found⟩, hcut, hpair⟩ := Option.map_eq_some_iff.1 h
      cases hpair
      obtain ⟨back, rfl, hm⟩ := ih hcut
      exact ⟨back, rfl, by rwa [getLast?_cons_or]⟩

/-- The match that a text is cut at is the first one that is found. -/
theorem exists_findAll_of_cutFirst {m : Matcher α} (hm : ∀ before, m before [] = none)
    {cs front rest : List Char} {value : α}
    (h : cutFirst m none cs = some (front, value, rest)) :
    ∃ more, findAll m cs = value :: more := by
  have hpieces : ∀ cs before front, cutFirst m before cs = some (front, value, rest) →
      ∃ more, (piecesFrom m before 0 cs).filterMap Piece.value? = value :: more := by
    intro cs
    induction cs with
    | nil =>
      intro before front h
      rw [cutFirst, hm] at h
      cases h
    | cons c cs ih =>
      intro before front h
      rw [cutFirst] at h
      rw [piecesFrom]
      split at h
      · cases h
        exact ⟨_, rfl⟩
      · obtain ⟨⟨front', found⟩, hcut, hpair⟩ := Option.map_eq_some_iff.1 h
        cases hpair
        exact ih _ _ hcut
  exact hpieces cs none front h

/-! ## Parts -/

theorem eq_or_mem_of_mem_consFirst {d c : Char} {parts : List (List Char)} {part : List Char}
    (hpart : part ∈ consFirst d parts) (hc : c ∈ part) : c = d ∨ ∃ old ∈ parts, c ∈ old := by
  cases parts with
  | nil =>
    obtain rfl := List.mem_singleton.1 hpart
    exact .inl (List.mem_singleton.1 hc)
  | cons first rest =>
    rcases List.mem_cons.1 hpart with rfl | hpart
    · rcases List.mem_cons.1 hc with rfl | hc
      · exact .inl rfl
      · exact .inr ⟨first, List.mem_cons_self, hc⟩
    · exact .inr ⟨part, List.mem_cons_of_mem _ hpart, hc⟩

theorem plain_mem_of_mem_between {ps : List (Piece α)} {part : List Char} {c : Char}
    (hpart : part ∈ between ps) (hc : c ∈ part) : .plain c ∈ ps := by
  induction ps generalizing part with
  | nil =>
    obtain rfl := List.mem_singleton.1 hpart
    cases hc
  | cons p ps ih =>
    cases p with
    | found value =>
      rcases List.mem_cons.1 hpart with rfl | hpart
      · cases hc
      · exact List.mem_cons_of_mem _ (ih hpart hc)
    | plain d =>
      rcases eq_or_mem_of_mem_consFirst hpart hc with rfl | ⟨old, hold, hc⟩
      · exact List.mem_cons_self
      · exact List.mem_cons_of_mem _ (ih hold hc)

/-- A part of a text holds characters of the text only. -/
theorem mem_of_mem_splitOn {separator cs part : List Char} {c : Char}
    (hpart : part ∈ splitOn separator cs) (hc : c ∈ part) : c ∈ cs :=
  mem_of_plain_mem (plain_mem_of_mem_between hpart hc)

theorem mem_of_mem_splitWhere {p : Char → Bool} {cs part : List Char} {c : Char}
    (hpart : part ∈ splitWhere p cs) (hc : c ∈ part) : c ∈ cs := by
  induction cs generalizing part with
  | nil =>
    obtain rfl := List.mem_singleton.1 hpart
    cases hc
  | cons d cs ih =>
    rw [splitWhere] at hpart
    split_ifs at hpart with hd
    · rcases List.mem_cons.1 hpart with rfl | hpart
      · cases hc
      · exact List.mem_cons_of_mem _ (ih hpart hc)
    · rcases eq_or_mem_of_mem_consFirst hpart hc with rfl | ⟨old, hold, hc⟩
      · exact List.mem_cons_self
      · exact List.mem_cons_of_mem _ (ih hold hc)

/-- A line of a text holds characters of the text only. -/
theorem mem_of_mem_lines {cs line : List Char} {c : Char} (hline : line ∈ lines cs)
    (hc : c ∈ line) : c ∈ cs := by
  have hwithout : ∀ l : List Char, c ∈ withoutReturn l → c ∈ l := by
    intro l h
    rw [withoutReturn] at h
    split_ifs at h
    · exact List.mem_of_mem_dropLast h
    · exact h
  rcases List.mem_append.1 hline with hline | hline
  · obtain ⟨part, hpart, rfl⟩ := List.mem_map.1 hline
    exact mem_of_mem_splitWhere (List.mem_of_mem_dropLast hpart) (hwithout part hc)
  · have hlast := (Option.filter_eq_some_iff.1 (Option.mem_toList.1 hline)).1
    exact mem_of_mem_splitWhere (List.mem_of_getLast? hlast) hc

end QueryGate.Text
