import Mathlib.Data.Bool.AllAny
import QueryGate.Proofs.Text.Split

/-!
# What scanning passes over

A scan goes past the beginning of a text if no match starts in it, the rest of the text
being in view (`Misses`). So a text may be passed over part by part (`misses_append`),
and keywords are where they stand as whole words only: a matcher that opens on some
words and marks misses a text that lacks those (`OpensOn.misses`).

* `Misses.piecesFrom_eq`, `Misses.cutFirst_eq`: scanning and cutting behind such a part;
* `piecesFrom_found`: scanning behind a match;
* `wordsOf`, `Lacks`: the words of a text, and a text without some of them.
-/

namespace QueryGate.Text

variable {α : Type} {m : Matcher α} {before : Option Char} {front more rest tail : List Char}

/-! ## Parts without matches -/

/-- No match starts in a text, with another text behind it. -/
def Misses (m : Matcher α) : Option Char → List Char → List Char → Prop
  | _, [], _ => True
  | before, c :: front, tail => m before (c :: front ++ tail) = none ∧ Misses m (some c) front tail

theorem misses_nil : Misses m before [] tail := trivial

theorem misses_append :
    Misses m before (front ++ more) tail ↔
      Misses m before front (more ++ tail) ∧ Misses m (front.getLast?.or before) more tail := by
  induction front generalizing before with
  | nil => exact (and_iff_right misses_nil).symm
  | cons c front ih =>
    rw [List.cons_append, Misses, ih, Misses, getLast?_cons_or, List.cons_append, List.cons_append,
      List.append_assoc, and_assoc]

theorem Misses.piecesFrom_eq (h : Misses m before front tail) :
    piecesFrom m before 0 (front ++ tail) =
      front.map .plain ++ piecesFrom m (front.getLast?.or before) 0 tail := by
  induction front generalizing before with
  | nil => rfl
  | cons c front ih =>
    have hc : m before (c :: (front ++ tail)) = none := h.1
    rw [List.cons_append, piecesFrom, hc, getLast?_cons_or]
    exact congrArg (Piece.plain c :: ·) (ih h.2)

/-- The text that is cut off at the first match begins with a part that holds none. -/
theorem Misses.cutFirst_eq (h : Misses m before front tail) :
    cutFirst m before (front ++ tail) =
      (cutFirst m (front.getLast?.or before) tail).map fun (body, found) =>
        (front ++ body, found) := by
  induction front generalizing before with
  | nil => cases hcut : cutFirst m before tail <;> simp [hcut]
  | cons c front ih =>
    have hc : m before (c :: (front ++ tail)) = none := h.1
    rw [List.cons_append, cutFirst, hc, getLast?_cons_or]
    dsimp only
    rw [ih h.2, Option.map_map]
    rfl

theorem cutFirst_found {value : α} {cs : List Char} (h : m before cs = some (value, rest)) :
    cutFirst m before cs = some ([], value, rest) := by
  cases cs with
  | nil => rw [cutFirst, h]; rfl
  | cons c cs => rw [cutFirst, h]

/-- The first match that a text is cut at is the first. -/
theorem misses_of_cutFirst {back : List Char} {found : α × List Char}
    (h : cutFirst m before (front ++ back) = some (front, found)) : Misses m before front back := by
  induction front generalizing before with
  | nil => exact misses_nil
  | cons c front ih =>
    rw [List.cons_append, cutFirst] at h
    split at h
    · cases h
    · next hm =>
      obtain ⟨⟨front', found'⟩, hcut, hpair⟩ := Option.map_eq_some_iff.1 h
      cases hpair
      exact ⟨hm, ih hcut⟩

theorem piecesFrom_skip (before : Option Char) (front rest : List Char) :
    piecesFrom m before front.length (front ++ rest) =
      piecesFrom m (front.getLast?.or before) 0 rest := by
  induction front generalizing before with
  | nil => rfl
  | cons c front ih =>
    rw [List.length_cons, List.cons_append, piecesFrom, ih, getLast?_cons_or]

/-- A scan goes on behind a match. -/
theorem piecesFrom_found {value : α} (hne : front ≠ [])
    (h : m before (front ++ rest) = some (value, rest)) :
    piecesFrom m before 0 (front ++ rest) = .found value :: piecesFrom m front.getLast? 0 rest := by
  cases front with
  | nil => exact absurd rfl hne
  | cons c front =>
    have hc : m before (c :: (front ++ rest)) = some (value, rest) := h
    have hskip : (front ++ rest).length - rest.length = front.length := by
      rw [List.length_append, Nat.add_sub_cancel]
    rw [List.cons_append, piecesFrom, hc]
    dsimp only
    rw [hskip, piecesFrom_skip, ← getLast?_cons_or c front none, Option.or_none]

/-- The matches in a text, from the position after the character `before`. -/
def matchesFrom (m : Matcher α) (before : Option Char) (cs : List Char) : List α :=
  (piecesFrom m before 0 cs).filterMap Piece.value?

theorem findAll_eq (m : Matcher α) (cs : List Char) : findAll m cs = matchesFrom m none cs := rfl

theorem filterMap_plain (cs : List Char) :
    (cs.map Piece.plain : List (Piece α)).filterMap Piece.value? = [] :=
  List.filterMap_eq_nil_iff.2 fun _ hpiece => by
    obtain ⟨c, -, rfl⟩ := List.mem_map.1 hpiece
    rfl

theorem Misses.matchesFrom_eq (h : Misses m before front tail) :
    matchesFrom m before (front ++ tail) = matchesFrom m (front.getLast?.or before) tail := by
  rw [matchesFrom, h.piecesFrom_eq, List.filterMap_append, filterMap_plain]
  rfl

theorem Misses.matchesFrom_eq_nil (h : Misses m before front []) :
    matchesFrom m before front = [] := by
  have hall := h.matchesFrom_eq
  rwa [List.append_nil] at hall

theorem matchesFrom_found {value : α} (hne : front ≠ [])
    (h : m before (front ++ rest) = some (value, rest)) :
    matchesFrom m before (front ++ rest) = value :: matchesFrom m front.getLast? rest := by
  rw [matchesFrom, piecesFrom_found hne h]
  rfl

theorem exists_matchesFrom {value : α} {cs : List Char} (hne : cs ≠ [])
    (h : m before cs = some (value, rest)) : ∃ more, matchesFrom m before cs = value :: more := by
  cases cs with
  | nil => exact absurd rfl hne
  | cons c cs =>
    rw [matchesFrom, piecesFrom, h]
    exact ⟨_, rfl⟩

/-! ## Words -/

/-- The runs of word characters in a text. An empty one stands between two other characters. -/
def wordsOf (cs : List Char) : List (List Char) := splitWhere (fun c => !isWord c) cs

theorem wordsOf_of_not_isWord {c : Char} (hc : isWord c = false) (cs : List Char) :
    wordsOf (c :: cs) = [] :: wordsOf cs := by
  rw [wordsOf, splitWhere, hc]
  rfl

/-- The first run is what the text begins with. -/
theorem exists_wordsOf (cs : List Char) : ∃ more, wordsOf cs = cs.takeWhile isWord :: more := by
  induction cs with
  | nil => exact ⟨[], rfl⟩
  | cons c cs ih =>
    obtain ⟨more, hmore⟩ := ih
    cases hc : isWord c with
    | false =>
      rw [wordsOf_of_not_isWord hc, List.takeWhile_cons, hc]
      exact ⟨_, rfl⟩
    | true =>
      rw [wordsOf, splitWhere, hc, List.takeWhile_cons, hc]
      rw [wordsOf] at hmore
      exact ⟨more, by rw [hmore]; rfl⟩

theorem tail_wordsOf_of_isWord {c : Char} (hc : isWord c = true) (cs : List Char) :
    (wordsOf (c :: cs)).tail = (wordsOf cs).tail := by
  obtain ⟨more, hmore⟩ := exists_wordsOf cs
  rw [hmore]
  rw [wordsOf] at hmore
  rw [wordsOf, splitWhere, hc, hmore]
  rfl

/-- A character that stands in no word parts the words of a text. -/
theorem wordsOf_append_cons {c : Char} (hc : isWord c = false) (front tail : List Char) :
    wordsOf (front ++ c :: tail) = wordsOf front ++ wordsOf tail := by
  rw [wordsOf, wordsOf, wordsOf, splitWhere_eq_splitOnP, splitWhere_eq_splitOnP,
    splitWhere_eq_splitOnP]
  exact List.splitOnP_append_cons front tail (by rw [hc]; rfl)

/-- The runs of word characters that begin in a text, behind the character before it. -/
def freshWords (before : Option Char) (cs : List Char) : List (List Char) :=
  if wordAt before then (wordsOf cs).tail else wordsOf cs

theorem mem_of_mem_freshWords {word cs : List Char} (h : word ∈ freshWords before cs) :
    word ∈ wordsOf cs := by
  rw [freshWords] at h
  split_ifs at h
  · exact List.mem_of_mem_tail h
  · exact h

theorem freshWords_cons_subset {c : Char} {cs : List Char} :
    freshWords (some c) cs ⊆ freshWords before (c :: cs) := by
  have hwordAt : wordAt (some c) = isWord c := rfl
  intro word hword
  rw [freshWords, hwordAt] at hword
  rw [freshWords]
  cases hc : isWord c with
  | true =>
    rw [hc, if_pos rfl, ← tail_wordsOf_of_isWord hc] at hword
    split_ifs
    · exact hword
    · exact List.mem_of_mem_tail hword
  | false =>
    rw [hc, if_neg Bool.false_ne_true] at hword
    rw [wordsOf_of_not_isWord hc]
    split_ifs
    · exact hword
    · exact List.mem_cons_of_mem _ hword

/-- Whether a text lacks some words, up to case, and some marks. -/
structure Lacks (keywords : List (List Char)) (marks cs : List Char) : Prop where
  words : ∀ word ∈ wordsOf cs, word.map fold ∉ keywords
  marks : ∀ c ∈ cs, c ∉ marks

instance (keywords : List (List Char)) (marks cs : List Char) :
    Decidable (Lacks keywords marks cs) :=
  decidable_of_iff
    ((∀ word ∈ wordsOf cs, word.map fold ∉ keywords) ∧ (cs.all fun c => c ∉ marks) = true)
    ⟨fun ⟨words, marks⟩ => ⟨words, List.all_iff_forall_prop.1 marks⟩,
      fun h => ⟨h.words, List.all_iff_forall_prop.2 h.marks⟩⟩

section Lacks

variable {keywords : List (List Char)} {marks : List Char}

theorem Lacks.append_cons {c : Char} (hfront : Lacks keywords marks front) (hc : isWord c = false)
    (hmark : c ∉ marks) (htail : Lacks keywords marks tail) :
    Lacks keywords marks (front ++ c :: tail) where
  words word hword := by
    rw [wordsOf_append_cons hc, List.mem_append] at hword
    exact hword.elim (hfront.words word) (htail.words word)
  marks d hd := by
    rcases List.mem_append.1 hd with hd | hd
    · exact hfront.marks d hd
    · rcases List.mem_cons.1 hd with rfl | hd
      · exact hmark
      · exact htail.marks d hd

theorem Lacks.cons {c : Char} (hnil : [] ∉ keywords) (hc : isWord c = false) (hmark : c ∉ marks)
    (htail : Lacks keywords marks tail) : Lacks keywords marks (c :: tail) where
  words word hword := by
    rw [wordsOf_of_not_isWord hc] at hword
    rcases List.mem_cons.1 hword with rfl | hword
    · exact hnil
    · exact htail.words word hword
  marks d hd := by
    rcases List.mem_cons.1 hd with rfl | hd
    · exact hmark
    · exact htail.marks d hd

/-- No part of a text folds to one of some words whose first letters no character of it folds to. -/
theorem map_fold_not_mem_of_heads {part cs : List Char}
    (hheads : (keywords.all fun keyword => keyword.head?.any fun k => cs.all fun c => fold c != k) =
      true) (hpart : part ⊆ cs) : part.map fold ∉ keywords := by
  intro hmem
  obtain ⟨k, hk, hall⟩ := (Option.any_eq_true _ _).1 (List.all_eq_true.1 hheads _ hmem)
  rw [List.head?_map, Option.map_eq_some_iff] at hk
  obtain ⟨c, hc, rfl⟩ := hk
  exact bne_iff_ne.1 (List.all_eq_true.1 hall c (hpart (List.mem_of_head? hc))) rfl

/-- Where a matcher recognizes something, there is one of the marks, or a whole word that is one of
    the keywords. -/
def OpensOn (keywords : List (List Char)) (marks : List Char) (m : Matcher α) : Prop :=
  ∀ before c cs found, m before (c :: cs) = some found →
    c ∈ marks ∨ wordAt before = false ∧ isWord c = true ∧
      ((c :: cs).takeWhile isWord).map fold ∈ keywords

/-- The run of characters that a text begins with ends within it if the run does not go on behind
    it. -/
theorem takeWhile_append_of_ends {p : Char → Bool} (hne : front ≠ [])
    (hends : front.getLast?.any p = false ∨ tail.head?.any p = false) :
    (front ++ tail).takeWhile p = front.takeWhile p := by
  induction front with
  | nil => exact absurd rfl hne
  | cons c front ih =>
    rw [List.cons_append, List.takeWhile_cons, List.takeWhile_cons]
    cases hc : p c with
    | false => rfl
    | true =>
      cases front with
      | cons d front =>
        rw [List.getLast?_cons_cons] at hends
        rw [if_pos rfl, if_pos rfl, ih (List.cons_ne_nil d front) hends]
      | nil =>
        have hhead : tail.head?.any p = false :=
          hends.resolve_left fun h => Bool.false_ne_true (h.symm.trans hc)
        cases tail with
        | nil => rfl
        | cons d tail =>
          have hd : p d = false := hhead
          rw [List.nil_append, List.takeWhile_cons, hd]
          rfl

theorem OpensOn.eq_none {c : Char} (h : OpensOn keywords marks m) (hmark : c ∉ marks)
    (hwords : ∀ word ∈ freshWords before (c :: front), word.map fold ∉ keywords)
    (hends : wordAt (c :: front).getLast? = false ∨ wordAt tail.head? = false) :
    m before (c :: front ++ tail) = none := by
  refine Option.eq_none_iff_forall_ne_some.2 fun found hfound => ?_
  rcases h before c _ found hfound with hc | ⟨hbefore, -, hmem⟩
  · exact hmark hc
  · have htake := takeWhile_append_of_ends (List.cons_ne_nil c front) hends
    obtain ⟨more, hmore⟩ := exists_wordsOf (c :: front)
    rw [freshWords, hbefore, if_neg Bool.false_ne_true, hmore] at hwords
    exact hwords _ List.mem_cons_self (htake ▸ hmem)

theorem OpensOn.eq_none_of_not_isWord {c : Char} (h : OpensOn keywords marks m)
    (hmark : c ∉ marks) (hc : isWord c = false) : m before (c :: tail) = none := by
  refine Option.eq_none_iff_forall_ne_some.2 fun found hfound => ?_
  rcases h before c tail found hfound with hmem | ⟨-, hword, -⟩
  · exact hmark hmem
  · rw [hc] at hword
    cases hword

/-- A matcher that opens on some words and marks misses a text that lacks them. -/
theorem OpensOn.misses (h : OpensOn keywords marks m) (hlacks : Lacks keywords marks front)
    (hends : wordAt front.getLast? = false ∨ wordAt tail.head? = false) (before : Option Char) :
    Misses m before front tail := by
  -- behind a word character the run that a text begins with is no whole word
  have hfresh : ∀ word ∈ freshWords before front, word.map fold ∉ keywords := fun word hword =>
    hlacks.words word (mem_of_mem_freshWords hword)
  have hmarks := hlacks.marks
  clear hlacks
  induction front generalizing before with
  | nil => exact misses_nil
  | cons c front ih =>
    refine ⟨h.eq_none (hmarks c List.mem_cons_self) hfresh hends, ?_⟩
    cases front with
    | nil => exact misses_nil
    | cons d front =>
      rw [List.getLast?_cons_cons] at hends
      exact ih hends (some c) (fun word hword => hfresh word (freshWords_cons_subset hword))
        fun e he => hmarks e (List.mem_cons_of_mem _ he)

end Lacks

end QueryGate.Text
