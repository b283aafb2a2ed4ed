import QueryGate.Proofs.Discovery.ListEnds

/-!
# Prose in front of a query

A `SELECT` in prose that holds no `FROM` begins a list all the same, and unless a parenthesis
closes it the list goes on behind the prose, across empty lines and over other `SELECT`s,
up to a `FROM` that ends it there. That list is found in the place of what is passed over
(`paragraphs_read`).

* `fragmentsFrom_paragraph`: which list is found, by induction on the text that is left of the
  prose;
* `exists_lighter`: the lists that are hidden are lighter than the one that hides them, so that
  the lists of a text are never found again in another way.
-/

namespace QueryGate

open Text

namespace SelectList

variable {before before' : Option Char} {c : Char}
  {behind cs cut front list prose rest tail text word : List Char} {depth depth' : ℕ}
  {fragment : Fragment}

/-! ## Scanning -/

theorem wordAt_head?_append (hcs : wordAt cs.head? = false) (htail : wordAt tail.head? = false) :
    wordAt (cs ++ tail).head? = false := by
  cases cs with
  | nil => exact htail
  | cons c cs => exact hcs

theorem IsSelect.append (h : IsSelect before word rest) (htail : wordAt tail.head? = false) :
    IsSelect before word (rest ++ tail) :=
  ⟨h.fold, h.before, wordAt_head?_append h.rest htail⟩

/-- Either a text begins with a `SELECT`, or none is recognized there. -/
theorem select_cases (before : Option Char) (cs : List Char) :
    keyword "SELECT".toList before cs = none ∨
      ∃ word rest, cs = word ++ rest ∧ IsSelect before word rest := by
  cases hkeyword : keyword "SELECT".toList before cs with
  | none => exact .inl rfl
  | some found =>
    obtain ⟨hbefore, hafter⟩ := keyword_eq_some hkeyword
    obtain ⟨word, hcs, hfold, hrest⟩ := afterKeyword_eq_some_iff.1 hafter
    exact .inr ⟨word, found.2, hcs, hfold, hbefore, hrest⟩

/-- The select lists in a text, from the position after the character `before`. -/
def fragmentsFrom (before : Option Char) (cs : List Char) : List Fragment :=
  (matchesFrom selectMatcher before cs).filterMap id

theorem fragmentsFrom_plain (h : keyword "SELECT".toList before (c :: cs) = none) :
    fragmentsFrom before (c :: cs) = fragmentsFrom (some c) cs := by
  have hmatch : selectMatcher before (c :: cs) = none := by
    rw [selectMatcher, h]
    rfl
  rw [fragmentsFrom, matchesFrom, piecesFrom, hmatch]
  rfl

/-- The character before a text does not matter where no word goes on. -/
theorem fragmentsFrom_congr (h : wordAt before = wordAt before' ∨ wordAt cs.head? = false) :
    fragmentsFrom before cs = fragmentsFrom before' cs := by
  cases cs with
  | nil => rfl
  | cons c cs =>
    have hkeyword : keyword "SELECT".toList before (c :: cs) =
        keyword "SELECT".toList before' (c :: cs) := by
      rcases h with h | h
      · rw [keyword, keyword, h]
      · have hopens : OpensOn ["select".toList] [] (keyword "SELECT".toList) :=
          opensOn_keyword (by decide) (by decide) []
        rw [hopens.eq_none_of_not_isWord List.not_mem_nil h,
          hopens.eq_none_of_not_isWord List.not_mem_nil h]
    have hmatch : selectMatcher before (c :: cs) = selectMatcher before' (c :: cs) := by
      rw [selectMatcher, hkeyword, selectMatcher]
    rw [fragmentsFrom, matchesFrom, piecesFrom, hmatch, fragmentsFrom, matchesFrom, piecesFrom]

/-- Behind a `SELECT` without a list the search goes on. -/
theorem IsSelect.fragmentsFrom_none (h : IsSelect before word rest)
    (hlist : fragmentBehind? (some 'T') rest = none) :
    fragmentsFrom before (word ++ rest) = fragmentsFrom word.getLast? rest := by
  rw [fragmentsFrom, matchesFrom_found h.ne_nil (h.selectMatcher_none hlist)]
  rfl

/-- What the name of an object stands behind is a blank. -/
theorem wordAt_of_leadingName (hrest : Name.Stops rest)
    (h : Name.isSegment (leadingName rest) = true) : wordAt rest.head? = false := by
  cases rest with
  | nil => rfl
  | cons c rest =>
    by_cases hblank : isBlank c = true
    · exact not_isWord_of_isBlank hblank
    · -- the name would have to begin with this character
      have hc : Name.isPart c = false := hrest
      rw [leadingName, trimStart, List.dropWhile_cons_of_neg hblank, List.takeWhile_cons, hc] at h
      cases h

theorem exists_of_fragmentBehind? (h : fragmentBehind? before cs = some (fragment, rest)) :
    ∃ list word, cutAtFrom? before 0 cs = some (list, rest) ∧ cs = list ++ (word ++ rest) ∧
      wordAt rest.head? = false ∧ fragment.list = String.ofList (trim list) := by
  obtain ⟨⟨list, rest'⟩, hcut, hfragment⟩ := Option.bind_eq_some_iff.1 h
  dsimp only at hfragment
  split_ifs at hfragment with hsource
  cases hfragment
  obtain ⟨word, hcs, -, hrest⟩ := exists_of_cutAtFrom? hcut
  exact ⟨list, word, hcut, hcs, wordAt_of_leadingName hrest hsource, rfl⟩

/-- Behind a list the search goes on. -/
theorem IsSelect.fragmentsFrom_some (h : IsSelect before word rest)
    (hlist : fragmentBehind? (some 'T') rest = some (fragment, behind)) :
    fragmentsFrom before (word ++ rest) = fragment :: fragments behind := by
  obtain ⟨list, from', -, hrest, hbehind, -⟩ := exists_of_fragmentBehind? hlist
  have htext : word ++ rest = (word ++ (list ++ from')) ++ behind := by simp [hrest]
  have hmatch : selectMatcher before ((word ++ (list ++ from')) ++ behind) =
      some (some fragment, behind) := htext ▸ h.selectMatcher_some hlist
  have hall := matchesFrom_found (List.append_ne_nil_of_left_ne_nil h.ne_nil _) hmatch
  rw [fragmentsFrom, htext, hall, List.filterMap_cons]
  exact congrArg (fragment :: ·) (fragmentsFrom_congr (.inr hbehind))

theorem selectMatcher_opensOn : OpensOn ["select".toList] [] selectMatcher := by
  intro before c cs found hfound
  obtain ⟨found', hkeyword, -⟩ := Option.map_eq_some_iff.1 hfound
  exact opensOn_keyword (by decide) (by decide) [] before c cs found' hkeyword

/-- No list begins within a `FROM`. -/
theorem fragmentsFrom_from (hword : lowered word = "from".toList)
    (hrest : wordAt rest.head? = false) : fragmentsFrom before (word ++ rest) = fragments rest := by
  have hs : ∀ c ∈ word, fold c ≠ 's' := fun c hc => by
    have hall : ("from".toList.all fun d => d != 's') = true := by decide
    rw [WhereClause.fold_eq_toLower (isPart_of_lowered hword c hc)]
    exact bne_iff_ne.1 (List.all_eq_true.1 hall _ (hword ▸ List.mem_map_of_mem hc))
  have hheads : (["select".toList].all fun keyword =>
      keyword.head?.any fun k => word.all fun c => fold c != k) = true := by simpa using hs
  have hlacks : Lacks ["select".toList] [] word :=
    ⟨fun part hpart => map_fold_not_mem_of_heads hheads fun c hc => mem_of_mem_splitWhere hpart hc,
      fun _ _ => List.not_mem_nil⟩
  have hmisses := selectMatcher_opensOn.misses hlacks (.inr hrest) before
  rw [fragmentsFrom, hmisses.matchesFrom_eq]
  exact fragmentsFrom_congr (.inr hrest)

/-! ## Lists that are left open -/

/-- Recognizes a `SELECT`, with the text behind it. -/
def selectWord : Matcher (List Char) := fun before cs =>
  (keyword "SELECT".toList before cs).map fun (_, rest) => (rest, rest)

/-- A text with the number of parentheses that are open at the end of it, if it closes none that it
    does not open. -/
def opened? (list : List Char) : Option (List Char × ℕ) :=
  (depthAfter? 0 list).map fun depth => (list, depth)

/-- What stands behind the `SELECT`s of a text, as far as no parenthesis is closed there that is not
    opened behind the `SELECT`, with the number of those that are open at the end of the text. -/
def openLists (cs : List Char) : List (List Char × ℕ) := (findAll selectWord cs).filterMap opened?

/-- A list that is open at the end of a paragraph goes on in the text behind an empty line: the
    whole list if a `FROM` ends it there, and what follows that. -/
def goesOn? (opened : List Char × ℕ) (text : List Char) : Option (Fragment × List Char) :=
  (cutAtFrom? (some '\n') opened.2 text).bind fun (list, rest) =>
    let source := leadingName rest
    if Name.isSegment source then
      some (⟨String.ofList (trim (opened.1 ++ ("\n\n".toList ++ list))), String.ofList source⟩,
        rest)
    else none

/-- The lists that are left open from a position of a text on. -/
def openListsFrom (before : Option Char) (cs : List Char) : List (List Char × ℕ) :=
  (matchesFrom selectWord before cs).filterMap opened?

theorem openListsFrom_plain (h : keyword "SELECT".toList before (c :: cs) = none) :
    openListsFrom before (c :: cs) = openListsFrom (some c) cs := by
  have hmatch : selectWord before (c :: cs) = none := by
    rw [selectWord, h]
    rfl
  rw [openListsFrom, matchesFrom, piecesFrom, hmatch]
  rfl

theorem IsSelect.openListsFrom_eq (h : IsSelect before word rest) :
    openListsFrom before (word ++ rest) =
      (opened? rest).toList ++ openListsFrom word.getLast? rest := by
  have hmatch : selectWord before (word ++ rest) = some (rest, rest) := by
    rw [selectWord, h.keyword_eq]
    rfl
  rw [openListsFrom, matchesFrom_found h.ne_nil hmatch, List.filterMap_cons]
  cases opened? rest <;> rfl

/-- A list that is begun in a paragraph without `FROM` ends behind it, if it does. -/
theorem fragmentBehind?_paragraph (h : LacksFrom list) (text : List Char) :
    fragmentBehind? (some 'T') (list ++ ("\n\n".toList ++ text)) =
      (opened? list).bind (goesOn? · text) := by
  have hgap : LacksFrom "\n\n".toList := by decide
  have hcut : ∀ before depth, cutAtFrom? before depth ("\n\n".toList ++ text) =
      (cutAtFrom? (some '\n') depth text).map fun (cut, rest) => ("\n\n".toList ++ cut, rest) := by
    intro before depth
    rw [hgap.cutAtFrom?_append (.inl (by decide))]
    rfl
  have hstops : Name.Stops ("\n\n".toList ++ text) := rfl
  rw [fragmentBehind?, h.cutAtFrom?_append (.inr hstops), opened?]
  cases depthAfter? 0 list with
  | none => rfl
  | some depth =>
    rw [Option.bind_some, Option.map_some, Option.bind_some, goesOn?, hcut, Option.map_map]
    cases cutAtFrom? (some '\n') depth text <;> rfl

theorem findSome?_toList {α β : Type} (a : Option α) (f : α → Option β) :
    a.toList.findSome? f = a.bind f := by
  cases a with
  | none => rfl
  | some a => exact List.findSome?_singleton

/-- The first list that a paragraph leaves open and that ends behind it is found, with those behind
    the end of it. -/
theorem fragmentsFrom_paragraph (text : List Char) (h : LacksFrom (front ++ cs))
    (before : Option Char) :
    fragmentsFrom before (cs ++ ("\n\n".toList ++ text)) =
      match (openListsFrom before cs).findSome? (goesOn? · text) with
      | none => fragments text
      | some (fragment, rest) => fragment :: fragments rest := by
  have hgap : wordAt ("\n\n".toList ++ text).head? = false := rfl
  induction hlength : cs.length using Nat.strong_induction_on generalizing front cs before with
  | _ n ih =>
    subst hlength
    cases cs with
    | nil =>
      have hopens := opensOn_keyword (show "SELECT".toList ≠ [] by decide) (by decide) []
      have hfeed : ∀ before cs, keyword "SELECT".toList before ('\n' :: cs) = none := fun _ _ =>
        hopens.eq_none_of_not_isWord List.not_mem_nil (by decide)
      have htext : fragmentsFrom before ("\n\n".toList ++ text) = fragmentsFrom (some '\n') text :=
        (fragmentsFrom_plain (hfeed _ _)).trans (fragmentsFrom_plain (hfeed _ _))
      rw [List.nil_append, htext]
      exact fragmentsFrom_congr (.inl rfl)
    | cons c cs =>
      -- without a `SELECT` here the search goes on with the next character
      rcases select_cases before (c :: cs) with hnone | ⟨word, rest, hcs, hselect⟩
      · have hnone' := keyword_append_eq_none (by decide) (by decide) hnone hgap
        have hlacks : LacksFrom ((front ++ [c]) ++ cs) := by rwa [List.append_assoc]
        rw [List.cons_append, fragmentsFrom_plain hnone', openListsFrom_plain hnone]
        exact ih _ (Nat.lt_succ_self _) hlacks (some c) rfl
      · have hlacks : LacksFrom rest := by
          rw [hcs, ← List.append_assoc] at h
          exact h.of_append (any_isPart_of_wordAt hselect.rest)
        have hlength : rest.length < (c :: cs).length := by
          have hpos := List.length_pos_iff.2 hselect.ne_nil
          rw [hcs, List.length_append]
          omega
        have hlist := fragmentBehind?_paragraph hlacks text
        have hselect' := hselect.append hgap
        rw [hcs, List.append_assoc, hselect.openListsFrom_eq]
        -- the list is open, so that it is found if it ends behind the paragraph
        cases hopened : (opened? rest).bind (goesOn? · text) with
        | none =>
          rw [hopened] at hlist
          have hlacks' : LacksFrom ([] ++ rest) := hlacks
          rw [hselect'.fragmentsFrom_none hlist, ih _ hlength hlacks' _ rfl, List.findSome?_append,
            findSome?_toList, hopened, Option.none_or]
        | some found =>
          rw [hopened] at hlist
          rw [hselect'.fragmentsFrom_some hlist, List.findSome?_append, findSome?_toList, hopened]
          rfl

/-! ## Lists within others -/

/-- How many characters of a text are not blank. -/
def weight (cs : List Char) : ℕ := cs.countP fun c => !isBlank c

theorem weight_append (cs ds : List Char) : weight (cs ++ ds) = weight cs + weight ds :=
  List.countP_append

theorem weight_trim (cs : List Char) : weight (trim cs) = weight cs := by
  have hblank : ∀ {cs : List Char}, AllBlank cs → weight cs = 0 := fun h =>
    List.countP_eq_zero.2 fun c hc => by simp [h c hc]
  obtain ⟨front, back, hfront, hback, -, hcs⟩ := exists_trim cs
  conv_rhs => rw [hcs, weight_append, weight_append, hblank hfront, hblank hback]
  omega

theorem IsSelect.weight_pos (h : IsSelect before word rest) : 0 < weight word := by
  obtain ⟨c, more, hword⟩ := List.exists_cons_of_ne_nil h.ne_nil
  have hc : c ∈ word := hword ▸ List.mem_cons_self
  exact List.countP_pos_iff.2 ⟨c, hc, by rw [not_isBlank_of_map_fold h.fold (by decide) c hc]; rfl⟩

/-- The word `SELECT` is part of each list that is looked for from there on. -/
theorem IsSelect.passedOver (h : IsSelect before word rest) (depth : ℕ) :
    cutAtFrom? before depth (word ++ rest) =
      (cutAtFrom? word.getLast? depth rest).map fun (list, behind) => (word ++ list, behind) := by
  have hlacks : LacksFrom word := lacksFrom_of_forall_ne fun c hc hpart => by
    have hall : ("select".toList.all fun d => d != 'f') = true := by decide
    rw [← WhereClause.fold_eq_toLower hpart]
    exact bne_iff_ne.1 (List.all_eq_true.1 hall _ (h.fold ▸ List.mem_map_of_mem hc))
  have hlast : word.getLast?.or before = word.getLast? :=
    Option.or_of_isSome (List.getLast?_isSome.2 h.ne_nil)
  rw [hlacks.cutAtFrom?_append (.inr (any_isPart_of_wordAt h.rest)),
    (isFlat_of_map_fold h.fold (by decide)).depthAfter?_eq, Option.bind_some, hlast]

/-- A list that begins with fewer parentheses open ends with a longer one, or else the longer one
    goes on behind it. -/
theorem cutAtFrom?_shallow {shallow : ℕ} (hle : shallow ≤ depth)
    (hlist : cutAtFrom? before shallow cs = some (list, behind))
    (hcut : cutAtFrom? before depth cs = some (cut, rest)) :
    list = cut ∧ behind = rest ∨ ∃ word cut' depth',
      cut = list ++ (word ++ cut') ∧
        cutAtFrom? word.getLast? depth' behind = some (cut', rest) := by
  induction cs generalizing before shallow depth list cut with
  | nil => cases hlist
  | cons c cs ih =>
    rcases cutAtFrom?_cases hlist with
      ⟨rfl, hfrom, rfl⟩ | ⟨hnone, shallow', list', hshallow, hlist', rfl⟩
    · rcases cutAtFrom?_cases hcut with ⟨rfl, hfrom', rfl⟩ | ⟨hnone, -⟩
      · exact .inl ⟨rfl, Option.some.inj (hfrom.symm.trans hfrom')⟩
      · -- the longer list goes on over this `FROM`, as it is within parentheses there
        obtain ⟨depth, rfl⟩ : ∃ outer, depth = outer + 1 := Nat.exists_eq_succ_of_ne_zero
          fun hzero => Option.some_ne_none _ (hfrom.symm.trans (hnone hzero))
        obtain ⟨-, word, hcs, hword, -⟩ := exists_of_afterFrom? hfrom
        have hlast : word.getLast?.or before = word.getLast? :=
          Option.or_of_isSome (List.getLast?_isSome.2 (ne_nil_of_lowered hword))
        rw [hcs, cutAtFrom?_nested ((isFlat_of_lowered hword).depthAfter?_eq depth), hlast] at hcut
        obtain ⟨found, hfound, hpair⟩ := Option.map_eq_some_iff.1 hcut
        cases hpair
        exact .inr ⟨word, found.1, depth + 1, rfl, hfound⟩
    · rcases cutAtFrom?_cases hcut with ⟨hzero, hfrom, -⟩ | ⟨-, depth', cut', hdepth, hcut', rfl⟩
      · rw [hnone (by omega)] at hfrom
        cases hfrom
      -- neither list ends here, and the counts stay as far apart as they are
      · have hle' : shallow' ≤ depth' := by
          have hsum := depthAfter?_add hshallow (depth - shallow)
          rw [Nat.add_sub_of_le hle, hdepth] at hsum
          have := Option.some.inj hsum
          omega
        rcases ih hle' hlist' hcut' with ⟨rfl, rfl⟩ | ⟨word, cut'', depth'', rfl, hrest⟩
        · exact .inl ⟨rfl, rfl⟩
        · exact .inr ⟨word, cut'', depth'', rfl, hrest⟩

/-- A list that is found within a longer one is as heavy as this one and ends with it, or else it
    leaves some of it, where the search goes on. -/
theorem fragmentBehind?_shallow {before' : Option Char} (hhead : wordAt cs.head? = false)
    (hlist : fragmentBehind? before' cs = some (fragment, behind))
    (hcut : cutAtFrom? before depth cs = some (cut, rest)) :
    weight fragment.list.toList = weight cut ∧ behind = rest ∨ ∃ last cut' depth',
      cutAtFrom? last depth' behind = some (cut', rest) ∧
        fragments behind = fragmentsFrom last behind ∧ behind.length ≤ cs.length ∧
          weight fragment.list.toList + weight cut' ≤ weight cut := by
  obtain ⟨list, from', hfound, hcs, hbehind, hfragment⟩ := exists_of_fragmentBehind? hlist
  have hweight : weight fragment.list.toList = weight list := by
    rw [hfragment, String.toList_ofList, weight_trim]
  have hlength : behind.length ≤ cs.length := by
    rw [hcs, List.length_append, List.length_append]
    omega
  rw [cutAtFrom?_congr (any_isPart_of_wordAt hhead) _ before] at hfound
  rcases cutAtFrom?_shallow (Nat.zero_le depth) hfound hcut with
    ⟨rfl, rfl⟩ | ⟨word, cut', depth', rfl, hcut'⟩
  · exact .inl ⟨hweight, rfl⟩
  · refine .inr ⟨word.getLast?, cut', depth', hcut', fragmentsFrom_congr (.inr hbehind), hlength, ?_⟩
    rw [weight_append, weight_append]
    omega

/-- The lists that begin within a longer one are lighter, and behind it the others follow. -/
theorem exists_lighter (h : cutAtFrom? before depth cs = some (cut, rest))
    (hrest : wordAt rest.head? = false) :
    ∃ inner, fragmentsFrom before cs = inner ++ fragments rest ∧
      ∀ fragment ∈ inner, weight fragment.list.toList < weight cut := by
  induction hlength : cs.length using Nat.strong_induction_on generalizing before depth cs cut with
  | _ n ih =>
    subst hlength
    cases cs with
    | nil => cases h
    | cons c cs =>
      -- a `SELECT` makes the longer list heavier than all that is found behind it
      rcases select_cases before (c :: cs) with hnone | ⟨word, behind, hcs, hselect⟩
      · rcases cutAtFrom?_cases h with ⟨-, hfrom, rfl⟩ | ⟨-, depth', cut', -, hcut, rfl⟩
        · obtain ⟨-, word, hcs, hword, -⟩ := exists_of_afterFrom? hfrom
          refine ⟨[], ?_, fun _ hmem => absurd hmem List.not_mem_nil⟩
          rw [hcs, fragmentsFrom_from hword hrest, List.nil_append]
        · obtain ⟨inner, hinner, hlighter⟩ := ih _ (Nat.lt_succ_self _) hcut rfl
          refine ⟨inner, (fragmentsFrom_plain hnone).trans hinner, fun fragment hmem => ?_⟩
          have hweight := weight_append [c] cut'
          rw [List.singleton_append] at hweight
          exact (hlighter fragment hmem).trans_le (by omega)
      · have hlength : behind.length < (c :: cs).length := by
          have hpos := List.length_pos_iff.2 hselect.ne_nil
          rw [hcs, List.length_append]
          omega
        rw [hcs, hselect.passedOver] at h
        obtain ⟨⟨cut', rest'⟩, hcut, hpair⟩ := Option.map_eq_some_iff.1 h
        cases hpair
        have hpos := hselect.weight_pos
        rw [hcs, weight_append]
        cases hlist : fragmentBehind? (some 'T') behind with
        | none =>
          obtain ⟨inner, hinner, hlighter⟩ := ih _ hlength hcut rfl
          exact ⟨inner, (hselect.fragmentsFrom_none hlist).trans hinner, fun fragment hmem =>
            Nat.lt_add_left _ (hlighter fragment hmem)⟩
        | some found =>
          obtain ⟨fragment, after⟩ := found
          rw [hselect.fragmentsFrom_some hlist]
          -- the list that is found may end with the longer one, or leave some of it
          rcases fragmentBehind?_shallow hselect.rest hlist hcut with
            ⟨hweight, rfl⟩ | ⟨last, cut'', depth'', hcut'', hcongr, hle, hweight⟩
          · refine ⟨[fragment], rfl, List.forall_mem_singleton.2 ?_⟩
            omega
          · obtain ⟨inner, hinner, hlighter⟩ := ih _ (hle.trans_lt hlength) hcut'' rfl
            refine ⟨fragment :: inner, by rw [hcongr, hinner]; rfl,
              List.forall_mem_cons.2 ⟨by omega, fun other hother => ?_⟩⟩
            have hother := hlighter other hother
            omega

/-- A paragraph without `FROM` adds no list of its own. The first list that it leaves open and that
    goes on to a `FROM` behind it is found, and then those behind this `FROM`; if there is none,
    the lists are those of the text behind the paragraph, and otherwise they are others. -/
theorem paragraphs_read (hprose : LacksFrom prose) (text : List Char) :
    (fragments (prose ++ ("\n\n".toList ++ text)) =
      match (openLists prose).findSome? (goesOn? · text) with
      | none => fragments text
      | some (fragment, rest) => fragment :: fragments rest) ∧
    (fragments (prose ++ ("\n\n".toList ++ text)) = fragments text ↔
      ∀ opened ∈ openLists prose, goesOn? opened text = none) := by
  have hprose' : LacksFrom ([] ++ prose) := hprose
  have hread : fragments (prose ++ ("\n\n".toList ++ text)) =
      match (openLists prose).findSome? (goesOn? · text) with
      | none => fragments text
      | some (fragment, rest) => fragment :: fragments rest :=
    fragmentsFrom_paragraph text hprose' none
  refine ⟨hread, fun hsame => ?_, fun hnone => ?_⟩
  · refine List.findSome?_eq_none_iff.1 ?_
    cases hfirst : (openLists prose).findSome? (goesOn? · text) with
    | none => rfl
    | some found =>
      -- the list that goes on is heavier than each one that it hides
      obtain ⟨opened, -, hgoes⟩ := List.exists_of_findSome?_eq_some hfirst
      obtain ⟨⟨cut, rest⟩, hcut, hfound⟩ := Option.bind_eq_some_iff.1 hgoes
      dsimp only at hfound
      split_ifs at hfound with hsource
      cases hfound
      obtain ⟨word, -, -, hstops⟩ := exists_of_cutAtFrom? hcut
      obtain ⟨inner, hinner, hlighter⟩ := exists_lighter hcut (wordAt_of_leadingName hstops hsource)
      have hfeed : fragments text = fragmentsFrom (some '\n') text := fragmentsFrom_congr (.inl rfl)
      have htext : fragments text = inner ++ fragments rest := hfeed.trans hinner
      rw [hread, hfirst, htext] at hsame
      have hone : [_] = inner := List.append_cancel_right hsame
      have hlight := hlighter _ (hone ▸ List.mem_singleton_self _)
      rw [String.toList_ofList, weight_trim, weight_append, weight_append] at hlight
      omega
  · rw [hread, List.findSome?_eq_none_iff.2 hnone]

/-- Prose in front of a query with a `SELECT` that a parenthesis closes, and with one that is left
    open: to this one the list of the query is lost. -/
theorem columnsProse_read :
    (LacksFrom "(select them below)".toList ∧
      fragments ("(select them below)".toList ++
        ("\n\n".toList ++ "SELECT Id, Name FROM Account".toList)) = [⟨"Id, Name", "Account"⟩]) ∧
    LacksFrom "select the best columns".toList ∧
      fragments ("select the best columns".toList ++
        ("\n\n".toList ++ "SELECT Id, Name FROM Account".toList)) =
          [⟨"the best columns\n\nSELECT Id, Name", "Account"⟩] := by
  have hclosed : LacksFrom "(select them below)".toList := by decide
  have hopen : LacksFrom "select the best columns".toList := by decide
  refine ⟨⟨hclosed, ?_⟩, hopen, ?_⟩
  · refine ((paragraphs_read hclosed _).2.2 ?_).trans (by decide +kernel)
    decide +kernel
  · exact (paragraphs_read hopen _).1.trans (by decide +kernel)

/-- The query on its own has other fields than with the prose in front of it. -/
theorem columnsProse_disturbs :
    (fragments "SELECT Id, Name FROM Account".toList).map Fragment.fields = [["Id", "Name"]] ∧
    (fragments ("select the best columns".toList ++
      ("\n\n".toList ++ "SELECT Id, Name FROM Account".toList))).map Fragment.fields =
        [["the", "Name"]] := by
  decide +kernel

end SelectList

end QueryGate
