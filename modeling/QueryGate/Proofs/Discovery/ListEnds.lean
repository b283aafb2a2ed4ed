import QueryGate.Proofs.Discovery.SelectItems
import QueryGate.Proofs.Discovery.Sources

/-!
# Where select lists end

A select list ends at the first `FROM` outside of parentheses. The search for it goes past
a text without that word, and past one in parentheses with whatever words, so that of the
text before the `FROM` nothing else matters (`exists_fragments`).

* `LacksFrom`, `LacksFrom.cutAtFrom?_append`: a text without the word, whatever parentheses it has;
* `PassedOver`: a text that is part of each list it begins;
* `cutAtFrom?_cases`: a step of the search, for inductions on a list that is found.
-/

namespace QueryGate

open Text

namespace SelectList

variable {before : Option Char} {c : Char} {depth depth' : ℕ} {fragment : Fragment}
  {behind cs front list object post rest tail word : List Char}

/-! ## The word -/

/-- The small letters. -/
def smalls : List Char := "abcdefghijklmnopqrstuvwxyz".toList

theorem toUpper_eq_or_mem (c : Char) : c.toUpper = c ∨ c ∈ smalls := by
  by_cases h : c.val ≥ 'a'.val ∧ c.val ≤ 'z'.val
  · right
    have hlow : 97 ≤ c.toNat := UInt32.le_iff_toNat_le.1 h.1
    have hhigh : c.toNat ≤ 122 := UInt32.le_iff_toNat_le.1 h.2
    have hall : ∀ n ∈ List.range' 97 26, Char.ofNat n ∈ smalls := by decide
    have hc := hall c.toNat (List.mem_range'_1.2 ⟨hlow, by omega⟩)
    rwa [Char.ofNat_toNat] at hc
  · exact .inl (dif_neg h)

theorem toLower_toUpper (c : Char) : c.toUpper.toLower = c.toLower := by
  rcases toUpper_eq_or_mem c with h | h
  · rw [h]
  · have hall : smalls.all fun c => c.toUpper.toLower == c.toLower := by decide
    exact beq_iff_eq.1 (List.all_eq_true.1 hall c h)

theorem toUpper_toLower (c : Char) : c.toLower.toUpper = c.toUpper := by
  rcases Name.toLower_eq_or_mem c with h | h
  · rw [h]
  · have hall : Name.capitals.all fun c => c.toLower.toUpper == c.toUpper := by decide
    exact beq_iff_eq.1 (List.all_eq_true.1 hall c h)

/-- The runs of characters of names in a text. An empty one stands between two other characters. -/
def runs (cs : List Char) : List (List Char) := splitWhere (fun c => !Name.isPart c) cs

theorem runs_append_cons (front cs : List Char) (hc : Name.isPart c = false) :
    runs (front ++ c :: cs) = runs front ++ runs cs := by
  have hsplit : (!Name.isPart c) = true := by rw [hc]; rfl
  rw [runs, runs, runs, splitWhere_eq_splitOnP, splitWhere_eq_splitOnP, splitWhere_eq_splitOnP,
    List.splitOnP_append_cons front cs hsplit]

/-- What stands in no word stands in no name. -/
theorem any_isPart_of_wordAt {c : Option Char} (h : wordAt c = false) :
    c.any Name.isPart = false := by
  cases c with
  | none => rfl
  | some c => exact Bool.eq_false_iff.2 fun hc =>
      Bool.false_ne_true (h.symm.trans (Name.isWord_of_isPart hc))

/-- The word `FROM` does not occur in a text, in whatever case. -/
def LacksFrom (cs : List Char) : Prop := ∀ run ∈ runs cs, lowered run ≠ "from".toList

instance (cs : List Char) : Decidable (LacksFrom cs) :=
  inferInstanceAs (Decidable (∀ run ∈ runs cs, lowered run ≠ "from".toList))

/-- The first run is what the text begins with. -/
theorem exists_runs (cs : List Char) : ∃ more, runs cs = cs.takeWhile Name.isPart :: more := by
  induction cs with
  | nil => exact ⟨[], rfl⟩
  | cons c cs ih =>
    obtain ⟨more, hmore⟩ := ih
    rw [runs] at hmore
    rw [runs, splitWhere, List.takeWhile_cons, hmore]
    cases Name.isPart c <;> exact ⟨_, rfl⟩

/-- The word does not begin in a text that lacks it. -/
theorem LacksFrom.takeWhile_ne (h : LacksFrom (front ++ cs))
    (hfront : front.getLast?.any Name.isPart = false) :
    lowered (cs.takeWhile Name.isPart) ≠ "from".toList := by
  obtain ⟨more, hmore⟩ := exists_runs cs
  have hmem : cs.takeWhile Name.isPart ∈ runs cs := hmore ▸ List.mem_cons_self
  rcases List.eq_nil_or_concat' front with rfl | ⟨front, c, rfl⟩
  · exact h _ hmem
  · rw [List.getLast?_concat] at hfront
    refine h _ ?_
    rw [List.append_assoc, List.singleton_append, runs_append_cons front cs hfront]
    exact List.mem_append_right _ hmem

theorem LacksFrom.of_append (h : LacksFrom (front ++ rest)) (hrest : Name.Stops rest) :
    LacksFrom rest := by
  cases rest with
  | nil => decide
  | cons c rest =>
    have hempty : LacksFrom [] := by decide
    intro run hrun
    rcases List.mem_append.1 (runs_append_cons [] rest hrest ▸ hrun) with hrun | hrun
    · exact hempty run hrun
    · exact h run (runs_append_cons front rest hrest ▸ List.mem_append_right _ hrun)

/-- A text without the first letter of the word lacks it. -/
theorem lacksFrom_of_forall_ne (h : ∀ c ∈ cs, Name.isPart c = true → c.toLower ≠ 'f') :
    LacksFrom cs := by
  intro run hrun hfrom
  cases run with
  | nil => exact absurd hfrom (by decide)
  | cons c run =>
    have hf : c.toLower = 'f' := (List.cons.inj hfrom).1
    have hpart : Name.isPart c = true := by
      rw [← Name.isPart_toLower, hf]
      decide
    exact h c (mem_of_mem_splitWhere hrun List.mem_cons_self) hpart hf

/-- The letters of the word are recognized in whatever case. -/
theorem exists_of_afterUpper
    (h : afterBy (fun w c => w == c.toUpper) "FROM".toList cs = some rest) :
    ∃ word, cs = word ++ rest ∧ lowered word = "from".toList := by
  obtain ⟨word, rfl, hword⟩ := exists_of_afterBy h
  have hupper : word.map Char.toUpper = "FROM".toList := by
    clear h
    generalize "FROM".toList = capitals at hword
    induction hword with
    | nil => rfl
    | cons hsame _ ih => rw [List.map_cons, ih, beq_iff_eq.1 hsame]
  refine ⟨word, rfl, ?_⟩
  calc lowered word = (word.map Char.toUpper).map Char.toLower := by
        rw [List.map_map]
        exact List.map_congr_left fun c _ => (toLower_toUpper c).symm
    _ = "from".toList := by rw [hupper]; decide

theorem afterUpper_append (h : lowered word = "from".toList) (rest : List Char) :
    afterBy (fun w c => w == c.toUpper) "FROM".toList (word ++ rest) = some rest := by
  have hupper : word.map Char.toUpper = "FROM".toList :=
    calc word.map Char.toUpper = (lowered word).map Char.toUpper := by
          rw [lowered, List.map_map]
          exact List.map_congr_left fun c _ => (toUpper_toLower c).symm
      _ = "FROM".toList := by rw [h]; decide
  clear h
  generalize "FROM".toList = capitals at hupper
  subst hupper
  induction word with
  | nil => rfl
  | cons c word ih =>
    rw [List.map_cons, List.cons_append, afterBy, beq_self_eq_true, if_pos rfl, ih]

/-- What is recognized as the word is a whole run, in whatever case. -/
theorem exists_of_afterFrom? (h : afterFrom? before cs = some rest) :
    before.any Name.isPart = false ∧
      ∃ word, cs = word ++ rest ∧ lowered word = "from".toList ∧ Name.Stops rest := by
  rw [afterFrom?] at h
  split_ifs at h with hbefore
  split at h
  · next hafter =>
    split_ifs at h with hrest
    obtain rfl := Option.some.inj h
    obtain ⟨word, hcs, hword⟩ := exists_of_afterUpper hafter
    exact ⟨Bool.eq_false_iff.2 hbefore, word, hcs, hword, Bool.eq_false_iff.2 hrest⟩
  · cases h

theorem isPart_of_lowered (h : lowered word = "from".toList) :
    ∀ c ∈ word, Name.isPart c = true := by
  intro c hc
  have hall : "from".toList.all Name.isPart = true := by decide
  rw [← Name.isPart_toLower]
  exact List.all_eq_true.1 hall _ (h ▸ List.mem_map_of_mem hc)

theorem isFlat_of_lowered (h : lowered word = "from".toList) : IsFlat word := by
  intro c hc
  have hpart := isPart_of_lowered h c hc
  constructor <;>
  · rintro rfl
    exact absurd hpart (by decide)

theorem ne_nil_of_lowered (h : lowered word = "from".toList) : word ≠ [] := by
  rintro rfl
  exact absurd h (by decide)

theorem afterFrom?_eq_none (hc : Name.isPart c = false) : afterFrom? before (c :: cs) = none := by
  refine Option.eq_none_iff_forall_ne_some.2 fun rest hfound => ?_
  obtain ⟨-, word, hcs, hword, -⟩ := exists_of_afterFrom? hfound
  obtain ⟨d, word, rfl⟩ := List.exists_cons_of_ne_nil (ne_nil_of_lowered hword)
  obtain rfl := (List.cons.inj hcs).1
  exact Bool.false_ne_true (hc.symm.trans (isPart_of_lowered hword c List.mem_cons_self))

/-- No `FROM` is recognized where the word does not begin. -/
theorem LacksFrom.afterFrom?_eq_none (h : LacksFrom (front ++ c :: cs))
    (hends : (c :: cs).getLast?.any Name.isPart = false ∨ Name.Stops tail) (before : Option Char) :
    afterFrom? (front.getLast?.or before) (c :: (cs ++ tail)) = none := by
  refine Option.eq_none_iff_forall_ne_some.2 fun rest hfound => ?_
  obtain ⟨hbefore, word, hcs, hword, hrest⟩ := exists_of_afterFrom? hfound
  have hfront : front.getLast?.any Name.isPart = false := by
    cases hlast : front.getLast? with
    | none => rfl
    | some d => rwa [hlast] at hbefore
  have hrun : (c :: cs).takeWhile Name.isPart = word :=
    calc (c :: cs).takeWhile Name.isPart
        = (c :: cs ++ tail).takeWhile Name.isPart :=
          (takeWhile_append_of_ends (List.cons_ne_nil c cs) hends).symm
      _ = (word ++ rest).takeWhile Name.isPart := congrArg _ hcs
      _ = word := by
          rw [takeWhile_append_of_ends (ne_nil_of_lowered hword) (.inr hrest),
            List.takeWhile_eq_self_iff.2 (isPart_of_lowered hword)]
  exact h.takeWhile_ne hfront (hrun ▸ hword)

/-! ## The search -/

/-- In the search for the end of a list, nothing matters of a text without `FROM` but its
    parentheses. What has been passed of the text already is kept in view, as the word may have
    begun in it. -/
theorem LacksFrom.cutAtFrom?_behind (h : LacksFrom (front ++ cs))
    (hends : cs.getLast?.any Name.isPart = false ∨ Name.Stops tail) (before : Option Char)
    (depth : ℕ) :
    cutAtFrom? (front.getLast?.or before) depth (cs ++ tail) =
      (depthAfter? depth cs).bind fun depth' =>
        (cutAtFrom? (cs.getLast?.or (front.getLast?.or before)) depth' tail).map
          fun (list, rest) => (cs ++ list, rest) := by
  induction cs generalizing front depth with
  | nil =>
    rw [List.nil_append, depthAfter?, Option.bind_some]
    exact Option.map_id'.symm
  | cons c cs ih =>
    have hends' : cs.getLast?.any Name.isPart = false ∨ Name.Stops tail := by
      cases cs with
      | nil => exact .inl rfl
      | cons d cs => rwa [List.getLast?_cons_cons] at hends
    have hpassed : LacksFrom ((front ++ [c]) ++ cs) := by rwa [List.append_assoc]
    -- what a character that ends no list leaves to the rest of the text, at any depth
    have hgoOn : ∀ depth, (cutAtFrom? (some c) depth (cs ++ tail)).map
          (fun (list, rest) => (c :: list, rest)) =
        (depthAfter? depth cs).bind fun depth' =>
          (cutAtFrom? ((c :: cs).getLast?.or (front.getLast?.or before)) depth' tail).map
            fun (list, rest) => (c :: cs ++ list, rest) := by
      intro depth
      have hstep := ih hpassed hends' depth
      rw [List.getLast?_concat, Option.some_or] at hstep
      rw [hstep, Option.map_bind, getLast?_cons_or]
      congr 1
      funext depth'
      rw [Function.comp_apply, Option.map_map]
      rfl
    rw [List.cons_append, cutAtFrom?, depthAfter?]
    dsimp only
    split_ifs
    · exact hgoOn _
    · rfl
    · exact hgoOn _
    · rw [h.afterFrom?_eq_none hends]
      exact hgoOn _
    · exact hgoOn _

theorem LacksFrom.cutAtFrom?_append (h : LacksFrom cs)
    (hends : cs.getLast?.any Name.isPart = false ∨ Name.Stops tail) (before : Option Char)
    (depth : ℕ) :
    cutAtFrom? before depth (cs ++ tail) = (depthAfter? depth cs).bind fun depth' =>
      (cutAtFrom? (cs.getLast?.or before) depth' tail).map fun (list, rest) =>
        (cs ++ list, rest) := by
  have hpassed : LacksFrom ([] ++ cs) := h
  exact hpassed.cutAtFrom?_behind hends before depth

/-- The character before a text does not matter where no name goes on. -/
theorem cutAtFrom?_congr (h : Name.Stops cs) (before before' : Option Char) (depth : ℕ) :
    cutAtFrom? before depth cs = cutAtFrom? before' depth cs := by
  cases cs with
  | nil => rfl
  | cons c cs =>
    have hc : Name.isPart c = false := h
    rw [cutAtFrom?, cutAtFrom?, afterFrom?_eq_none hc, afterFrom?_eq_none hc]

/-- No list ends within parentheses. -/
theorem cutAtFrom?_nested (h : depthAfter? depth cs = some depth') (before : Option Char)
    (tail : List Char) :
    cutAtFrom? before (depth + 1) (cs ++ tail) =
      (cutAtFrom? (cs.getLast?.or before) (depth' + 1) tail).map fun (list, rest) =>
        (cs ++ list, rest) := by
  induction cs generalizing before depth with
  | nil =>
    obtain rfl := Option.some.inj h
    exact Option.map_id'.symm
  | cons c cs ih =>
    have hgoOn : ∀ depth, depthAfter? depth cs = some depth' →
        (cutAtFrom? (some c) (depth + 1) (cs ++ tail)).map (fun (list, rest) => (c :: list, rest)) =
          (cutAtFrom? ((c :: cs).getLast?.or before) (depth' + 1) tail).map
            fun (list, rest) => (c :: cs ++ list, rest) := by
      intro depth h
      rw [ih h, getLast?_cons_or, Option.map_map]
      rfl
    rw [depthAfter?] at h
    rw [List.cons_append, cutAtFrom?]
    dsimp only
    split_ifs at h with hopen hclose hzero
    · rw [if_pos hopen]
      exact hgoOn _ h
    · rw [if_neg hopen, if_pos hclose, if_neg (Nat.succ_ne_zero depth), Nat.add_sub_cancel]
      have hdepth := hgoOn _ h
      rwa [Nat.sub_add_cancel (Nat.one_le_iff_ne_zero.2 hzero)] at hdepth
    · rw [if_neg hopen, if_neg hclose, if_neg (Nat.succ_ne_zero depth)]
      exact hgoOn _ h

/-- The search ends at a character of a text, outside of parentheses, or goes on behind it. -/
theorem cutAtFrom?_cases (h : cutAtFrom? before depth (c :: cs) = some (list, rest)) :
    depth = 0 ∧ afterFrom? before (c :: cs) = some rest ∧ list = [] ∨
      (depth = 0 → afterFrom? before (c :: cs) = none) ∧
        ∃ depth' list', depthAfter? depth [c] = some depth' ∧
          cutAtFrom? (some c) depth' cs = some (list', rest) ∧ list = c :: list' := by
  have hgoOn : ∀ depth', (cutAtFrom? (some c) depth' cs).map
        (fun (list, rest) => (c :: list, rest)) = some (list, rest) →
      ∃ list', cutAtFrom? (some c) depth' cs = some (list', rest) ∧ list = c :: list' := by
    intro depth' h
    obtain ⟨found, hfound, hpair⟩ := Option.map_eq_some_iff.1 h
    cases hpair
    exact ⟨found.1, hfound, rfl⟩
  rw [cutAtFrom?] at h
  dsimp only at h
  split_ifs at h with hopen hclose hzero hdepth
  · obtain ⟨list', hlist⟩ := hgoOn _ h
    subst hopen
    exact .inr ⟨fun _ => afterFrom?_eq_none (by decide), depth + 1, list', rfl, hlist⟩
  · obtain ⟨list', hlist⟩ := hgoOn _ h
    subst hclose
    exact .inr ⟨fun _ => afterFrom?_eq_none (by decide), depth - 1, list',
      by simp [depthAfter?, hzero], hlist⟩
  · cases hfrom : afterFrom? before (c :: cs) with
    | none =>
      rw [hfrom] at h
      obtain ⟨list', hlist⟩ := hgoOn _ h
      exact .inr ⟨fun _ => rfl, depth, list', by simp [depthAfter?, hopen, hclose], hlist⟩
    | some rest' =>
      rw [hfrom] at h
      cases h
      exact .inl ⟨hdepth, rfl, rfl⟩
  · obtain ⟨list', hlist⟩ := hgoOn _ h
    exact .inr ⟨fun hzero => absurd hzero hdepth, depth, list',
      by simp [depthAfter?, hopen, hclose], hlist⟩

/-- A list is what stands before a `FROM`. -/
theorem exists_of_cutAtFrom? (h : cutAtFrom? before depth cs = some (list, rest)) :
    ∃ word, cs = list ++ (word ++ rest) ∧ lowered word = "from".toList ∧ Name.Stops rest := by
  induction cs generalizing before depth list with
  | nil => cases h
  | cons c cs ih =>
    rcases cutAtFrom?_cases h with ⟨-, hfrom, rfl⟩ | ⟨-, depth', list', -, hcut, rfl⟩
    · obtain ⟨-, word, hcs, hword, hrest⟩ := exists_of_afterFrom? hfrom
      exact ⟨word, hcs, hword, hrest⟩
    · obtain ⟨word, rfl, hword, hrest⟩ := ih hcut
      exact ⟨word, rfl, hword, hrest⟩

/-! ## Texts that are passed over -/

/-- A text that is part of each list it begins, with no parenthesis open behind it. -/
def PassedOver (cs : List Char) : Prop :=
  ∀ before tail, (cs.getLast?.any Name.isPart = false ∨ Name.Stops tail) →
    cutAtFrom? before 0 (cs ++ tail) =
      (cutAtFrom? (cs.getLast?.or before) 0 tail).map fun (list, rest) => (cs ++ list, rest)

theorem LacksFrom.passedOver (h : LacksFrom cs) (hflat : IsFlat cs) : PassedOver cs := by
  intro before tail hends
  rw [h.cutAtFrom?_append hends, hflat.depthAfter?_eq, Option.bind_some]

theorem passedOver_group (h : IsBalanced cs) : PassedOver (group cs) := by
  intro before tail _
  have hopen : cutAtFrom? before 0 (group cs ++ tail) =
      (cutAtFrom? (some '(') (0 + 1) (cs ++ ')' :: tail)).map fun (list, rest) =>
        ('(' :: list, rest) := by
    rw [group, List.cons_append, List.append_assoc]
    rfl
  have hclose : ∀ before, cutAtFrom? before (0 + 1) (')' :: tail) =
      (cutAtFrom? (some ')') 0 tail).map fun (list, rest) => (')' :: list, rest) := fun _ => rfl
  have hlast : (group cs).getLast? = some ')' := getLast?_group [] cs
  rw [hopen, cutAtFrom?_nested h, hclose, hlast, Option.map_map, Option.map_map, Option.some_or]
  congr 1
  funext found
  simp [group]

theorem PassedOver.append (hfront : PassedOver front) (hcs : PassedOver cs)
    (hends : front.getLast?.any Name.isPart = false ∨ Name.Stops cs) :
    PassedOver (front ++ cs) := by
  intro before tail htail
  cases cs with
  | nil =>
    rw [List.append_nil] at htail ⊢
    exact hfront before tail htail
  | cons c cs =>
    have hlast : (front ++ c :: cs).getLast? = (c :: cs).getLast? :=
      List.getLast?_append_of_ne_nil front (List.cons_ne_nil c cs)
    rw [hlast] at htail ⊢
    rw [List.append_assoc, hfront before (c :: cs ++ tail) hends, hcs _ tail htail, Option.map_map,
      ← Option.or_assoc, Option.or_of_isSome (List.getLast?_isSome.2 (List.cons_ne_nil c cs))]
    congr 1
    funext found
    exact Prod.ext (List.append_assoc front (c :: cs) found.1).symm rfl

/-! ## Lists in a text -/

/-- A `SELECT` stands before the rest of a text, as a whole word. -/
structure IsSelect (before : Option Char) (word rest : List Char) : Prop where
  fold : word.map fold = "select".toList
  before : wordAt before = false
  rest : wordAt rest.head? = false

theorem IsSelect.ne_nil (h : IsSelect before word rest) : word ≠ [] := by
  rintro rfl
  exact absurd h.fold (by decide)

theorem IsSelect.keyword_eq (h : IsSelect before word rest) :
    keyword "SELECT".toList before (word ++ rest) = some ((), rest) :=
  keyword_of_fold h.fold h.before h.rest

theorem IsSelect.selectMatcher_some (h : IsSelect before word rest)
    (hlist : fragmentBehind? (some 'T') rest = some (fragment, behind)) :
    selectMatcher before (word ++ rest) = some (some fragment, behind) := by
  rw [selectMatcher, h.keyword_eq, Option.map_some]
  dsimp only
  rw [hlist]

theorem IsSelect.selectMatcher_none (h : IsSelect before word rest)
    (hlist : fragmentBehind? (some 'T') rest = none) :
    selectMatcher before (word ++ rest) = some (none, rest) := by
  rw [selectMatcher, h.keyword_eq, Option.map_some]
  dsimp only
  rw [hlist]

/-- What stands behind a `FROM` is read as the name of an object up to the end of it. -/
theorem leadingName_of_isSegment (hobject : Name.isSegment object = true)
    (hpost : Name.Stops post) : leadingName (' ' :: (object ++ post)) = object := by
  have hparts : ∀ c ∈ object, Name.isPart c = true := fun _ hc =>
    Name.isPart_of_isSegment hobject hc
  have hhead : object.head?.any isBlank = false :=
    (isTrim_of_isPath (Name.isPath_of_isSegment hobject)).head
  have hname : leadingName (' ' :: object) = object := by
    have hblank : isBlank ' ' = true := rfl
    rw [leadingName, trimStart, List.dropWhile_cons_of_pos hblank, ← trimStart,
      trimStart_of_head hhead, List.takeWhile_eq_self_iff.2 hparts]
  have hne : object ≠ [] := ne_nil_of_isPath (Name.isPath_of_isSegment hobject)
  rw [← List.cons_append, leadingName_append (by rwa [hname]) hpost, hname]

/-- A list that is passed over is the first in a text that begins with it, and it reads from what is
    named behind its `FROM`. -/
theorem exists_fragments (hlist : PassedOver list) (htrim : IsTrim list)
    (hobject : Name.isSegment object = true) (hpost : Name.Stops post) :
    ∃ more, fragments ("SELECT ".toList ++ (list ++ (" FROM ".toList ++ (object ++ post)))) =
      ⟨String.ofList list, String.ofList object⟩ :: more := by
  have hblank : PassedOver [' '] := LacksFrom.passedOver (by decide) (by decide)
  have hspaced : PassedOver ([' '] ++ (list ++ [' '])) :=
    hblank.append (hlist.append hblank (.inr rfl)) (.inl rfl)
  have hlast : ([' '] ++ (list ++ [' '])).getLast? = some ' ' := by
    rw [← List.append_assoc, List.getLast?_concat]
  -- the blanks around the list are passed over with it, and trimmed off afterwards
  have hcut : cutAtFrom? (some 'T') 0
      ([' '] ++ (list ++ [' ']) ++ ("FROM".toList ++ ' ' :: (object ++ post))) =
        some ([' '] ++ (list ++ [' ']), ' ' :: (object ++ post)) := by
    have hfrom : cutAtFrom? (some ' ') 0 ("FROM".toList ++ ' ' :: (object ++ post)) =
        some ([], ' ' :: (object ++ post)) := rfl
    rw [hspaced _ _ (.inl (by rw [hlast]; rfl)), hlast, Option.some_or, hfrom, Option.map_some]
    dsimp only
    rw [List.append_nil]
  have htrimmed : trim ([' '] ++ (list ++ [' '])) = list :=
    trim_append (by decide) htrim (by decide)
  have hbehind : fragmentBehind? (some 'T')
      ([' '] ++ (list ++ [' ']) ++ ("FROM".toList ++ ' ' :: (object ++ post))) =
        some (⟨String.ofList list, String.ofList object⟩, ' ' :: (object ++ post)) := by
    rw [fragmentBehind?, hcut, Option.bind_some]
    dsimp only
    rw [leadingName_of_isSegment hobject hpost, if_pos hobject, htrimmed]
  have htext : "SELECT ".toList ++ (list ++ (" FROM ".toList ++ (object ++ post))) =
      "SELECT".toList ++
        ([' '] ++ (list ++ [' ']) ++ ("FROM".toList ++ ' ' :: (object ++ post))) := by
    have hjoin : ∀ select source : List Char,
        (select ++ [' ']) ++ (list ++ ((' ' :: source ++ [' ']) ++ (object ++ post))) =
          select ++ ([' '] ++ (list ++ [' ']) ++ (source ++ ' ' :: (object ++ post))) := by simp
    exact hjoin "SELECT".toList "FROM".toList
  have hselect : IsSelect none "SELECT".toList
      ([' '] ++ (list ++ [' ']) ++ ("FROM".toList ++ ' ' :: (object ++ post))) :=
    ⟨by decide, rfl, rfl⟩
  obtain ⟨more, hmore⟩ := exists_matchesFrom
    (List.append_ne_nil_of_left_ne_nil hselect.ne_nil _) (hselect.selectMatcher_some hbehind)
  rw [fragments, htext, findAll_eq, hmore]
  exact ⟨more.filterMap id, rfl⟩

end SelectList

end QueryGate
