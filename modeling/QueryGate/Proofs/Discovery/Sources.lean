import Mathlib.Tactic.SplitIfs
import QueryGate.Discovery.WhereClause
import QueryGate.Proofs.Text.Scan

/-!
# What a query reads from

A text *opens* a query on an object if the first `SELECT` in it goes on to a `FROM` with
the name of the object behind it (`SelectList.Opens`). Whatever follows behind the name,
conditions and all, the text reads from this object (`Opens.sourceOf?_append`).

For this, each scanner on the way is shown to recognize the same, and no more, when the
text goes on: `cutAtFrom?_append`, `fragmentBehind?_append`, `cutFirst_selectMatcher_append`.
-/

namespace QueryGate

open Text

/-- A text does not go on with a character of a name. -/
def Name.Stops (cs : List Char) : Prop := cs.head?.any Name.isPart = false

instance (cs : List Char) : Decidable (Name.Stops cs) := inferInstanceAs (Decidable (_ = _))

namespace SelectList

variable {before : Option Char} {depth : ℕ} {cs list rest tail : List Char} {fragment : Fragment}

theorem length_of_afterFrom? (h : afterFrom? before cs = some rest) :
    cs.length = 4 + rest.length := by
  rw [afterFrom?] at h
  split_ifs at h
  split at h
  · next hafter =>
    split_ifs at h
    cases h
    exact length_of_afterBy hafter
  · cases h

theorem afterFrom?_append (before : Option Char) (tail : List Char) (h : 4 < cs.length) :
    afterFrom? before (cs ++ tail) = (afterFrom? before cs).map (· ++ tail) := by
  have hword : "FROM".toList.length ≤ cs.length := h.le
  rw [afterFrom?, afterFrom?, afterBy_append tail hword]
  split_ifs
  · rfl
  cases hafter : afterBy (fun w c => w == c.toUpper) "FROM".toList cs with
  | none => rfl
  | some rest =>
    have hhead : (rest ++ tail).head? = rest.head? := by
      have hlength : cs.length = 4 + rest.length := length_of_afterBy hafter
      cases rest with
      | nil => simp only [List.length_nil] at hlength; omega
      | cons c rest => rfl
    rw [Option.map_some]
    dsimp only
    rw [hhead]
    split_ifs <;> rfl

/-- A select list ends at the same `FROM` when more follows behind that. -/
theorem cutAtFrom?_append (tail : List Char) (h : cutAtFrom? before depth cs = some (list, rest))
    (hrest : rest ≠ []) :
    4 < cs.length ∧ cutAtFrom? before depth (cs ++ tail) = some (list, rest ++ tail) := by
  induction cs generalizing before depth list with
  | nil => cases h
  | cons c cs ih =>
    have hgoOn : ∀ depth,
        (cutAtFrom? (some c) depth cs).map (fun found => (c :: found.1, found.2)) =
          some (list, rest) →
        4 < (c :: cs).length ∧
          (cutAtFrom? (some c) depth (cs ++ tail)).map (fun found => (c :: found.1, found.2)) =
            some (list, rest ++ tail) := by
      intro depth h
      obtain ⟨⟨list', rest'⟩, hcut, hpair⟩ := Option.map_eq_some_iff.1 h
      cases hpair
      obtain ⟨hlength, hcut'⟩ := ih hcut
      rw [hcut']
      exact ⟨Nat.lt_succ_of_lt hlength, rfl⟩
    rw [List.cons_append, cutAtFrom?]
    rw [cutAtFrom?] at h
    dsimp only at h ⊢
    by_cases hopen : c = '('
    · rw [if_pos hopen] at h ⊢
      exact hgoOn _ h
    rw [if_neg hopen] at h ⊢
    by_cases hclose : c = ')'
    · rw [if_pos hclose] at h ⊢
      split_ifs at h ⊢
      exact hgoOn _ h
    rw [if_neg hclose] at h ⊢
    -- the list may end here; what has been found behind leaves room enough to tell
    by_cases hdepth : depth = 0
    · rw [if_pos hdepth] at h ⊢
      cases hfrom : afterFrom? before (c :: cs) with
      | none =>
        rw [hfrom] at h
        have hlength := (hgoOn _ h).1
        rw [← List.cons_append, afterFrom?_append before tail hlength, hfrom]
        exact hgoOn _ h
      | some rest' =>
        rw [hfrom] at h
        cases h
        have hlength : 4 < (c :: cs).length := by
          rw [length_of_afterFrom? hfrom]
          exact Nat.lt_add_of_pos_right (List.length_pos_iff.2 hrest)
        rw [← List.cons_append, afterFrom?_append before tail hlength, hfrom]
        exact ⟨hlength, rfl⟩
    · rw [if_neg hdepth] at h ⊢
      exact hgoOn _ h

/-- The name behind a `FROM` is the same when something else than a name follows. -/
theorem leadingName_append (h : leadingName cs ≠ []) (htail : Name.Stops tail) :
    leadingName (cs ++ tail) = leadingName cs := by
  have hne : trimStart cs ≠ [] := by
    intro hempty
    rw [leadingName, hempty] at h
    exact h rfl
  have hstop : tail.takeWhile Name.isPart = [] := by
    cases tail with
    | nil => rfl
    | cons c tail => rw [List.takeWhile_cons, show Name.isPart c = false from htail]; rfl
  have htrim : trimStart (cs ++ tail) = trimStart cs ++ tail := by
    rw [trimStart, List.dropWhile_append]
    exact if_neg fun hempty => hne (List.isEmpty_iff.1 hempty)
  rw [leadingName, htrim, List.takeWhile_append, hstop, List.append_nil]
  split_ifs with hall
  · -- the name reaches the end of the text and goes no further
    rw [leadingName, (List.takeWhile_prefix _).eq_of_length hall]
  · rfl

/-- A select list, with the object it reads from, is the same when something else than a name
    follows the name of the object. -/
theorem fragmentBehind?_append (h : fragmentBehind? before cs = some (fragment, rest))
    (htail : Name.Stops tail) :
    4 < cs.length ∧ fragmentBehind? before (cs ++ tail) = some (fragment, rest ++ tail) := by
  obtain ⟨⟨list, rest'⟩, hcut, hfragment⟩ := Option.bind_eq_some_iff.1 h
  dsimp only at hfragment
  split_ifs at hfragment with hsource
  cases hfragment
  have hname : leadingName rest ≠ [] := by
    intro hempty
    rw [hempty] at hsource
    cases hsource
  have hrest : rest ≠ [] := by
    rintro rfl
    exact hname rfl
  obtain ⟨hlength, hcut'⟩ := cutAtFrom?_append tail hcut hrest
  refine ⟨hlength, ?_⟩
  rw [fragmentBehind?, hcut', Option.bind_some]
  dsimp only
  rw [leadingName_append hname htail, if_pos hsource]

/-- A `SELECT` and its list are recognized the same when something else than a name follows the name
    of the object. -/
theorem selectMatcher_append (h : selectMatcher before cs = some (some fragment, rest))
    (htail : Name.Stops tail) :
    6 < cs.length ∧ selectMatcher before (cs ++ tail) = some (some fragment, rest ++ tail) := by
  obtain ⟨⟨value, behind⟩, hkeyword, hpair⟩ := Option.map_eq_some_iff.1 h
  dsimp only at hpair
  split at hpair
  · next fragment' rest' hfragment =>
    cases hpair
    obtain ⟨hlength, hfragment'⟩ := fragmentBehind?_append hfragment htail
    have hcs : "SELECT".toList.length < cs.length := by
      have hafter := (keyword_eq_some hkeyword).2
      rw [afterKeyword] at hafter
      split at hafter
      · next hfolded =>
        split_ifs at hafter
        cases hafter
        have hsum : cs.length = 6 + behind.length := length_of_afterBy hfolded
        change 6 < cs.length
        omega
      · cases hafter
    refine ⟨hcs, ?_⟩
    rw [selectMatcher, keyword_append before tail hcs, hkeyword]
    dsimp only [Option.map_some]
    rw [hfragment']
  · cases hpair

/-- Where there is no `SELECT` there is none either when more follows. -/
theorem selectMatcher_append_eq_none (tail : List Char) (h : selectMatcher before cs = none)
    (hlength : 6 < cs.length) : selectMatcher before (cs ++ tail) = none := by
  have hkeyword := Option.map_eq_none_iff.1 h
  have hword : "SELECT".toList.length < cs.length := hlength
  rw [selectMatcher, keyword_append before tail hword, hkeyword]
  rfl

theorem cutFirst_selectMatcher_append {front : List Char}
    (h : cutFirst selectMatcher before cs = some (front, some fragment, rest))
    (htail : Name.Stops tail) :
    6 < cs.length ∧
      cutFirst selectMatcher before (cs ++ tail) = some (front, some fragment, rest ++ tail) := by
  induction cs generalizing before front with
  | nil =>
    obtain ⟨⟨found, rest'⟩, hmatch, hpair⟩ := Option.map_eq_some_iff.1 h
    cases hpair
    cases (selectMatcher_append hmatch htail).1
  | cons c cs ih =>
    rw [List.cons_append, cutFirst]
    rw [cutFirst] at h
    split at h
    · next hmatch =>
      cases h
      obtain ⟨hlength, hmatch'⟩ := selectMatcher_append hmatch htail
      rw [← List.cons_append, hmatch']
      exact ⟨hlength, rfl⟩
    · next hnone =>
      obtain ⟨⟨front', found⟩, hcut, hpair⟩ := Option.map_eq_some_iff.1 h
      cases hpair
      -- what is found behind leaves room for a `SELECT` here, and so none can appear
      obtain ⟨hlength, hcut'⟩ := ih hcut
      have hlength : 6 < (c :: cs).length := Nat.lt_succ_of_lt hlength
      rw [← List.cons_append, selectMatcher_append_eq_none tail hnone hlength, hcut']
      exact ⟨hlength, rfl⟩

/-- A text opens a query on an object: the first `SELECT` in it goes on to a `FROM` with the name of
    the object behind it. -/
def Opens (source : String) (cs : List Char) : Prop :=
  ((cutFirst selectMatcher none cs).bind fun (_, fragment, _) => fragment).map Fragment.source =
    some source

instance (source : String) (cs : List Char) : Decidable (Opens source cs) :=
  inferInstanceAs (Decidable (_ = _))

/-- A text that opens a query reads from its object, whatever follows behind the name of it. -/
theorem Opens.sourceOf?_append {source : String} (h : Opens source cs) (htail : Name.Stops tail) :
    WhereClause.sourceOf? (cs ++ tail) = some source := by
  obtain ⟨fragment, hfragment, rfl⟩ := Option.map_eq_some_iff.1 h
  obtain ⟨⟨front, found, rest⟩, hcut, rfl⟩ := Option.bind_eq_some_iff.1 hfragment
  have hnil : ∀ before, selectMatcher before [] = none := by
    intro before
    rw [selectMatcher, keyword]
    split_ifs <;> rfl
  obtain ⟨more, hmore⟩ :=
    exists_findAll_of_cutFirst hnil (cutFirst_selectMatcher_append hcut htail).2
  rw [WhereClause.sourceOf?, fragments, hmore]
  rfl

example : Opens "Account" "| Large | SELECT Id, Name FROM Account".toList := by decide +kernel

end SelectList

end QueryGate
