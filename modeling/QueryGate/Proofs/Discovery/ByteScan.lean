import QueryGate.Proofs.Discovery.ByteEnds
import QueryGate.Proofs.Discovery.Prose
import QueryGate.Proofs.Discovery.SlicedItems

/-!
# The scan for select lists, by bytes

The scan goes in rounds, from a cursor into the bytes of the text. A *round* searches for the next
`SELECT` and for the `FROM` that ends a list behind it; it leaves the cursor behind the `FROM` if a
list was found there, and else right behind the `SELECT`, where the next round goes over the same
text again (`round?`).

A slice of a text can fail, and with it the round. That no round of a scan does, and that all rounds
together find the lists of the text, is carried by what one round comes to when the cursor is a
boundary (`exists_round`): the cursor goes on to another one, past the list if one was found.

* `IsFrom`, `EndsAt`: where a list ends, in the characters of the text;
* `Span.IsFound`: what stands at the offsets of a list that is found;
* `Runs`: all rounds of a scan, up to the one in which no `SELECT` is left.
-/

namespace QueryGate

open Text

namespace SelectList

variable {before : Option Char} {c : Char} {depth : ℕ}
  {behind cs front gap list part rest select tail text word : List Char}

/-! ## Ends of lists -/

/-- A `FROM` stands before the rest of a text, with no name going on around it. -/
structure IsFrom (before : Option Char) (word rest : List Char) : Prop where
  letters : lowered word = "from".toList
  before : before.any Name.isPart = false
  rest : Name.Stops rest

/-- A text is that of a list if it closes the parentheses that it opens, and the `FROM` behind it is
    the first one outside of parentheses. -/
structure EndsAt (before : Option Char) (list word rest : List Char) : Prop where
  balanced : IsBalanced list
  isFrom : IsFrom (list.getLast?.or before) word rest
  first : ∀ part word' rest', list ++ (word ++ rest) = part ++ (word' ++ rest') →
    part.length < list.length → IsBalanced part → ¬IsFrom (part.getLast?.or before) word' rest'

theorem IsFrom.afterFrom?_eq (h : IsFrom before word rest) :
    afterFrom? before (word ++ rest) = some rest := by
  have hrest : rest.head?.any Name.isPart = false := h.rest
  rw [afterFrom?, h.before, if_neg Bool.false_ne_true, afterUpper_append h.letters]
  dsimp only
  rw [hrest, if_neg Bool.false_ne_true]

theorem exists_isFrom (h : afterFrom? before cs = some rest) :
    ∃ word, cs = word ++ rest ∧ IsFrom before word rest := by
  obtain ⟨hbefore, word, hcs, hword, hrest⟩ := exists_of_afterFrom? h
  exact ⟨word, hcs, hword, hbefore, hrest⟩

/-- What the search passes over on its way to the end of a list. -/
theorem cutAtFrom?_spec (h : cutAtFrom? before depth cs = some (list, rest)) :
    depthAfter? depth list = some 0 ∧
      (∃ word, cs = list ++ (word ++ rest) ∧ IsFrom (list.getLast?.or before) word rest) ∧
      ∀ part tail, cs = part ++ tail → part.length < list.length →
        depthAfter? depth part = some 0 → afterFrom? (part.getLast?.or before) tail = none := by
  induction cs generalizing before depth list with
  | nil => cases h
  | cons c cs ih =>
    rcases cutAtFrom?_cases h with ⟨rfl, hfrom, rfl⟩ | ⟨hnone, depth', list, hdepth, hcut, rfl⟩
    · exact ⟨rfl, exists_isFrom hfrom, fun part _ _ hlength => absurd hlength (Nat.not_lt_zero _)⟩
    · obtain ⟨hbalanced, ⟨word, hcs, hword⟩, hfirst⟩ := ih hcut
      -- the parentheses behind the first character are counted from those open there
      have hopen : ∀ part, depthAfter? depth (c :: part) = depthAfter? depth' part := fun part => by
        rw [← List.singleton_append, depthAfter?_append, hdepth, Option.bind_some]
      refine ⟨(hopen list).trans hbalanced, ⟨word, by rw [hcs]; rfl, by rwa [getLast?_cons_or]⟩, ?_⟩
      intro part tail htail hlength hpart
      cases part with
      | nil =>
        rw [List.nil_append] at htail
        exact htail ▸ hnone (Option.some.inj hpart)
      | cons d part =>
        obtain ⟨rfl, rfl⟩ := List.cons_eq_cons.1 htail
        rw [getLast?_cons_or]
        exact hfirst part tail rfl (Nat.lt_of_succ_lt_succ hlength) ((hopen part).symm.trans hpart)

theorem exists_endsAt (h : cutAtFrom? before 0 cs = some (list, rest)) :
    ∃ word, cs = list ++ (word ++ rest) ∧ EndsAt before list word rest := by
  obtain ⟨hbalanced, ⟨word, rfl, hword⟩, hfirst⟩ := cutAtFrom?_spec h
  refine ⟨word, rfl, hbalanced, hword, fun part word' rest' htail hlength hpart hfrom => ?_⟩
  have hnone := hfirst part (word' ++ rest') htail hlength hpart
  rw [hfrom.afterFrom?_eq] at hnone
  cases hnone

/-! ## Rounds -/

/-- A select list that is found between two offsets into a text. -/
structure Span where
  /-- The offset behind its `SELECT`. -/
  start : ℕ
  /-- The offset of its `FROM`. -/
  stop : ℕ
  /-- The list, with the object. -/
  fragment : Fragment

/-- What a round comes to. -/
inductive Round where
  /-- There is no `SELECT` any more. -/
  | finished
  /-- The next round starts from a cursor, and a list may have been found. -/
  | onward (cursor : ℕ) (found : Option Span)

/-- The offset behind the first `SELECT` from a cursor on, if the cursor is a boundary. -/
def selectEnd? (text : List Char) (cursor : ℕ) : Option (Option ℕ) :=
  (cutAt? cursor text).map fun (front, back) =>
    (cutFirst (keyword "SELECT".toList) front.getLast? back).map fun (_, _, rest) =>
      byteSize text - byteSize rest

/-- A round of the scan, unless it takes a slice of the text that there is not. -/
def round? (text : List Char) (cursor : ℕ) : Option Round :=
  (selectEnd? text cursor).bind fun
    | none => some .finished
    | some start =>
      match fromAt? (bytesOf text) start 0 with
      | none => some (.onward start none)
      | some stop =>
        (slice? text (stop + 4) (byteSize text)).bind fun rest =>
          let source := leadingName rest
          if Name.isSegment source then
            (slice? text start stop).map fun list =>
              .onward (stop + 4)
                (some ⟨start, stop, ⟨String.ofList (trim list), String.ofList source⟩⟩)
          else some (.onward start none)

/-- The parts of a text around a list that is found. -/
structure Span.Stands (span : Span) (front select list word behind : List Char) : Prop where
  isSelect : IsSelect front.getLast? select (list ++ (word ++ behind))
  endsAt : EndsAt select.getLast? list word behind
  start_eq : span.start = byteSize (front ++ select)
  stop_eq : span.stop = byteSize (front ++ (select ++ list))
  list_eq : span.fragment.list = String.ofList (trim list)
  source_eq : span.fragment.source = String.ofList (leadingName behind)
  isObject : Name.isObject span.fragment.source = true

/-- A list stands between the offsets of a span, right behind a `SELECT` and before the `FROM` that
    ends it, and behind that stands the name of its object. -/
def Span.IsFound (text : List Char) (span : Span) : Prop :=
  ∃ front select list word behind, text = front ++ (select ++ (list ++ (word ++ behind))) ∧
    span.Stands front select list word behind

/-- The rounds of a scan from a cursor on, with the lists that they find. -/
inductive Runs (text : List Char) : ℕ → List Span → Prop
  | finish {cursor : ℕ} (h : round? text cursor = some .finished) : Runs text cursor []
  | onward {cursor next : ℕ} {found : Option Span} {spans : List Span}
      (h : round? text cursor = some (.onward next found)) (hnext : Runs text next spans) :
      Runs text cursor (found.toList ++ spans)

/-- What a round comes to from a place in a text: the next place is behind this one, and behind the
    list if one is found. -/
inductive IsRound (front cs : List Char) : Round → Prop
  | finished (h : fragmentsFrom front.getLast? cs = []) : IsRound front cs .finished
  | onward {passed behind : List Char} {found : Option Span} (hcs : cs = passed ++ behind)
      (hne : passed ≠ [])
      (hfound : ∀ span ∈ found, span.IsFound (front ++ cs) ∧ byteSize front < span.start ∧
        span.stop < byteSize (front ++ passed))
      (hfragments : fragmentsFrom front.getLast? cs =
        found.toList.map Span.fragment ++ fragmentsFrom (front ++ passed).getLast? behind) :
      IsRound front cs (.onward (byteSize (front ++ passed)) found)

/-- A scan finds no list where no `SELECT` begins. -/
theorem fragmentsFrom_passed (h : Misses (keyword "SELECT".toList) before gap tail) :
    fragmentsFrom before (gap ++ tail) = fragmentsFrom (gap.getLast?.or before) tail := by
  induction gap generalizing before with
  | nil => rfl
  | cons c gap ih =>
    have hnone : keyword "SELECT".toList before (c :: (gap ++ tail)) = none := h.1
    rw [List.cons_append, fragmentsFrom_plain hnone, getLast?_cons_or]
    exact ih h.2

theorem fragmentsFrom_of_cutFirst
    (h : cutFirst (keyword "SELECT".toList) before cs = none) : fragmentsFrom before cs = [] := by
  induction cs generalizing before with
  | nil => rfl
  | cons c cs ih =>
    rw [cutFirst] at h
    split at h
    · cases h
    · next hnone => rw [fragmentsFrom_plain hnone, ih (Option.map_eq_none_iff.1 h)]

/-- The first `SELECT` of a text, with what is passed before it. -/
theorem exists_isSelect {found : List Char × Unit × List Char}
    (h : cutFirst (keyword "SELECT".toList) before cs = some found) :
    ∃ gap select, cs = gap ++ (select ++ found.2.2) ∧
      IsSelect (gap.getLast?.or before) select found.2.2 ∧
      Misses (keyword "SELECT".toList) before gap (select ++ found.2.2) := by
  obtain ⟨gap, value, rest⟩ := found
  obtain ⟨back, rfl, hkeyword⟩ := exists_of_cutFirst h
  obtain ⟨hbefore, hafter⟩ := keyword_eq_some hkeyword
  obtain ⟨select, rfl, hfold, hrest⟩ := afterKeyword_eq_some_iff.1 hafter
  exact ⟨gap, select, rfl, ⟨hfold, hbefore, hrest⟩, misses_of_cutFirst h⟩

/-! ## Rounds of a scan -/

theorem selectEnd?_eq (front cs : List Char) :
    selectEnd? (front ++ cs) (byteSize front) =
      some ((cutFirst (keyword "SELECT".toList) front.getLast? cs).map fun found =>
        byteSize (front ++ cs) - byteSize found.2.2) := by
  rw [selectEnd?, cutAt?_append]
  rfl

/-- Behind a `SELECT` a round looks for the end of a list, and takes no slice that there is not. -/
theorem round?_eq {cursor : ℕ}
    (hend : selectEnd? (front ++ rest) cursor = some (some (byteSize front))) :
    round? (front ++ rest) cursor = some (match cutAtFrom? front.getLast? 0 rest with
      | none => .onward (byteSize front) none
      | some (list, behind) =>
        if Name.isSegment (leadingName behind) then
          .onward (byteSize (front ++ list) + 4) (some ⟨byteSize front, byteSize (front ++ list),
            ⟨String.ofList (trim list), String.ofList (leadingName behind)⟩⟩)
        else .onward (byteSize front) none) := by
  rw [round?, hend, Option.bind_some]
  dsimp only
  rw [fromAt?_eq]
  cases hcut : cutAtFrom? front.getLast? 0 rest with
  | none => rfl
  | some found =>
    obtain ⟨list, behind⟩ := found
    obtain ⟨word, rfl, hword, -⟩ := exists_of_cutAtFrom? hcut
    have hstop : byteSize (front ++ (list ++ word)) = byteSize (front ++ list) + 4 := by
      rw [← List.append_assoc, byteSize_append, byteSize_of_lowered hword]
    have hlist : slice? (front ++ (list ++ (word ++ behind))) (byteSize front)
        (byteSize (front ++ list)) = some list :=
      slice?_eq_some_iff.2 ⟨front, word ++ behind, rfl, rfl, rfl⟩
    have hbehind : slice? (front ++ (list ++ (word ++ behind))) (byteSize (front ++ list) + 4)
        (byteSize (front ++ (list ++ (word ++ behind)))) = some behind :=
      slice?_eq_some_iff.2 ⟨front ++ (list ++ word), [], by simp, hstop, by simp⟩
    rw [Option.map_some]
    dsimp only
    rw [← byteSize_append, hbehind, Option.bind_some, hlist]
    split_ifs <;> rfl

/-- What stands before a list that is looked for behind a `SELECT` does not matter. -/
theorem IsSelect.fragmentBehind?_eq (h : IsSelect before select rest) :
    fragmentBehind? (some 'T') rest = fragmentBehind? select.getLast? rest := by
  rw [fragmentBehind?, cutAtFrom?_congr (any_isPart_of_wordAt h.rest) _ select.getLast?,
    fragmentBehind?]

/-- A `SELECT` behind which no list is found is passed over. -/
theorem isRound_passed (hselect : IsSelect (gap.getLast?.or front.getLast?) select rest)
    (hmisses : Misses (keyword "SELECT".toList) front.getLast? gap (select ++ rest))
    (hlist : fragmentBehind? select.getLast? rest = none) :
    IsRound front (gap ++ (select ++ rest))
      (.onward (byteSize (front ++ (gap ++ select))) none) := by
  have hne : gap ++ select ≠ [] := List.append_ne_nil_of_right_ne_nil gap hselect.ne_nil
  rw [← hselect.fragmentBehind?_eq] at hlist
  refine .onward (List.append_assoc gap select rest).symm hne (fun _ hspan => by cases hspan) ?_
  rw [fragmentsFrom_passed hmisses, hselect.fragmentsFrom_none hlist, ← List.append_assoc,
    List.getLast?_append_of_ne_nil _ hselect.ne_nil]
  rfl

/-- A round that finds a list leaves it behind. -/
theorem isRound_found (hselect : IsSelect (gap.getLast?.or front.getLast?) select rest)
    (hmisses : Misses (keyword "SELECT".toList) front.getLast? gap (select ++ rest))
    (hcut : cutAtFrom? select.getLast? 0 rest = some (list, behind))
    (hsource : Name.isSegment (leadingName behind) = true) :
    IsRound front (gap ++ (select ++ rest))
      (.onward (byteSize (front ++ (gap ++ (select ++ list))) + 4)
        (some ⟨byteSize (front ++ (gap ++ select)), byteSize (front ++ (gap ++ (select ++ list))),
          ⟨String.ofList (trim list), String.ofList (leadingName behind)⟩⟩)) := by
  have hlist : fragmentBehind? (some 'T') rest =
      some (⟨String.ofList (trim list), String.ofList (leadingName behind)⟩, behind) := by
    rw [hselect.fragmentBehind?_eq, fragmentBehind?, hcut, Option.bind_some]
    exact if_pos hsource
  obtain ⟨word, rfl, hends⟩ := exists_endsAt hcut
  have hword := byteSize_of_lowered hends.isFrom.letters
  have hbehind := wordAt_of_leadingName hends.isFrom.rest hsource
  have hcs : gap ++ (select ++ (list ++ (word ++ behind))) =
      (gap ++ (select ++ (list ++ word))) ++ behind := by simp
  have hcursor : byteSize (front ++ (gap ++ (select ++ list))) + 4 =
      byteSize (front ++ (gap ++ (select ++ (list ++ word)))) := by
    rw [← hword]
    simp only [byteSize_append, Nat.add_assoc]
  have hpos := byteSize_pos hselect.ne_nil
  rw [hcursor]
  refine .onward hcs (List.append_ne_nil_of_right_ne_nil gap
    (List.append_ne_nil_of_left_ne_nil hselect.ne_nil _)) ?_ ?_
  · rintro span ⟨⟩
    refine ⟨⟨front ++ gap, select, list, word, behind, by simp, ?_⟩, ?_, ?_⟩
    · exact ⟨by rwa [List.getLast?_append], hends, by simp, by simp, rfl, rfl, by
        rwa [Name.isObject, String.toList_ofList]⟩
    · simp only [byteSize_append]
      omega
    · rw [← hcursor]
      exact Nat.lt_add_of_pos_right (by decide)
  · rw [fragmentsFrom_passed hmisses, hselect.fragmentsFrom_some hlist]
    exact congrArg (_ :: ·) (fragmentsFrom_congr (.inr hbehind))

/-- Each round from a place in the text comes to something. -/
theorem exists_round (front cs : List Char) :
    ∃ round, round? (front ++ cs) (byteSize front) = some round ∧ IsRound front cs round := by
  cases hcut : cutFirst (keyword "SELECT".toList) front.getLast? cs with
  | none =>
    refine ⟨.finished, ?_, .finished (fragmentsFrom_of_cutFirst hcut)⟩
    rw [round?, selectEnd?_eq, hcut]
    rfl
  | some found =>
    -- behind the `SELECT` there may be a list or not, and in each case the cursor has moved on
    obtain ⟨gap, select, hcs, hselect, hmisses⟩ := exists_isSelect hcut
    have hend := selectEnd?_eq front cs
    rw [hcut, Option.map_some] at hend
    generalize found.2.2 = rest at hcs hselect hmisses hend
    subst hcs
    have htext : front ++ (gap ++ (select ++ rest)) = (front ++ (gap ++ select)) ++ rest := by simp
    rw [htext, byteSize_append, Nat.add_sub_cancel] at hend
    have hlast : (front ++ (gap ++ select)).getLast? = select.getLast? := by
      rw [← List.append_assoc, List.getLast?_append_of_ne_nil _ hselect.ne_nil]
    have hround := round?_eq hend
    rw [← htext, hlast] at hround
    refine ⟨_, hround, ?_⟩
    cases hcutAt : cutAtFrom? select.getLast? 0 rest with
    | none =>
      refine isRound_passed hselect hmisses ?_
      rw [fragmentBehind?, hcutAt]
      rfl
    | some found =>
      dsimp only
      split_ifs with hsource
      · have hfound := isRound_found hselect hmisses hcutAt hsource
        simpa only [List.append_assoc] using hfound
      · refine isRound_passed hselect hmisses ?_
        rw [fragmentBehind?, hcutAt, Option.bind_some]
        exact if_neg hsource

/-- A round from a boundary comes to something, and the next one starts from a boundary behind. -/
theorem round?_advances {cursor : ℕ} (h : IsBoundary text cursor) :
    ∃ round, round? text cursor = some round ∧ ∀ next found, round = .onward next found →
      cursor < next ∧ next ≤ byteSize text ∧ IsBoundary text next := by
  obtain ⟨front, cs, rfl, rfl⟩ := h
  obtain ⟨round, hround, hspec⟩ := exists_round front cs
  refine ⟨round, hround, ?_⟩
  rintro next found rfl
  cases hspec with
  | @onward passed behind _ hcs hne hfound hfragments =>
    have hnext : IsBoundary (front ++ cs) (byteSize (front ++ passed)) :=
      ⟨front ++ passed, behind, by rw [hcs, List.append_assoc], rfl⟩
    rw [byteSize_append] at hnext ⊢
    exact ⟨Nat.lt_add_of_pos_right (byteSize_pos hne), hnext.le, hnext⟩

/-! ## Runs -/

/-- A text is scanned in one way. -/
theorem Runs.unique {cursor : ℕ} {spans spans' : List Span} (h : Runs text cursor spans)
    (h' : Runs text cursor spans') : spans = spans' := by
  induction h generalizing spans' with
  | finish h =>
    cases h' with
    | finish => rfl
    | onward h' => rw [h] at h'; cases h'
  | onward h _ ih =>
    cases h' with
    | finish h' => rw [h] at h'; cases h'
    | onward h' hnext =>
      rw [h] at h'
      cases h'
      rw [ih hnext]

/-- The rounds from a place in a text on find the lists from there on, one behind the other. -/
theorem exists_scan (front cs : List Char) :
    ∃ spans, Runs (front ++ cs) (byteSize front) spans ∧
      spans.map Span.fragment = fragmentsFrom front.getLast? cs ∧
      (∀ span ∈ spans, byteSize front < span.start ∧ span.IsFound (front ++ cs)) ∧
      spans.Pairwise fun span span' => span.stop < span'.start := by
  -- each round shortens the text that is left
  induction hlength : cs.length using Nat.strong_induction_on generalizing front cs with
  | _ n ih =>
    subst hlength
    obtain ⟨round, hround, hspec⟩ := exists_round front cs
    cases hspec with
    | finished h => exact ⟨[], .finish hround, h.symm, by simp, .nil⟩
    | @onward passed behind found hcs hne hfound hfragments =>
      subst hcs
      have hshorter : behind.length < (passed ++ behind).length := by
        rw [List.length_append]
        exact Nat.lt_add_of_pos_left (List.length_pos_iff.2 hne)
      obtain ⟨spans, hruns, hmap, hspans, hpairwise⟩ :=
        ih _ hshorter (front ++ passed) behind rfl
      rw [List.append_assoc] at hruns hspans
      refine ⟨found.toList ++ spans, .onward hround hruns, ?_, ?_, ?_⟩
      · rw [List.map_append, hmap, hfragments]
      · intro span hspan
        rcases List.mem_append.1 hspan with hspan | hspan
        · obtain ⟨hstands, hstart, -⟩ := hfound span (Option.mem_toList.1 hspan)
          exact ⟨hstart, hstands⟩
        · obtain ⟨hstart, hstands⟩ := hspans span hspan
          rw [byteSize_append] at hstart
          exact ⟨by omega, hstands⟩
      · refine List.pairwise_append.2 ⟨?_, hpairwise, ?_⟩
        · cases found <;> simp
        · intro span hspan span' hspan'
          obtain ⟨-, -, hstop⟩ := hfound span (Option.mem_toList.1 hspan)
          exact hstop.trans (hspans span' hspan').1

/-- The scan of a text takes only slices that there are, ends, and finds the lists of the text, each
    behind the one before it. -/
theorem scan_total (text : List Char) :
    (∀ cursor, IsBoundary text cursor → ∃ round, round? text cursor = some round ∧
      ∀ next found, round = .onward next found →
        cursor < next ∧ next ≤ byteSize text ∧ IsBoundary text next) ∧
    (∃ spans, Runs text 0 spans ∧ (∀ spans', Runs text 0 spans' → spans' = spans) ∧
      spans.map Span.fragment = fragments text ∧ (∀ span ∈ spans, span.IsFound text) ∧
      spans.Pairwise fun span span' => span.stop < span'.start) ∧
    ∀ fragment ∈ fragments text,
      (slicedFields? fragment.list.toList).map (·.map String.ofList) = some fragment.fields := by
  refine ⟨fun cursor => round?_advances, ?_, fun fragment _ => ?_⟩
  · obtain ⟨spans, hruns, hmap, hspans, hpairwise⟩ := exists_scan [] text
    exact ⟨spans, hruns, fun spans' h => h.unique hruns, hmap,
      fun span hspan => (hspans span hspan).2, hpairwise⟩
  · rw [slicedFields?_eq]
    rfl

-- the list that is looked for first is never closed, and a later one begins within it
example : fragments "SELECT (a FROM select é FROM B".toList = [⟨"é", "B"⟩] := by decide

end SelectList

end QueryGate
