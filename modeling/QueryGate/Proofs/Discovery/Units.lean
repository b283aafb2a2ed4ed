import QueryGate.Proofs.Discovery.ClauseEnds
import QueryGate.Proofs.Text.Blanks
import QueryGate.Proofs.Text.Cuts
import QueryGate.Proofs.Text.Places

/-!
# The units of a text

A text is cut into pieces at empty lines and fences, and a piece that has no lines but rows of a
table is cut into those. All other pieces are units, unless they are blank. So what stands between
units are blanks and fences (`laid_units`), and all lines that are not blank are in the units, in
their order (`units_account`).

A part of a text in which no such gap can begin or end is *unparted*. It lies in one unit as a
whole, and all other units stand before it or behind (`Laid.exists_places`). A clause of conditions
is unparted if it lies on a line without fences (`LiesOn.isUnparted`).
-/

namespace QueryGate

open Text

namespace WhereClause

variable {cs gap mark rest unit : List Char} {pieces us : List (List Char)}

/-! ## Lines and pieces -/

/-- The lines of a text that are not blank. -/
def properLines (cs : List Char) : List (List Char) := (lines cs).filter isProper

theorem allBlank_of_isProper {line : List Char} (h : isProper line = false) : AllBlank line := by
  have hnil : trim line = [] := by simpa [isProper] using h
  intro c hc
  by_contra hblank
  have hmem := (mem_trim_iff (Bool.eq_false_iff.2 hblank)).2 hc
  rw [hnil] at hmem
  cases hmem

/-- A line that is not blank is all that there is in it. -/
theorem properLines_line {line : List Char} (hline : line ∈ properLines cs) :
    properLines line = [line] := by
  obtain ⟨hmem, hproper⟩ := List.mem_filter.1 hline
  have hne : line.isEmpty = false := by
    cases line with
    | nil => cases hproper
    | cons c line => rfl
  rw [properLines, lines_of_not_mem (not_mem_of_mem_lines hmem), hne]
  exact List.filter_cons_of_pos hproper

/-- The units of a block are its rows if it has no other lines, and else the block. -/
theorem blockUnits_eq (block : List Char) : blockUnits block =
    if (properLines block).all isTableRow then properLines block else [block] := by
  change (if (properLines block).isEmpty then [] else
    if (properLines block).all isTableRow then properLines block else [block]) = _
  cases properLines block with
  | nil => rfl
  | cons line rest => rfl

/-- The units of a block have the lines of the block. -/
theorem flatMap_properLines_blockUnits (block : List Char) :
    (blockUnits block).flatMap properLines = properLines block := by
  rw [blockUnits_eq]
  split_ifs
  · calc (properLines block).flatMap properLines
        = (properLines block).flatMap fun line => [line] :=
          List.flatMap_congr fun line hline => properLines_line hline
      _ = properLines block := List.flatMap_singleton' _
  · exact List.flatMap_singleton _ _

/-- What parts a text into pieces: empty lines and fences. -/
def separators : List (List Char) := [['\n', '\n'], fence]

/-- The blocks of a text are its pieces. -/
theorem isCut_separators_iff :
    IsCut separators cs pieces ↔ pieces = blocks cs :=
  isCut_iff (List.cons_ne_nil _ _) (List.cons_ne_nil _ _)
    (by simp [fence])

/-! ## Layouts -/

/-- What may stand between units: blanks and fences. -/
inductive IsGap : List Char → Prop
  | nil : IsGap []
  | blank {c : Char} {gap : List Char} (hc : isBlank c = true) (h : IsGap gap) : IsGap (c :: gap)
  | fence {gap : List Char} (h : IsGap gap) : IsGap (fence ++ gap)

theorem IsGap.append {more : List Char} (h : IsGap gap) (hmore : IsGap more) :
    IsGap (gap ++ more) := by
  induction h with
  | nil => exact hmore
  | blank hc _ ih => exact .blank hc ih
  | fence _ ih =>
    rw [List.append_assoc]
    exact .fence ih

theorem isGap_of_allBlank (h : AllBlank gap) : IsGap gap := by
  induction gap with
  | nil => exact .nil
  | cons c gap ih =>
    exact .blank (h c List.mem_cons_self) (ih fun d hd => h d (List.mem_cons_of_mem c hd))

/-- The marks that end a unit. -/
def unitEnds : List (List Char) := [['\n'], ['\r', '\n'], fence]

/-- A unit ends before the rest of a text. -/
def EndsUnit (rest : List Char) : Prop := rest = [] ∨ ∃ mark ∈ unitEnds, mark <+: rest

/-- Units stand in a text one behind the other, with gaps around them. -/
inductive Laid : List Char → List (List Char) → Prop
  | gap {gap : List Char} (h : IsGap gap) : Laid gap []
  | unit {gap unit rest : List Char} {us : List (List Char)} (hgap : IsGap gap)
      (hend : EndsUnit rest) (hrest : Laid rest us) :
      Laid (gap ++ (unit ++ rest)) (unit :: us)

theorem laid_singleton (unit : List Char) : Laid unit [unit] := by
  have h : Laid ([] ++ (unit ++ [])) [unit] := .unit .nil (.inl rfl) (.gap .nil)
  rwa [List.nil_append, List.append_nil] at h

theorem Laid.append_left (hgap : IsGap gap) (h : Laid cs us) : Laid (gap ++ cs) us := by
  cases h with
  | gap h => exact .gap (hgap.append h)
  | unit hgap' hend hrest =>
    rw [← List.append_assoc]
    exact .unit (hgap.append hgap') hend hrest

/-- Layouts with the end of a unit between them make up one. -/
theorem Laid.append {front back : List Char} {more : List (List Char)} (h : Laid front us)
    (hgap : IsGap mark) (hmark : ∃ stop ∈ unitEnds, stop <+: mark) (hmore : Laid back more) :
    Laid (front ++ (mark ++ back)) (us ++ more) := by
  induction h with
  | gap h => exact (hmore.append_left hgap).append_left h
  | @unit gap' unit rest us hgap' hend hrest ih =>
    rw [List.append_assoc, List.append_assoc]
    refine .unit hgap' (.inr ?_) ih
    rcases hend with rfl | ⟨stop, hstop, hrest⟩
    · exact hmark.imp fun stop ⟨hstop, hbegins⟩ => ⟨hstop, hbegins.trans (List.prefix_append _ _)⟩
    · exact ⟨stop, hstop, hrest.trans (List.prefix_append _ _)⟩

theorem Laid.isInfix (h : Laid cs us) (hunit : unit ∈ us) : unit <:+: cs := by
  induction h with
  | gap _ => cases hunit
  | @unit gap first rest us _ _ _ ih =>
    rcases List.mem_cons.1 hunit with rfl | hunit
    · rw [← List.append_assoc]
      exact List.infix_append gap unit rest
    · rw [← List.append_assoc]
      exact (ih hunit).trans (List.suffix_append _ rest).isInfix

theorem laid_filter_isProper (line : List Char) : Laid line ([line].filter isProper) := by
  cases hproper : isProper line with
  | true =>
    rw [List.filter_cons_of_pos hproper]
    exact laid_singleton line
  | false =>
    rw [List.filter_cons_of_neg (Bool.eq_false_iff.1 hproper)]
    exact .gap (isGap_of_allBlank (allBlank_of_isProper hproper))

/-- The lines of a text that are not blank are laid out in it. -/
theorem laid_properLines (cs : List Char) : Laid cs (properLines cs) := by
  have hfeed : IsGap ['\n'] := .blank (by decide) .nil
  induction cs using line_by_line with
  | last line hline =>
    rw [properLines, lines_of_not_mem hline]
    split_ifs with hempty
    · rw [List.isEmpty_iff.1 hempty]
      exact .gap .nil
    · exact laid_filter_isProper line
  | first line rest hline ih =>
    -- a carriage return before the line feed belongs to the gap
    have hlines : properLines (line ++ '\n' :: rest) =
        [withoutReturn line].filter isProper ++ properLines rest := by
      rw [properLines, lines_append_feed hline, ← List.singleton_append, List.filter_append]
      rfl
    rw [hlines, withoutReturn]
    split_ifs with hreturn
    · obtain ⟨front, rfl⟩ := List.getLast?_eq_some_iff.1 hreturn
      have hends : IsGap ['\r', '\n'] := .blank (by decide) hfeed
      have hlaid : Laid (front ++ (['\r', '\n'] ++ rest))
          ([front].filter isProper ++ properLines rest) :=
        (laid_filter_isProper front).append hends ⟨_, by decide, List.prefix_rfl⟩ ih
      rwa [List.dropLast_concat, List.append_assoc]
    · exact (laid_filter_isProper line).append hfeed ⟨_, by decide, List.prefix_rfl⟩ ih

theorem laid_blockUnits (block : List Char) : Laid block (blockUnits block) := by
  rw [blockUnits_eq]
  split_ifs
  · exact laid_properLines block
  · exact laid_singleton block

theorem laid_of_isCut (h : IsCut separators cs pieces) :
    Laid cs (pieces.flatMap blockUnits) := by
  induction h with
  | last _ =>
    rw [List.flatMap_singleton]
    exact laid_blockUnits _
  | cut hseparator _ _ ih =>
    rw [List.flatMap_cons]
    rcases List.mem_pair.1 hseparator with rfl | rfl
    · exact (laid_blockUnits _).append (.blank (by decide) (.blank (by decide) .nil))
        ⟨['\n'], by decide, by decide⟩ ih
    · exact (laid_blockUnits _).append (IsGap.fence .nil) ⟨fence, by decide, List.prefix_rfl⟩ ih

theorem laid_units (cs : List Char) : Laid cs (units cs) :=
  laid_of_isCut (isCut_separators_iff.2 rfl)

/-! ## Places of units -/

section Places

variable {before : List Char} {places : List Place} {clause inner line outer q : Place}

/-- A part of a text in which no gap between units begins or ends: it begins with no blank, holds no
    line end, and no fence meets it. -/
structure IsUnparted (q : Place) : Prop where
  head : ∃ c rest, q.part = c :: rest ∧ isBlank c = false
  feed : '\n' ∉ q.part
  carriage : q.part.getLast? = some '\r' → q.back.head? ≠ some '\n'
  apart : ∀ p : Place, p.text = q.text → p.part = fence → p.Before q ∨ q.Before p

theorem IsUnparted.ne_nil (h : IsUnparted q) : q.part ≠ [] := by
  obtain ⟨c, rest, hpart, -⟩ := h.head
  rw [hpart]
  exact List.cons_ne_nil c rest

/-- An unparted place that does not begin before a gap lies behind it. -/
theorem IsUnparted.behind_gap (h : IsUnparted q) (hgap : IsGap gap)
    (htext : q.text = before ++ (gap ++ rest)) (hbefore : before <+: q.front) :
    before ++ gap <+: q.front := by
  induction hgap generalizing before with
  | nil => rwa [List.append_nil]
  | @blank c gap hc _ ih =>
    obtain ⟨front, hfront⟩ := hbefore
    have hrest : front ++ (q.part ++ q.back) = c :: (gap ++ rest) := by
      rwa [Place.text, ← hfront, List.append_assoc, List.append_cancel_left_eq] at htext
    cases front with
    | nil =>
      obtain ⟨d, part, hpart, hd⟩ := h.head
      rw [hpart] at hrest
      obtain ⟨rfl, -⟩ := List.cons.inj hrest
      exact absurd (hd.symm.trans hc) Bool.false_ne_true
    | cons d front =>
      obtain ⟨rfl, -⟩ := List.cons.inj hrest
      have hbehind : (before ++ [d]) ++ gap <+: q.front :=
        ih (by rw [htext]; simp) ⟨front, by rw [← hfront]; simp⟩
      rwa [List.append_assoc] at hbehind
  | @fence gap _ ih =>
    have hfence : (⟨before, fence, gap ++ rest⟩ : Place).text = q.text := by
      rw [htext, Place.text, List.append_assoc]
    rcases h.apart _ hfence rfl with ⟨between, hq⟩ | hq
    · have hbehind : (before ++ fence) ++ gap <+: q.front :=
        ih (by rw [htext]; simp) ⟨between, by rw [hq]; simp⟩
      rwa [List.append_assoc] at hbehind
    · have hend : q.front.length + q.part.length ≤ before.length := hq.length_le
      have hbegin := hbefore.length_le
      have hpos := List.length_pos_iff.2 h.ne_nil
      omega

/-- An unparted place that begins before the end of a unit does not go on behind it. -/
theorem IsUnparted.eq_nil_of_endsUnit (h : IsUnparted q) {part beyond : List Char}
    (hpart : q.part = part ++ beyond) (hne : part ≠ []) (hend : EndsUnit (beyond ++ q.back)) :
    beyond = [] := by
  cases beyond with
  | nil => rfl
  | cons c beyond =>
    have hfeed : '\n' ∉ c :: beyond := fun hmem => h.feed (hpart ▸ List.mem_append_right part hmem)
    rcases hend with hnil | ⟨mark, hmark, tail, htail⟩
    · cases hnil
    rw [unitEnds, List.mem_cons, List.mem_pair] at hmark
    rcases hmark with rfl | rfl | rfl
    · obtain ⟨rfl, -⟩ := List.cons.inj htail
      exact absurd List.mem_cons_self hfeed
    · obtain ⟨rfl, hrest⟩ := List.cons.inj htail
      cases beyond with
      | nil =>
        have hlast : q.part.getLast? = some '\r' := by rw [hpart, List.getLast?_concat]
        have hback : q.back = '\n' :: tail := hrest.symm
        exact absurd (by rw [hback]; rfl) (h.carriage hlast)
      | cons d beyond =>
        obtain ⟨rfl, -⟩ := List.cons.inj hrest
        exact absurd (List.mem_cons_of_mem _ List.mem_cons_self) hfeed
    · -- the fence begins within the place, behind its beginning
      have hfence : (⟨q.front ++ part, fence, tail⟩ : Place).text = q.text := by
        rw [Place.text, Place.text, htail, hpart]
        simp
      have hpos := List.length_pos_iff.2 hne
      rcases h.apart _ hfence rfl with hq | hq
      · have hle := hq.length_le
        simp only [List.length_append] at hle
        omega
      · have hle := hq.length_le
        simp only [List.length_append, hpart, List.length_cons] at hle
        omega

/-- An unparted place that does not begin before a unit lies within it or behind. -/
theorem IsUnparted.within_or_behind (h : IsUnparted q) (hend : EndsUnit rest)
    (htext : q.text = before ++ (unit ++ rest)) (hbefore : before <+: q.front) :
    (∃ inner : Place, inner.text = unit ∧ inner.within ⟨before, unit, rest⟩ = q) ∨
      before ++ unit <+: q.front := by
  obtain ⟨front, part, back⟩ := q
  obtain ⟨left, rfl⟩ := hbefore
  rw [Place.text, List.append_assoc, List.append_cancel_left_eq] at htext
  rcases List.append_eq_append_iff.1 htext with ⟨right, rfl, hright⟩ | ⟨gap, rfl, -⟩
  · -- the place begins in the unit, or right behind it
    rcases List.append_eq_append_iff.1 hright with ⟨more, rfl, rfl⟩ | ⟨beyond, hpart, rfl⟩
    · exact .inl ⟨⟨left, part, more⟩, rfl, rfl⟩
    · cases right with
      | nil => exact .inr ⟨[], by simp⟩
      | cons c right =>
        obtain rfl := h.eq_nil_of_endsUnit hpart (List.cons_ne_nil c right) hend
        rw [List.append_nil] at hpart
        exact .inl ⟨⟨left, part, []⟩, by rw [Place.text, hpart, List.append_nil], rfl⟩
  · exact .inr ⟨gap, by rw [List.append_assoc]⟩

/-- A place lies in one of several others, where it is `inner` in the part of that one. The others
    end before it or begin behind it. -/
def LiesIn (places : List Place) (inner q : Place) : Prop :=
  ∃ earlier p later, places = earlier ++ p :: later ∧ inner.text = p.part ∧ inner.within p = q ∧
    (∀ p' ∈ earlier, p'.Before q) ∧ ∀ p' ∈ later, q.Before p'

theorem LiesIn.cons {p : Place} (h : LiesIn places inner q) (hp : p.Before q) :
    LiesIn (p :: places) inner q := by
  obtain ⟨earlier, p', later, rfl, hinner, hwithin, hearlier, hlater⟩ := h
  exact ⟨p :: earlier, p', later, rfl, hinner, hwithin, List.forall_mem_cons.2 ⟨hp, hearlier⟩,
    hlater⟩

/-- Units that are laid out in a text have places in it, one behind the other, and an unparted place
    lies in one of them. -/
theorem Laid.exists_places (h : Laid cs us) (before : List Char) :
    ∃ places : List Place, places.map Place.part = us ∧
      (∀ p ∈ places, p.text = before ++ cs ∧ before <+: p.front) ∧ places.Pairwise Place.Before ∧
      ∀ q : Place, IsUnparted q → q.text = before ++ cs → before <+: q.front →
        ∃ inner, LiesIn places inner q := by
  -- by induction on the layout, with what stands before the rest of the text
  induction h generalizing before with
  | @gap gap hgap =>
    refine ⟨[], rfl, by simp, .nil, fun q hq htext hbefore => ?_⟩
    have hrest : q.text = before ++ (gap ++ []) := by rwa [List.append_nil]
    obtain ⟨more, hmore⟩ := hq.behind_gap hgap hrest hbefore
    rw [Place.text, ← hmore, List.append_assoc, List.append_right_eq_self] at htext
    exact absurd (List.append_eq_nil_iff.1 (List.append_eq_nil_iff.1 htext).2).1 hq.ne_nil
  | @unit gap unit rest us hgap hend _ ih =>
    obtain ⟨places, hmap, hplaces, hpairwise, hlies⟩ := ih ((before ++ gap) ++ unit)
    have htext : before ++ (gap ++ (unit ++ rest)) = (before ++ gap) ++ unit ++ rest := by simp
    have hfirst : ∀ p ∈ places, (⟨before ++ gap, unit, rest⟩ : Place).Before p := by
      intro p hp
      obtain ⟨more, hmore⟩ := (hplaces p hp).2
      exact ⟨more, by rw [← hmore, List.append_assoc]⟩
    refine ⟨⟨before ++ gap, unit, rest⟩ :: places, by rw [List.map_cons, hmap], ?_,
      List.pairwise_cons.2 ⟨hfirst, hpairwise⟩, fun q hq hqtext hbefore => ?_⟩
    · refine List.forall_mem_cons.2 ⟨⟨by simp [Place.text], List.prefix_append _ _⟩, ?_⟩
      intro p hp
      refine ⟨(hplaces p hp).1.trans htext.symm, ?_⟩
      exact ((List.prefix_append _ _).trans (List.prefix_append _ _)).trans (hplaces p hp).2
    · have hbehind := hq.behind_gap hgap hqtext hbefore
      rw [htext, List.append_assoc] at hqtext
      rcases hq.within_or_behind hend hqtext hbehind with ⟨inner, hinner, rfl⟩ | ⟨more, hmore⟩
      · exact ⟨inner, [], _, places, rfl, hinner, rfl, by simp,
          fun p hp => (hfirst p hp).of_within hinner⟩
      · obtain ⟨inner, hin⟩ := hlies q hq (by rw [hqtext]; simp) ⟨more, hmore⟩
        exact ⟨inner, hin.cons ⟨more, by rw [← hmore, List.append_assoc]⟩⟩

/-! ## Clauses on lines -/

/-- A clause begins at a place, which holds its keyword and may hold more. -/
def OpensClause (q : Place) : Prop :=
  ∃ word body, q.part = word ++ body ∧
    keyword "WHERE".toList q.front.getLast? (q.part ++ q.back) = some ((), body ++ q.back)

/-- A clause lies on a line of a text in which there is no fence. -/
structure LiesOn (cs : List Char) (line clause : Place) : Prop where
  text : line.text = cs
  isLine : line.IsLine
  unfenced : ¬fence <:+: line.part
  part : clause.text = line.part
  opens : OpensClause (clause.within line)

theorem opensClause_iff : OpensClause q ↔ ∃ word body, q.part = word ++ body ∧
    word.map fold = "WHERE".toList.map fold ∧ wordAt q.front.getLast? = false ∧
      wordAt (body ++ q.back).head? = false := by
  refine exists_congr fun word => exists_congr fun body => and_congr_right fun hpart => ?_
  rw [hpart, List.append_assoc]
  constructor
  · intro h
    obtain ⟨hfront, hafter⟩ := keyword_eq_some h
    obtain ⟨word', hword, hfold, hrest⟩ := afterKeyword_eq_some_iff.1 hafter
    rw [List.append_cancel_right_eq] at hword
    exact ⟨hword ▸ hfold, hfront, hrest⟩
  · rintro ⟨hfold, hfront, hrest⟩
    exact keyword_of_fold hfold hfront hrest

/-- Where a clause begins in a text, one begins in each part of it that holds the clause. -/
theorem OpensClause.of_within (h : OpensClause (inner.within outer)) : OpensClause inner := by
  obtain ⟨word, body, hpart, hfold, hfront, hrest⟩ := opensClause_iff.1 h
  refine opensClause_iff.2 ⟨word, body, hpart, hfold, ?_, ?_⟩
  · cases hlast : inner.front.getLast? with
    | none => rfl
    | some c => rwa [Place.within, List.getLast?_append, hlast] at hfront
  · cases hhead : (body ++ inner.back).head? with
    | none => rfl
    | some c => rwa [Place.within, ← List.append_assoc, List.head?_append, hhead] at hrest

theorem LiesOn.mem_line (h : LiesOn cs line clause) {c : Char}
    (hc : c ∈ clause.part ++ clause.back) : c ∈ line.part := by
  rw [← h.part]
  exact List.mem_append_right clause.front hc

/-- A clause that ends with a carriage return does not end before a line feed. -/
theorem LiesOn.carriage (h : LiesOn cs line clause) (hlast : clause.part.getLast? = some '\r') :
    (clause.back ++ line.back).head? ≠ some '\n' := by
  obtain ⟨hfeed, hends⟩ := h.isLine.ends
  cases hback : clause.back with
  | cons c back =>
    have hc : c ∈ line.part := h.mem_line (by rw [hback]; simp)
    exact fun hhead => hfeed (Option.some.inj hhead ▸ hc)
  | nil =>
    have hreturn : line.part.getLast? = some '\r' := by
      rw [← h.part, Place.text, hback, List.append_nil, List.getLast?_append, hlast]
      rfl
    rw [List.nil_append]
    rcases hends with hnil | ⟨hnot, -⟩ | ⟨rest, hrest⟩
    · rw [hnil]
      rintro ⟨⟩
    · exact absurd hreturn hnot
    · rw [hrest]
      rintro ⟨⟩

theorem LiesOn.isUnparted (h : LiesOn cs line clause) : IsUnparted (clause.within line) where
  head := by
    obtain ⟨word, body, hpart, hfold, -⟩ := opensClause_iff.1 h.opens
    cases word with
    | nil => cases hfold
    | cons c word =>
      exact ⟨c, word ++ body, hpart,
        not_isBlank_of_map_fold hfold (by decide) c List.mem_cons_self⟩
  feed hc := h.isLine.ends.1 (h.mem_line (List.mem_append_left _ hc))
  carriage := h.carriage
  apart p htext hp := by
    have hmarks : ∀ c ∈ fence, c ≠ '\n' ∧ c ≠ '\r' := by simp [fence]
    rw [Place.text_within h.part] at htext
    exact (h.isLine.before_or_before htext (hp ▸ hmarks) (hp ▸ h.unfenced)).imp
      (fun hbefore => hbefore.within clause) fun hbefore => hbefore.of_within h.part

end Places

/-! ## Units -/

/-- A text is cut into pieces at empty lines and fences, in one way. Its units are the rows of the
    pieces that are tables, one by one, and all other pieces, and they have the lines of the pieces
    that are not blank. They are parts of the text in which there is neither an empty line nor a
    fence, one behind the other. A clause on a line without fences lies in one of them, and all
    others stand before the clause or behind it. -/
theorem units_account (cs : List Char) :
    (∃ pieces, IsCut separators cs pieces ∧ (∀ other, IsCut separators cs other → other = pieces) ∧
      (units cs).flatMap properLines = pieces.flatMap properLines ∧
      units cs = pieces.flatMap fun piece =>
        if (properLines piece).all isTableRow then properLines piece else [piece]) ∧
    (∀ unit ∈ units cs, unit <:+: cs ∧ ∀ separator ∈ separators, ¬separator <:+: unit) ∧
    ∃ places : List Place, places.map Place.part = units cs ∧ (∀ p ∈ places, p.text = cs) ∧
      places.Pairwise Place.Before ∧
      ∀ line clause, LiesOn cs line clause →
        ∃ inner, LiesIn places inner (clause.within line) ∧ OpensClause inner := by
  have hcut : IsCut separators cs (blocks cs) := isCut_separators_iff.2 rfl
  refine ⟨⟨blocks cs, hcut, fun _ => isCut_separators_iff.1, ?_, ?_⟩,
    fun unit hunit => ⟨?_, ?_⟩, ?_⟩
  · rw [units, List.flatMap_assoc]
    exact List.flatMap_congr fun block _ => flatMap_properLines_blockUnits block
  · exact List.flatMap_congr fun block _ => blockUnits_eq block
  · exact (laid_units cs).isInfix hunit
  · obtain ⟨block, hblock, hunit⟩ := List.mem_flatMap.1 hunit
    intro separator hseparator hin
    exact hcut.not_stands (by decide) block hblock separator hseparator
      (hin.trans ((laid_blockUnits block).isInfix hunit))
  · obtain ⟨places, hmap, hplaces, hpairwise, hlies⟩ := (laid_units cs).exists_places []
    refine ⟨places, hmap, fun p hp => (hplaces p hp).1, hpairwise, fun line clause h => ?_⟩
    obtain ⟨inner, hin⟩ := hlies (clause.within line) h.isUnparted
      ((Place.text_within h.part).trans h.text) List.nil_prefix
    obtain ⟨-, p, -, -, -, hwithin, -⟩ := id hin
    have hopens : OpensClause (inner.within p) := hwithin ▸ h.opens
    exact ⟨inner, hin, hopens.of_within⟩

/-- A page on deals: a heading, a table whose lines end with carriage returns as well, and a fenced
    block right behind an empty line. -/
def dealsPage : List Char :=
  "Deals\n\n| Q |\r\n  | WHERE Amount > 5 LIMIT 1 |\r\n\n\n\x60\x60\x60\nx\n\x60\x60\x60\n".toList

/-- The second row of the table. -/
def dealsRow : Place where
  front := "Deals\n\n| Q |\r\n".toList
  part := "  | WHERE Amount > 5 LIMIT 1 |".toList
  back := "\r\n\n\n\x60\x60\x60\nx\n\x60\x60\x60\n".toList

/-- The clause in the row. -/
def dealsClause : Place where
  front := "  | ".toList
  part := "WHERE Amount > 5".toList
  back := " LIMIT 1 |".toList

theorem dealsClause_liesOn : LiesOn dealsPage dealsRow dealsClause where
  text := by decide +kernel
  isLine := ⟨fun _ hc => (Option.some.inj hc).symm, by decide +kernel⟩
  unfenced := by decide +kernel
  part := by decide +kernel
  opens := ⟨"WHERE".toList, " Amount > 5".toList, by decide +kernel, by decide +kernel⟩

/-- The clause lies in one unit of the page. That unit keeps its carriage return, as the line feed
    behind it was cut off with the empty line, and the row above does not. -/
theorem dealsPage_account :
    units dealsPage = ["Deals".toList, "| Q |".toList,
        "  | WHERE Amount > 5 LIMIT 1 |\r".toList, "\nx\n".toList] ∧
      LiesOn dealsPage dealsRow dealsClause ∧
      ∃ places : List Place, places.map Place.part = units dealsPage ∧
        ∃ inner, LiesIn places inner (dealsClause.within dealsRow) ∧ OpensClause inner := by
  obtain ⟨-, -, places, hmap, -, -, hclauses⟩ := units_account dealsPage
  exact ⟨by decide +kernel, dealsClause_liesOn, places, hmap,
    hclauses dealsRow dealsClause dealsClause_liesOn⟩

end WhereClause

end QueryGate
