import Mathlib.Tactic.SplitIfs
import QueryGate.Discovery.Extract
import QueryGate.Proofs.Text.Split

/-!
# The names that documents give

Which names the extractors take for fields. Those in select lists, in payloads and in
the lists of prose are field names. Those in conditions are found without regard to
case, and so are field names once their letters are folded (`isPath_of_mem_usages`):
such a name is a field name, or else `Disguised` by a letter that merely folds to a
plain one, the long s or the Kelvin sign, and that stands in the document.

* `Name.isPath_of_isPath_fold`: a name without those letters needs no folding;
* `WhereClause.isPath_of_begins`: what the search for conditions tries as a field;
* `isField_or_disguised_of_mem_usages`: the fields of conditions;
* `SelectList.isPath_of_fieldOfItem?`, `Narrative.isField_of_mem_fields`: all others.
-/

namespace QueryGate

open Text

/-! ## Segments and paths -/

namespace Name

theorem ne_dot_of_isPart {c : Char} (h : isPart c = true) : (c == '.') = false := by
  rw [beq_eq_false_iff_ne]
  rintro rfl
  exact absurd h (by decide)

theorem isPart_of_isStart {c : Char} (h : isStart c = true) : isPart c = true := by
  rw [isStart, Bool.or_eq_true] at h
  rw [isPart, Bool.or_eq_true]
  exact h.imp_left fun halpha => Bool.or_eq_true_iff.2 (.inl halpha)

/-- A segment is a path. -/
theorem isPath_of_isSegment {cs : List Char} (h : isSegment cs = true) : isPath cs = true := by
  have hparts : ∀ c ∈ cs, (c == '.') = false := by
    cases cs with
    | nil => cases h
    | cons d cs =>
      rw [isSegment, Bool.and_eq_true] at h
      intro c hc
      rcases List.mem_cons.1 hc with rfl | hc
      · exact ne_dot_of_isPart (isPart_of_isStart h.1)
      · exact ne_dot_of_isPart (List.all_eq_true.1 h.2 c hc)
  rw [isPath, splitWhere_eq_splitOnP, List.splitOnP_eq_singleton hparts, List.all_cons, h]
  rfl

/-- The first part of a text that starts a segment is one if it goes on like one. -/
theorem isSegment_of_splitWhere {c : Char} {cs first : List Char} {rest : List (List Char)}
    (h : splitWhere (· == '.') (c :: cs) = first :: rest) (hc : isStart c = true)
    (hfirst : first.all isPart = true) : isSegment first = true := by
  rw [splitWhere, ne_dot_of_isPart (isPart_of_isStart hc), if_neg Bool.false_ne_true] at h
  cases hparts : splitWhere (· == '.') cs with
  | nil =>
    rw [hparts, consFirst] at h
    obtain rfl := (List.cons.inj h).1
    rw [isSegment, hc]
    rfl
  | cons part parts =>
    rw [hparts, consFirst] at h
    obtain rfl := (List.cons.inj h).1
    rw [List.all_cons, Bool.and_eq_true] at hfirst
    rw [isSegment, hc, hfirst.2]
    rfl

theorem isField_ofList {cs : List Char} : isField (String.ofList cs) = isPath cs := by
  rw [isField, String.toList_ofList]

/-! ### Folding -/

/-- The capitals. -/
def capitals : List Char := "ABCDEFGHIJKLMNOPQRSTUVWXYZ".toList

theorem toLower_eq_or_mem (c : Char) : c.toLower = c ∨ c ∈ capitals := by
  by_cases h : c.val ≥ 'A'.val ∧ c.val ≤ 'Z'.val
  · right
    have hlow : 65 ≤ c.toNat := UInt32.le_iff_toNat_le.1 h.1
    have hhigh : c.toNat ≤ 90 := UInt32.le_iff_toNat_le.1 h.2
    have hall : ∀ n ∈ List.range' 65 26, Char.ofNat n ∈ capitals := by decide
    have hc := hall c.toNat (List.mem_range'_1.2 ⟨hlow, by omega⟩)
    rwa [Char.ofNat_toNat] at hc
  · exact .inl (dif_neg h)

theorem isPart_toLower (c : Char) : isPart c.toLower = isPart c := by
  rcases toLower_eq_or_mem c with h | h
  · rw [h]
  · have hall : capitals.all fun c => isPart c.toLower == isPart c := by decide
    exact beq_iff_eq.1 (List.all_eq_true.1 hall c h)

theorem isStart_toLower (c : Char) : isStart c.toLower = isStart c := by
  rcases toLower_eq_or_mem c with h | h
  · rw [h]
  · have hall : capitals.all fun c => isStart c.toLower == isStart c := by decide
    exact beq_iff_eq.1 (List.all_eq_true.1 hall c h)

theorem toLower_beq_dot (c : Char) : (c.toLower == '.') = (c == '.') := by
  rcases toLower_eq_or_mem c with h | h
  · rw [h]
  · have hall : capitals.all fun c => (c.toLower == '.') == (c == '.') := by decide
    exact beq_iff_eq.1 (List.all_eq_true.1 hall c h)

theorem splitWhere_map {p : Char → Bool} {f : Char → Char} (hp : ∀ c, p (f c) = p c)
    (cs : List Char) : splitWhere p (cs.map f) = (splitWhere p cs).map (List.map f) := by
  induction cs with
  | nil => rfl
  | cons c cs ih =>
    rw [List.map_cons, splitWhere, splitWhere, hp, ih]
    split_ifs
    · rfl
    · cases splitWhere p cs <;> rfl

theorem isSegment_map_toLower (cs : List Char) :
    isSegment (cs.map Char.toLower) = isSegment cs := by
  cases cs with
  | nil => rfl
  | cons c cs =>
    rw [List.map_cons, isSegment, isSegment, isStart_toLower, List.all_map]
    congr 2
    funext d
    exact isPart_toLower d

/-- Paths are paths whatever the case of their letters. -/
theorem isPath_map_toLower (cs : List Char) : isPath (cs.map Char.toLower) = isPath cs := by
  rw [isPath, splitWhere_map toLower_beq_dot, List.all_map]
  congr 1
  funext part
  exact isSegment_map_toLower part

/-- A text that is a path once it is folded is one itself, but for letters that fold to plain
    ones. -/
theorem isPath_of_isPath_fold {cs : List Char} (h : isPath (cs.map fold) = true)
    (hplain : ∀ c ∈ cs, c ≠ longS ∧ c ≠ kelvin) : isPath cs = true := by
  have hfold : cs.map fold = cs.map Char.toLower := by
    refine List.map_congr_left fun c hc => ?_
    rw [fold, if_neg (hplain c hc).1, if_neg (hplain c hc).2]
  rwa [hfold, isPath_map_toLower] at h

/-- A name is no field name for a letter that merely folds to a plain one; the letter stands in a
    text. -/
def Disguised (text : List Char) (name : String) : Prop :=
  isPath (name.toList.map fold) = true ∧
    ∃ letter ∈ name.toList, (letter = longS ∨ letter = kelvin) ∧ letter ∈ text

theorem Disguised.mono {text more : List Char} {name : String} (h : Disguised text name)
    (hmore : ∀ letter ∈ text, letter ∈ more) : Disguised more name := by
  obtain ⟨hpath, letter, hletter, hfolds, hmem⟩ := h
  exact ⟨hpath, letter, hletter, hfolds, hmore letter hmem⟩

end Name

/-! ## Conditions -/

namespace WhereClause

theorem pathSpan_of_isFieldStart {c : Char} (hc : isFieldStart c = true) (cs : List Char) :
    pathSpan true (c :: cs) = c :: pathSpan true cs := by
  rw [pathSpan, if_pos (show isFieldPart c = true from Name.isPart_of_isStart hc)]

theorem pathSpan_begins (inside : Bool) (cs : List Char) : pathSpan inside cs <+: cs := by
  induction cs generalizing inside with
  | nil => cases inside <;> exact List.prefix_rfl
  | cons c cs ih =>
    cases inside with
    | false =>
      rw [pathSpan]
      split_ifs
      · exact List.cons_prefix_cons.2 ⟨rfl, ih true⟩
      · exact List.nil_prefix
    | true =>
      rw [pathSpan]
      split_ifs
      · exact List.cons_prefix_cons.2 ⟨rfl, ih true⟩
      · exact List.cons_prefix_cons.2 ⟨rfl, ih true⟩
      · exact List.nil_prefix

/-- A beginning of a path that goes on inside of a segment holds what is left of the segment, and
    then segments. -/
theorem splitWhere_of_begins {field cs : List Char} (h : field <+: pathSpan true cs)
    (hlast : field.getLast? ≠ some '.') :
    ∃ first rest, splitWhere (· == '.') (field.map fold) = first :: rest ∧
      first.all Name.isPart = true ∧ rest.all Name.isSegment = true := by
  induction cs generalizing field with
  | nil =>
    obtain rfl := List.prefix_nil.1 h
    exact ⟨[], [], rfl, rfl, rfl⟩
  | cons c cs ih =>
    cases field with
    | nil => exact ⟨[], [], rfl, rfl, rfl⟩
    | cons d field =>
      have hlast' : field.getLast? ≠ some '.' := fun hdot =>
        hlast (by rw [List.getLast?_cons, hdot]; rfl)
      rw [pathSpan] at h
      split_ifs at h with hpart hdot
      · -- the segment goes on
        obtain ⟨rfl, hfield⟩ := List.cons_prefix_cons.1 h
        obtain ⟨first, rest, hsplit, hfirst, hrest⟩ := ih hfield hlast'
        refine ⟨fold d :: first, rest, ?_, ?_, hrest⟩
        · rw [List.map_cons, splitWhere, Name.ne_dot_of_isPart hpart, if_neg Bool.false_ne_true,
            hsplit]
          rfl
        · rw [List.all_cons, show Name.isPart (fold d) = true from hpart, hfirst]
          rfl
      · -- a dot: the field does not end here, so that it goes on with a segment
        obtain ⟨rfl, hfield⟩ := List.cons_prefix_cons.1 h
        obtain ⟨rfl, hstart⟩ := hdot
        obtain ⟨first, rest, hsplit, hfirst, hrest⟩ := ih hfield hlast'
        refine ⟨[], first :: rest, ?_, rfl, ?_⟩
        · rw [List.map_cons, splitWhere, if_pos (by decide), hsplit]
        rw [List.all_cons, hrest, Bool.and_true]
        cases field with
        | nil => exact absurd rfl hlast
        | cons e field =>
          obtain ⟨b, cs, rfl⟩ : ∃ b more, cs = b :: more := by
            cases cs with
            | nil => cases hstart
            | cons b more => exact ⟨b, more, rfl⟩
          rw [pathSpan_of_isFieldStart hstart] at hfield
          obtain ⟨rfl, -⟩ := List.cons_prefix_cons.1 hfield
          exact Name.isSegment_of_splitWhere hsplit hstart hfirst
      · cases List.prefix_nil.1 h

/-- A beginning of a path that does not end with a dot is a path once it is folded. -/
theorem isPath_of_begins {field cs : List Char} (h : field <+: pathSpan false cs)
    (hne : field ≠ []) (hlast : field.getLast? ≠ some '.') :
    Name.isPath (field.map fold) = true := by
  cases field with
  | nil => exact absurd rfl hne
  | cons d field =>
    cases cs with
    | nil => cases List.prefix_nil.1 h
    | cons c cs =>
      rw [pathSpan] at h
      split_ifs at h with hstart
      · rw [← pathSpan_of_isFieldStart hstart] at h
        obtain ⟨first, rest, hsplit, hfirst, hrest⟩ := splitWhere_of_begins h hlast
        rw [pathSpan_of_isFieldStart hstart] at h
        obtain ⟨rfl, -⟩ := List.cons_prefix_cons.1 h
        rw [Name.isPath, hsplit, List.all_cons, hrest, Bool.and_true]
        exact Name.isSegment_of_splitWhere hsplit hstart hfirst
      · cases List.prefix_nil.1 h

/-- What is found as a field is the longest beginning of the path that does not end with a dot and
    has an operator behind it. -/
theorem exists_of_conditionAt? {cs field op rest : List Char} {length : ℕ}
    (h : conditionAt? cs length = some ((field, op), rest)) :
    ∃ count < length, field = cs.take (count + 1) ∧ field.getLast? ≠ some '.' ∧
      operatorAt? (trimStart (cs.drop (count + 1))) = some (op, rest) ∧
      ∀ longer < length, count < longer → (cs.take (longer + 1)).getLast? ≠ some '.' →
        operatorAt? (trimStart (cs.drop (longer + 1))) = none := by
  induction length with
  | zero => cases h
  | succ length ih =>
    dsimp only [conditionAt?] at h
    split at h
    · next op' rest' hfound =>
      cases h
      split_ifs at hfound with hlast
      exact ⟨length, Nat.lt_succ_self _, rfl, hlast, hfound, fun longer hlonger hcount => by omega⟩
    · next hnone =>
      obtain ⟨count, hcount, hfield, hlast, hfound, hlongest⟩ := ih h
      refine ⟨count, Nat.lt_succ_of_lt hcount, hfield, hlast, hfound, ?_⟩
      intro longer hlonger hlt hdot
      rcases Nat.lt_succ_iff_lt_or_eq.1 hlonger with hlonger | rfl
      · exact hlongest longer hlonger hlt hdot
      · rwa [if_neg hdot] at hnone

/-- A field that stands before an operator is a path once it is folded, and starts the text. -/
theorem isPath_of_conditionMatcher {before : Option Char} {cs field op rest : List Char}
    (h : conditionMatcher before cs = some ((field, op), rest)) :
    Name.isPath (field.map fold) = true ∧ field <+: cs := by
  rw [conditionMatcher] at h
  split_ifs at h
  obtain ⟨count, hcount, rfl, hlast, -⟩ := exists_of_conditionAt? h
  have hspan := pathSpan_begins false cs
  have hbegins : cs.take (count + 1) <+: pathSpan false cs := by
    -- so many characters of the text are characters of the path
    obtain ⟨tail, htail⟩ := hspan
    rw [← htail, List.take_append_of_le_length hcount, htail]
    exact List.take_prefix _ _
  refine ⟨isPath_of_begins hbegins ?_ hlast, List.take_prefix _ _⟩
  have hlength := hspan.length_le
  rw [← List.length_pos_iff, List.length_take]
  omega

/-- The texts that the search looks at hold no characters that the clause does not hold, but for
    the quotes of emptied literals. -/
theorem mem_of_mem_emptyLiterals {clause : List Char} {c : Char} (h : c ∈ emptyLiterals clause) :
    c ∈ clause ∨ c = '\'' := by
  rcases mem_replaceAll h with h | ⟨before, rest, value, rest', hm, hc⟩
  · exact .inl h
  · right
    unfold literalMatcher at hm
    split at hm
    · obtain ⟨after, -, hpair⟩ := Option.map_eq_some_iff.1 hm
      cases hpair
      simpa using hc
    · cases hm

theorem mem_of_mem_clauses {cs clause : List Char} {c : Char} (hclause : clause ∈ clauses cs)
    (hc : c ∈ clause) : c ∈ cs := by
  obtain ⟨front, rest, rest', rfl, hm⟩ := exists_of_mem_findAll hclause
  obtain ⟨⟨value, after⟩, hkeyword, hpair⟩ := Option.map_eq_some_iff.1 hm
  have hafter := suffix_of_afterKeyword (keyword_eq_some hkeyword).2
  refine List.mem_append_right front (hafter.subset ?_)
  dsimp only at hpair
  split at hpair
  · next body found rest hcut =>
    cases hpair
    obtain ⟨back, rfl, -⟩ := exists_of_cutFirst hcut
    exact List.mem_append_left _ hc
  · cases hpair
    exact hc

/-- The fields of conditions are field names, or disguised. -/
theorem isField_or_disguised_of_mem_usages {cs : List Char} {field : String} {op : Operator}
    (h : (field, op) ∈ usages cs) : Name.isField field = true ∨ Name.Disguised cs field := by
  obtain ⟨clause, hclause, h⟩ := List.mem_flatMap.1 h
  obtain ⟨⟨name, text⟩, hfound, husage⟩ := List.mem_filterMap.1 h
  obtain ⟨front, rest, rest', hclauseText, hm⟩ := exists_of_mem_findAll hfound
  obtain ⟨hpath, hbegins⟩ := isPath_of_conditionMatcher hm
  obtain rfl : String.ofList name = field := by
    dsimp only [usage?] at husage
    split_ifs at husage
    obtain ⟨op', -, hpair⟩ := Option.map_eq_some_iff.1 husage
    exact congrArg Prod.fst hpair
  by_cases hplain : ∀ c ∈ name, c ≠ longS ∧ c ≠ kelvin
  · rw [Name.isField_ofList]
    exact .inl (Name.isPath_of_isPath_fold hpath hplain)
  · push Not at hplain
    obtain ⟨letter, hletter, hfolds⟩ := hplain
    have hfolds : letter = longS ∨ letter = kelvin :=
      (em (letter = longS)).imp_right hfolds
    refine .inr ⟨by rwa [String.toList_ofList], letter, by rwa [String.toList_ofList], hfolds, ?_⟩
    have hmem : letter ∈ emptyLiterals clause :=
      hclauseText ▸ List.mem_append_right front (hbegins.subset hletter)
    rcases mem_of_mem_emptyLiterals hmem with hmem | rfl
    · exact mem_of_mem_clauses hclause hmem
    · rcases hfolds with h | h <;> exact absurd h (by decide)

theorem mem_of_mem_units {cs unit : List Char} {c : Char} (hunit : unit ∈ units cs)
    (hc : c ∈ unit) : c ∈ cs := by
  obtain ⟨block, hblock, hunit⟩ := List.mem_flatMap.1 hunit
  obtain ⟨paragraph, hparagraph, hblock⟩ := List.mem_flatMap.1 hblock
  refine mem_of_mem_splitOn hparagraph (mem_of_mem_splitOn hblock ?_)
  dsimp only [blockUnits] at hunit
  split_ifs at hunit
  · cases hunit
  · exact mem_of_mem_lines (List.mem_of_mem_filter hunit) hc
  · rwa [List.mem_singleton.1 hunit] at hc

end WhereClause

/-! ## Select lists -/

namespace SelectList

theorem isPath_of_fieldOfItem? {item field : List Char} (h : fieldOfItem? item = some field) :
    Name.isPath field = true := by
  dsimp only [fieldOfItem?] at h
  split_ifs at h
  obtain ⟨expression, -, hexpression⟩ := Option.bind_eq_some_iff.1 h
  split_ifs at hexpression with hpath
  · cases hexpression
    exact hpath
  · dsimp only [unwrap?] at hexpression
    split_ifs at hexpression with hcall hfield
    cases hexpression
    exact hfield.2

/-- The fields of select lists are field names. -/
theorem isField_of_mem_fields {fragment : Fragment} {field : String}
    (h : field ∈ fragment.fields) : Name.isField field = true := by
  obtain ⟨name, hname, rfl⟩ := List.mem_map.1 h
  obtain ⟨item, -, hitem⟩ := List.mem_filterMap.1 (List.mem_eraseDups.1 hname)
  rw [Name.isField_ofList]
  exact isPath_of_fieldOfItem? hitem

end SelectList

/-! ## Prose -/

namespace Narrative

theorem isPath_of_mem_fieldsOfItem {item field : List Char} (h : field ∈ fieldsOfItem item) :
    Name.isPath field = true := by
  rw [fieldsOfItem, List.mem_append, List.mem_append] at h
  rcases h with (h | h) | h
  · -- a label
    have hlabel := Option.mem_toList.1 h
    dsimp only [Option.mem_def, label?] at hlabel
    split_ifs at hlabel with hcolon hpath
    cases hlabel
    exact (Bool.and_eq_true_iff.1 hpath).2
  · exact (List.mem_filter.1 h).2
  · -- a custom name is a segment
    obtain ⟨front, rest, rest', -, hm⟩ := exists_of_mem_findAll h
    dsimp only [customMatcher] at hm
    split_ifs at hm with hcustom
    cases hm
    simp only [Bool.and_eq_true] at hcustom
    obtain ⟨⟨⟨-, halpha⟩, -⟩, -⟩ := hcustom
    refine Name.isPath_of_isSegment ?_
    have hparts : ∀ c ∈ rest.takeWhile Name.isPart, Name.isPart c = true :=
      List.all_eq_true.1 List.all_takeWhile
    cases hname : rest.takeWhile Name.isPart with
    | nil =>
      rw [hname] at halpha
      cases halpha
    | cons c name =>
      rw [hname] at halpha hparts
      rw [Name.isSegment, Name.isStart, show c.isAlpha = true from halpha, Bool.true_or,
        Bool.true_and, List.all_eq_true]
      exact fun d hd => hparts d (List.mem_cons_of_mem _ hd)

/-- The fields that prose speaks of in lists are field names. -/
theorem isField_of_mem_fields {cs : List Char} {field : String} (h : field ∈ fields cs) :
    Name.isField field = true := by
  obtain ⟨name, hname, rfl⟩ := List.mem_map.1 h
  obtain ⟨item, -, hitem⟩ := List.mem_flatMap.1 hname
  rw [Name.isField_ofList]
  exact isPath_of_mem_fieldsOfItem hitem

end Narrative

end QueryGate
