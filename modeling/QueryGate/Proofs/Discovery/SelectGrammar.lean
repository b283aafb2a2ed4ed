import QueryGate.Proofs.Discovery.ListEnds
import QueryGate.Proofs.Discovery.QueryMining
import QueryGate.Proofs.Discovery.TypeofBlocks

/-!
# Select lists by their grammar

A list of items (`IsItem`) is read as its grammar says: it ends at the `FROM` behind it, and
of its items those name a field that are a field, or a wrapper of one (`selected_fields_read`).

* `IsItem.passedOver`: the search for the `FROM` goes on behind an item;
* `IsItem.exists_left`: without its blocks an item is not split at commas, and it is read as the
  grammar says;
* `passedOver_joined`, `filterMap_splitTopLevel`: and so for lists, by induction on the items.
-/

namespace QueryGate

open Text

namespace SelectList

variable {words : List (List Char)} {name label item left cs tail : List Char}
  {field : Option (List Char)} {before : Option Char}

/-! ## The grammar -/

/-- A name that has none of some words among its segments, in whatever case. -/
structure IsNameWithout (words : List (List Char)) (name : List Char) : Prop where
  isPath : Name.isPath name = true
  segments : ∀ segment ∈ splitWhere (· == '.') name, lowered segment ∉ words

instance (words : List (List Char)) (name : List Char) : Decidable (IsNameWithout words name) :=
  decidable_of_iff ((Name.isPath name && (splitWhere (· == '.') name).all fun segment =>
    !words.contains (lowered segment)) = true)
    ⟨fun h => by
      obtain ⟨isPath, segments⟩ := Bool.and_eq_true_iff.1 h
      exact ⟨isPath, fun segment hsegment => by
        simpa using List.all_eq_true.1 segments segment hsegment⟩,
    fun h => Bool.and_eq_true_iff.2 ⟨h.isPath, List.all_eq_true.2 fun segment hsegment => by
      simpa using h.segments segment hsegment⟩⟩

/-- A name without the words that a list ends with, and that a block begins with. -/
abbrev IsPlainName : List Char → Prop := IsNameWithout ["from".toList, "typeof".toList]

/-- An item of a select list, with the field that it names if it names one. -/
inductive IsItem : List Char → Option (List Char) → Prop
  | field {name label : List Char} (hname : IsPlainName name) (hlabel : IsLabel IsPlainName label) :
    IsItem (name ++ label) (some name)
  | wrapped {function front name back label : List Char} (hfunction : isWrapper function = true)
    (hfront : AllBlank front) (hname : IsNameWithout ["typeof".toList] name)
    (hback : AllBlank back) (hlabel : IsLabel IsPlainName label) :
    IsItem (function ++ (group (front ++ (name ++ back)) ++ label)) (some name)
  | call {function arguments label : List Char} (hfunction : IsPlainName function)
    (hbalanced : IsBalanced arguments) (hblocks : OpensBlocks (some '(') arguments)
    (hother : isWrapper function = true →
      Name.isPath (trim (withoutBlocks (some '(') arguments)) = false)
    (hlabel : IsLabel IsPlainName label) : IsItem (function ++ (group arguments ++ label)) none
  | wildcard : IsItem ['*'] none
  | subquery {query : List Char} (hbalanced : IsBalanced query)
    (hblocks : OpensBlocks (some '(') query) : IsItem (group query) none
  | block {block : List Char} (hblock : IsBlock block) (hfrom : LacksFrom block) :
    IsItem block none

/-! ## Names and labels -/

theorem IsNameWithout.lacksFrom (h : IsNameWithout words name) (hwords : "from".toList ∈ words) :
    LacksFrom name := by
  have hfield : Name.isField (String.ofList name) = true := Name.isField_ofList.trans h.isPath
  have hruns : runs name = splitWhere (· == '.') name := by
    refine Name.splitWhere_congr fun c hc => ?_
    rcases Name.isPart_or_dot hfield (by rwa [String.toList_ofList]) with hpart | rfl
    · rw [hpart, Name.ne_dot_of_isPart hpart]
      rfl
    · decide
  intro run hrun heq
  rw [hruns] at hrun
  exact h.segments run hrun (heq ▸ hwords)

theorem IsPlainName.passedOver (h : IsPlainName name) : PassedOver name :=
  (h.lacksFrom List.mem_cons_self).passedOver (isFlat_of_isPath h.isPath)

/-- Wrappers are plain names. -/
theorem isPlainName_of_isWrapper (h : isWrapper name = true) : IsPlainName name := by
  obtain ⟨wrapper, hwrapper, hsame⟩ := List.any_eq_true.1 h
  have hlowered : name.map Char.toLower = wrapper.toList.map Char.toLower := beq_iff_eq.1 hsame
  have hall : wrappers.all (fun w => Name.isPath (w.toList.map Char.toLower) &&
      (splitWhere (· == '.') (w.toList.map Char.toLower)).all
        (· ∉ ["from".toList, "typeof".toList])) = true := by decide
  have hplain := List.all_eq_true.1 hall wrapper hwrapper
  rw [← hlowered, Bool.and_eq_true, Name.isPath_map_toLower,
    Name.splitWhere_map Name.toLower_beq_dot] at hplain
  refine ⟨hplain.1, fun segment hsegment => ?_⟩
  exact of_decide_eq_true (List.all_eq_true.1 hplain.2 _ (List.mem_map_of_mem hsegment))

/-- No block begins in a text, unless a word goes on behind it. -/
def Untouched (cs : List Char) : Prop :=
  ∀ before tail, (wordAt cs.getLast? = false ∨ wordAt tail.head? = false) →
    Misses typeofMatcher before cs tail

theorem untouched_of_lacks (h : Lacks ["typeof".toList] [] cs) : Untouched cs :=
  fun before _ hends => typeofMatcher_opensOn.misses h hends before

theorem Untouched.append {ds : List Char} (hcs : Untouched cs) (hds : Untouched ds)
    (hends : wordAt cs.getLast? = false ∨ wordAt ds.head? = false) : Untouched (cs ++ ds) := by
  intro before tail htail
  cases ds with
  | nil =>
    rw [List.append_nil] at htail ⊢
    exact hcs before tail htail
  | cons d ds =>
    rw [List.getLast?_append_of_ne_nil cs (List.cons_ne_nil d ds)] at htail
    exact misses_append.2 ⟨hcs before _ hends, hds _ tail htail⟩

theorem Untouched.group (h : Untouched cs) : Untouched (group cs) := by
  have hopen : Untouched ['('] := untouched_of_lacks (by decide)
  have hclose : Untouched [')'] := untouched_of_lacks (by decide)
  exact hopen.append (h.append hclose (.inr (by decide))) (.inl (by decide))

theorem IsNameWithout.untouched (h : IsNameWithout words name) (hwords : "typeof".toList ∈ words) :
    Untouched name := by
  have hname : (String.ofList name).toList = name := String.toList_ofList
  have hlacks : Lacks ["typeof".toList] [] (String.ofList name).toList := by
    refine Name.lacks_of_isField (Name.isField_ofList.trans h.isPath) (fun segment hsegment hmem =>
      ?_) (by decide)
    rw [Name.segments, hname] at hsegment
    exact h.segments segment hsegment (List.mem_singleton.1 hmem ▸ hwords)
  rw [hname] at hlacks
  exact untouched_of_lacks hlacks

theorem IsPlainName.untouched (h : IsPlainName name) : Untouched name :=
  IsNameWithout.untouched h (List.mem_cons_of_mem _ List.mem_cons_self)

section Blanks

variable {gap : List Char}

theorem not_isWord_of_allBlank (h : AllBlank gap) : ∀ c ∈ gap, isWord c = false :=
  fun c hc => not_isWord_of_isBlank (h c hc)

theorem isFlat_of_allBlank (h : AllBlank gap) : IsFlat gap := by
  intro c hc
  constructor <;>
  · rintro rfl
    exact absurd (h _ hc) (by decide)

theorem untouched_of_allBlank (h : AllBlank gap) : Untouched gap := by
  refine untouched_of_lacks ?_
  induction gap with
  | nil => decide
  | cons c gap ih =>
    exact (ih fun d hd => h d (List.mem_cons_of_mem _ hd)).cons (by decide)
      (not_isWord_of_allBlank h c List.mem_cons_self) List.not_mem_nil

theorem passedOver_of_allBlank (h : AllBlank gap) : PassedOver gap := by
  refine LacksFrom.passedOver (lacksFrom_of_forall_ne fun c hc hpart => ?_) (isFlat_of_allBlank h)
  exact absurd ((not_isWord_of_allBlank h c hc).symm.trans (Name.isWord_of_isPart hpart))
    Bool.false_ne_true

theorem unsplit_of_allBlank (h : AllBlank gap) : Unsplit ',' gap :=
  unsplit_of_isFlat (isFlat_of_allBlank h) fun hc => absurd (h _ hc) (by decide)

end Blanks

theorem unsplit_comma_of_isPath (h : Name.isPath name = true) : Unsplit ',' name :=
  unsplit_of_isFlat (isFlat_of_isPath h) fun hc => (isPlain_of_isPath h hc).2.2.2 rfl

section Labels

variable {allowed : List Char → Prop}

/-- Before a label a name ends. -/
theorem IsLabel.ends (h : IsLabel allowed label) : wordAt label.head? = false := by
  cases h with
  | none => rfl
  | @some gap name hne hgap hname =>
    obtain ⟨b, gap, rfl⟩ := List.exists_cons_of_ne_nil hne
    exact not_isWord_of_allBlank hgap b List.mem_cons_self

theorem wordAt_getLast?_of_allBlank {gap : List Char} (h : AllBlank gap) :
    wordAt gap.getLast? = false := by
  cases hlast : gap.getLast? with
  | none => rfl
  | some c => exact not_isWord_of_allBlank h c (List.mem_of_getLast? hlast)

theorem wordAt_head?_of_allBlank {gap : List Char} (h : AllBlank gap) :
    wordAt gap.head? = false := by
  cases gap with
  | nil => rfl
  | cons b gap => exact not_isWord_of_allBlank h b List.mem_cons_self

theorem IsLabel.isPath (h : IsLabel IsPlainName label) : IsLabel (Name.isPath · = true) label :=
  h.mono fun _ => IsNameWithout.isPath

theorem IsLabel.untouched (h : IsLabel IsPlainName label) : Untouched label := by
  cases h with
  | none => exact untouched_of_lacks (by decide)
  | some hne hgap hname =>
    exact (untouched_of_allBlank hgap).append (IsPlainName.untouched hname)
      (.inl (wordAt_getLast?_of_allBlank hgap))

theorem IsLabel.passedOver (h : IsLabel IsPlainName label) : PassedOver label := by
  cases h with
  | none => exact passedOver_of_allBlank (by decide)
  | some hne hgap hname =>
    exact (passedOver_of_allBlank hgap).append (IsPlainName.passedOver hname)
      (.inl (any_isPart_of_wordAt (wordAt_getLast?_of_allBlank hgap)))

theorem IsLabel.unsplit (h : IsLabel IsPlainName label) : Unsplit ',' label := by
  cases h with
  | none => exact unsplit_of_allBlank (by decide)
  | some hne hgap hname =>
    exact (unsplit_of_allBlank hgap).append (unsplit_comma_of_isPath hname.isPath)

end Labels

/-! ## Items -/

section Calls

variable {function arguments : List Char}

theorem passedOver_call (hfunction : IsPlainName function) (hbalanced : IsBalanced arguments)
    (hlabel : IsLabel IsPlainName label) : PassedOver (function ++ (group arguments ++ label)) :=
  hfunction.passedOver.append ((passedOver_group hbalanced).append hlabel.passedOver
    (.inr (any_isPart_of_wordAt hlabel.ends))) (.inr rfl)

theorem unsplit_call (hfunction : IsPlainName function) (hbalanced : IsBalanced arguments)
    (hlabel : IsLabel IsPlainName label) : Unsplit ',' (function ++ (group arguments ++ label)) :=
  (unsplit_comma_of_isPath hfunction.isPath).append
    ((unsplit_group hbalanced).append hlabel.unsplit)

theorem isTrim_labelled_call (hfunction : IsPlainName function) (arguments : List Char)
    (hlabel : IsLabel IsPlainName label) : IsTrim (function ++ (group arguments ++ label)) := by
  have htrim := hlabel.isPath.isTrim_append
    (isTrim_call hfunction.isPath [] arguments)
    (List.append_ne_nil_of_left_ne_nil (ne_nil_of_isPath hfunction.isPath) _)
  rwa [List.nil_append, List.append_assoc] at htrim

/-- The argument of a wrapper is balanced, with the blanks around it. -/
theorem isBalanced_argument {front back : List Char} (hfront : AllBlank front)
    (hname : Name.isPath name = true) (hback : AllBlank back) :
    IsBalanced (front ++ (name ++ back)) := by
  have hflat : IsFlat (front ++ (name ++ back)) := by
    intro c hc
    rcases List.mem_append.1 hc with hc | hc
    · exact isFlat_of_allBlank hfront c hc
    rcases List.mem_append.1 hc with hc | hc
    · exact isFlat_of_isPath hname c hc
    · exact isFlat_of_allBlank hback c hc
  exact hflat.depthAfter?_eq 0

end Calls

theorem IsItem.passedOver (h : IsItem item field) : PassedOver item := by
  cases h with
  | field hname hlabel =>
    exact hname.passedOver.append hlabel.passedOver (.inr (any_isPart_of_wordAt hlabel.ends))
  | wrapped hfunction hfront hname hback hlabel =>
    exact passedOver_call (isPlainName_of_isWrapper hfunction)
      (isBalanced_argument hfront hname.isPath hback) hlabel
  | call hfunction hbalanced _ _ hlabel => exact passedOver_call hfunction hbalanced hlabel
  | wildcard => exact LacksFrom.passedOver (by decide) (by decide)
  | subquery hbalanced _ => exact passedOver_group hbalanced
  | block hblock hfrom => exact hfrom.passedOver hblock.isFlat

theorem IsItem.ne_nil (h : IsItem item field) : item ≠ [] := by
  cases h with
  | field hname _ => exact List.append_ne_nil_of_left_ne_nil (ne_nil_of_isPath hname.isPath) _
  | wrapped => exact List.append_ne_nil_of_right_ne_nil _ (List.cons_ne_nil _ _)
  | call => exact List.append_ne_nil_of_right_ne_nil _ (List.cons_ne_nil _ _)
  | wildcard => exact List.cons_ne_nil _ _
  | subquery => exact List.cons_ne_nil _ _
  | block hblock _ => exact hblock.ne_nil

theorem IsItem.isTrim (h : IsItem item field) : IsTrim item := by
  cases h with
  | field hname hlabel =>
    exact hlabel.isPath.isTrim_append (isTrim_of_isPath hname.isPath)
      (ne_nil_of_isPath hname.isPath)
  | wrapped hfunction _ _ _ hlabel =>
    exact isTrim_labelled_call (isPlainName_of_isWrapper hfunction) _ hlabel
  | call hfunction _ _ _ hlabel => exact isTrim_labelled_call hfunction _ hlabel
  | wildcard => exact ⟨rfl, rfl⟩
  | subquery => exact isTrim_group _
  | block hblock _ => exact hblock.isTrim

/-- What is left of an item without its blocks, whatever stands around it. -/
def Leaves (item left : List Char) : Prop :=
  ∀ before tail, wordAt before = false → wordAt tail.head? = false →
    ∃ last, withoutBlocks before (item ++ tail) = left ++ withoutBlocks last tail

theorem Untouched.leaves (h : Untouched cs) : Leaves cs cs := fun before tail _ htail =>
  ⟨_, withoutBlocks_append (h before tail (.inr htail))⟩

theorem leaves_call {function arguments : List Char} (hfunction : Untouched function)
    (hblocks : OpensBlocks (some '(') arguments) (hlabel : Untouched label) :
    Leaves (function ++ (group arguments ++ label))
      (function ++ (group (withoutBlocks (some '(') arguments) ++ label)) := by
  intro before tail _ htail
  refine ⟨label.getLast?.or (some ')'), ?_⟩
  rw [List.append_assoc, List.append_assoc, withoutBlocks_append (hfunction before _ (.inr rfl)),
    withoutBlocks_group hblocks, withoutBlocks_append (hlabel _ tail (.inr htail))]
  simp only [List.append_assoc]

/-- An item is read as its grammar says. -/
theorem IsItem.exists_left (h : IsItem item field) :
    ∃ left, Leaves item left ∧ Unsplit ',' left ∧ fieldOfItem? left = field := by
  cases h with
  | @field name label hname hlabel =>
    exact ⟨name ++ label, (hname.untouched.append hlabel.untouched (.inr hlabel.ends)).leaves,
      (unsplit_comma_of_isPath hname.isPath).append hlabel.unsplit,
      fieldOfItem?_label hname.isPath hlabel.isPath⟩
  | @wrapped function front name back label hfunction hfront hname hback hlabel =>
    have hplain := isPlainName_of_isWrapper hfunction
    have hbalanced := isBalanced_argument hfront hname.isPath hback
    have hargument : Untouched (front ++ (name ++ back)) :=
      (untouched_of_allBlank hfront).append
        ((hname.untouched List.mem_cons_self).append (untouched_of_allBlank hback)
          (.inr (wordAt_head?_of_allBlank hback))) (.inl (wordAt_getLast?_of_allBlank hfront))
    have hcall := hargument.group.append hlabel.untouched (.inr hlabel.ends)
    refine ⟨_, (hplain.untouched.append hcall (.inr rfl)).leaves,
      unsplit_call hplain hbalanced hlabel, ?_⟩
    have htrim := trim_append hfront (isTrim_of_isPath hname.isPath) hback
    rw [fieldOfItem?_call hplain.isPath hbalanced hlabel.isPath,
      htrim, if_pos ⟨hfunction, hname.isPath⟩]
  | call hfunction hbalanced hblocks hother hlabel =>
    have hleft := (hblocks.depthAfter?_eq 0).trans hbalanced
    refine ⟨_, leaves_call hfunction.untouched hblocks hlabel.untouched,
      unsplit_call hfunction hleft hlabel, ?_⟩
    rw [fieldOfItem?_call hfunction.isPath hleft hlabel.isPath]
    exact if_neg fun ⟨hwrapper, hpath⟩ => Bool.false_ne_true ((hother hwrapper).symm.trans hpath)
  | wildcard =>
    exact ⟨['*'], (untouched_of_lacks (by decide)).leaves,
      unsplit_of_isFlat (by decide) (by decide), by decide⟩
  | @subquery query hbalanced hblocks =>
    refine ⟨group (withoutBlocks (some '(') query), fun before tail _ _ =>
      ⟨_, withoutBlocks_group hblocks before tail⟩,
      unsplit_group ((hblocks.depthAfter?_eq 0).trans hbalanced), fieldOfItem?_group _⟩
  | block hblock =>
    exact ⟨[], fun before tail hbefore htail => ⟨_, hblock.withoutBlocks_append hbefore htail⟩,
      unsplit_of_isFlat (by decide) (by decide), by decide⟩

/-! ## Lists -/

theorem fieldOfItem?_cons_space (cs : List Char) : fieldOfItem? (' ' :: cs) = fieldOfItem? cs := by
  have hwords : Text.words (' ' :: cs) = Text.words cs := words_append_cons rfl [] cs
  have hcollapse : collapse (' ' :: cs) = collapse cs := by rw [collapse, hwords, collapse]
  unfold fieldOfItem?
  rw [hcollapse]

section Lists

variable {items : List (List Char × Option (List Char))}

theorem joined_singleton (text : List Char) : joined ", " [text] = text :=
  List.intercalate_singleton

theorem joined_cons_cons (first next : List Char) (texts : List (List Char)) :
    joined ", " (first :: next :: texts) =
      first ++ (", ".toList ++ joined ", " (next :: texts)) := by
  rw [joined, List.intercalate_cons_cons, List.append_assoc, joined]

theorem passedOver_joined (h : ∀ item ∈ items, IsItem item.1 item.2) :
    PassedOver (joined ", " (items.map Prod.fst)) := by
  have hcomma : PassedOver ", ".toList := LacksFrom.passedOver (by decide) (by decide)
  induction items with
  | nil => exact passedOver_of_allBlank (by decide)
  | cons item items ih =>
    have hitem := (h item List.mem_cons_self).passedOver
    have hitems := ih fun item hmem => h item (List.mem_cons_of_mem _ hmem)
    cases items with
    | nil => rwa [List.map_singleton, joined_singleton]
    | cons next items =>
      rw [List.map_cons, List.map_cons, joined_cons_cons]
      exact hitem.append (hcomma.append hitems (.inl rfl)) (.inr rfl)

theorem isTrim_joined (h : ∀ item ∈ items, IsItem item.1 item.2) :
    IsTrim (joined ", " (items.map Prod.fst)) := by
  have hall : IsTrim (joined ", " (items.map Prod.fst)) ∧
      (items ≠ [] → joined ", " (items.map Prod.fst) ≠ []) := by
    induction items with
    | nil => exact ⟨⟨rfl, rfl⟩, fun hne => absurd rfl hne⟩
    | cons item items ih =>
      have hitem := h item List.mem_cons_self
      obtain ⟨htrim, hne⟩ := ih fun item hmem => h item (List.mem_cons_of_mem _ hmem)
      cases items with
      | nil =>
        rw [List.map_singleton, joined_singleton]
        exact ⟨hitem.isTrim, fun _ => hitem.ne_nil⟩
      | cons next items =>
        rw [List.map_cons, List.map_cons, joined_cons_cons]
        exact ⟨hitem.isTrim.append hitem.ne_nil htrim (hne (List.cons_ne_nil _ _)) _,
          fun _ => List.append_ne_nil_of_left_ne_nil hitem.ne_nil _⟩
  exact hall.1

/-- A text that is left in front of a comma is an item on its own. -/
theorem splitTopLevel_comma (h : Unsplit ',' left) (cs : List Char) :
    (splitTopLevel ',' (left ++ (", ".toList ++ cs))).filterMap fieldOfItem? =
      (fieldOfItem? left).toList ++ (splitTopLevel ',' cs).filterMap fieldOfItem? := by
  have hspace : Unsplit ',' [' '] := unsplit_of_isFlat (by decide) (by decide)
  have hrest : splitTopLevel ',' (", ".toList ++ cs) = [] :: splitTopLevel ',' ([' '] ++ cs) := rfl
  have hblank : ∀ parts : List (List Char),
      (parts.modifyHead ([' '] ++ ·)).filterMap fieldOfItem? = parts.filterMap fieldOfItem? := by
    intro parts
    cases parts with
    | nil => rfl
    | cons part parts =>
      rw [List.modifyHead_cons, List.filterMap_cons, List.filterMap_cons, List.singleton_append,
        fieldOfItem?_cons_space]
  rw [h, hrest, hspace, List.modifyHead_cons, List.append_nil, List.filterMap_cons, hblank]
  cases fieldOfItem? left <;> rfl

/-- The items of a list are read one by one. -/
theorem filterMap_splitTopLevel (h : ∀ item ∈ items, IsItem item.1 item.2)
    (hbefore : wordAt before = false) :
    (splitTopLevel ',' (withoutBlocks before (joined ", " (items.map Prod.fst)))).filterMap
      fieldOfItem? = items.filterMap Prod.snd := by
  have hcomma : Untouched ", ".toList := untouched_of_lacks (by decide)
  induction items generalizing before with
  | nil => exact (by decide : [([] : List Char)].filterMap fieldOfItem? = [])
  | cons item items ih =>
    obtain ⟨left, hleaves, hunsplit, hfield⟩ := (h item List.mem_cons_self).exists_left
    have ih := fun before => @ih before fun item hmem => h item (List.mem_cons_of_mem _ hmem)
    have hcons : (item :: items).filterMap Prod.snd =
        item.2.toList ++ items.filterMap Prod.snd := by
      rw [List.filterMap_cons]
      cases item.2 <;> rfl
    cases items with
    | nil =>
      obtain ⟨last, hlast⟩ := hleaves before [] hbefore rfl
      have hnil : withoutBlocks last [] = [] := rfl
      have hone : splitTopLevel ',' (left ++ []) = [left ++ []] := hunsplit []
      rw [List.append_nil] at hlast
      rw [List.map_singleton, joined_singleton, hlast, hnil, hone, List.append_nil,
        List.filterMap_cons, hfield, List.filterMap_cons]
      rfl
    | cons next items =>
      obtain ⟨last, hlast⟩ := hleaves before
        (", ".toList ++ joined ", " (next.1 :: items.map Prod.fst)) hbefore rfl
      rw [List.map_cons, List.map_cons, joined_cons_cons, hlast,
        withoutBlocks_append (hcomma last _ (.inl rfl)), splitTopLevel_comma hunsplit, hfield,
        ← List.map_cons, ih _ rfl, hcons]

/-- A list is read as its grammar says. -/
theorem exists_head?_fragments {object post : List Char}
    (h : ∀ item ∈ items, IsItem item.1 item.2) (hobject : Name.isSegment object = true)
    (hpost : Name.Stops post) :
    ∃ fragment,
      (fragments ("SELECT ".toList ++ joined ", " (items.map Prod.fst) ++ " FROM ".toList ++
        object ++ post)).head? = some fragment ∧
      fragment.source = String.ofList object ∧
      fragment.fields = (items.filterMap Prod.snd).eraseDups.map String.ofList := by
  obtain ⟨more, hmore⟩ := exists_fragments (passedOver_joined h) (isTrim_joined h) hobject hpost
  refine ⟨⟨String.ofList (joined ", " (items.map Prod.fst)), String.ofList object⟩, ?_, rfl, ?_⟩
  · rw [List.append_assoc, List.append_assoc, List.append_assoc, hmore, List.head?_cons]
  · rw [Fragment.fields, fieldsOf, String.toList_ofList, replaceAll_typeofMatcher,
      filterMap_splitTopLevel h rfl]

end Lists

end SelectList

/-! ## Compiled queries -/

open SelectList

namespace Query

variable {q : Query}

/-- Behind the name of the object something else than a name follows. -/
theorem stops_behind_object (q : Query) : Name.Stops (q.whereText ++ q.back) := by
  obtain ⟨word, rest, hback, -⟩ := exists_back q
  rw [whereText]
  split_ifs
  · rw [hback]
    rfl
  · rfl

/-- The items of the list of fields. -/
def items (q : Query) : List (List Char × Option (List Char)) :=
  q.fields.map fun field => (field.toList, some field.toList)

theorem isItem_of_mem_items (hfields : ∀ field ∈ q.fields, IsPlainName field.toList)
    {item : List Char × Option (List Char)} (hitem : item ∈ q.items) : IsItem item.1 item.2 := by
  obtain ⟨field, hfield, rfl⟩ := List.mem_map.1 hitem
  have hname := IsItem.field (hfields field hfield) .none
  rwa [List.append_nil] at hname

theorem fields_of_items (hnodup : q.fields.Nodup) :
    (q.items.filterMap Prod.snd).eraseDups.map String.ofList = q.fields := by
  have hnames : q.items.filterMap Prod.snd = q.fields.map String.toList := by
    have hsnd : (Prod.snd ∘ fun field : String => (field.toList, some field.toList)) =
        some ∘ String.toList := rfl
    rw [items, List.filterMap_map, hsnd, List.filterMap_eq_map]
  have hinj : (q.fields.map String.toList).Nodup :=
    hnodup.map fun _ _ h => String.toList_injective h
  rw [hnames, eraseDups_of_nodup hinj, List.map_map]
  exact (List.map_congr_left fun _ _ => String.ofList_toList).trans (List.map_id _)

/-- A query whose fields have none of the words of the grammar for a segment is read back. -/
theorem exists_head?_fragments (hobject : Name.isObject q.object = true)
    (hfields : ∀ field ∈ q.fields, IsPlainName field.toList) (hnodup : q.fields.Nodup) :
    ∃ fragment, (fragments q.text).head? = some fragment ∧ fragment.source = q.object ∧
      fragment.fields = q.fields := by
  have hlist : q.items.map Prod.fst = q.fields.map String.toList := by
    rw [items, List.map_map]
    rfl
  have hitems : ∀ item ∈ q.items, IsItem item.1 item.2 := fun _ => isItem_of_mem_items hfields
  obtain ⟨fragment, hhead, hsource, hfragment⟩ :=
    SelectList.exists_head?_fragments hitems hobject (stops_behind_object q)
  have htext : "SELECT ".toList ++ joined ", " (q.items.map Prod.fst) ++ " FROM ".toList ++
      q.object.toList ++ (q.whereText ++ q.back) = q.text := by
    rw [hlist]
    exact (text_eq q).symm
  rw [htext] at hhead
  refine ⟨fragment, hhead, ?_, ?_⟩
  · rw [hsource, String.ofList_toList]
  · rw [hfragment, fields_of_items hnodup]

end Query

/-- Behind a `SELECT` a list of items is read as its grammar says, whatever follows the name of the
    object: it is the first list found, with this object, and its fields are those of the items that
    are a field or a wrapper of one, each once. So the first list in the text of a compiled query
    has the object and the fields of the query, if no word of the grammar is a segment of a field. -/
theorem selected_fields_read :
    (∀ (items : List (List Char × Option (List Char))) (object post : List Char),
      (∀ item ∈ items, IsItem item.1 item.2) → Name.isSegment object = true → Name.Stops post →
        ∃ fragment,
          (fragments ("SELECT ".toList ++ joined ", " (items.map Prod.fst) ++ " FROM ".toList ++
            object ++ post)).head? = some fragment ∧
          fragment.source = String.ofList object ∧
          fragment.fields = (items.filterMap Prod.snd).eraseDups.map String.ofList) ∧
    ∀ (view : View) (options : CompileOptions) (request : Request) (c : Compiled),
      compile view options request = .ok c → Name.isObject c.query.object = true →
        (∀ field ∈ c.query.fields, IsPlainName field.toList) →
        ∃ fragment, (fragments c.text.toList).head? = some fragment ∧
          fragment.source = c.query.object ∧ fragment.fields = c.query.fields := by
  constructor
  · intro items object post hitems hobject hpost
    exact SelectList.exists_head?_fragments hitems hobject hpost
  · intro view options request c hcompile hobject hfields
    obtain ⟨refused, unsorted, haccount⟩ := exists_accounts_of_ok hcompile
    have hnodup : c.query.fields.Nodup := by
      rw [haccount.fields]
      exact nodup_eraseDups _
    rw [Compiled.text, String.toList_ofList]
    exact Query.exists_head?_fragments hobject hfields hnodup

/-- Items of each kind. -/
def SelectList.opportunityItems : List (List Char × Option (List Char)) :=
  [("Id".toList, some "Id".toList), ("toLabel( StageName ) stage".toList, some "StageName".toList),
    ("COUNT(Id) n".toList, none), ("*".toList, none),
    ("(SELECT LastName, Email FROM Contacts)".toList, none),
    ("TYPEOF What WHEN Account THEN Phone, Fax END".toList, none),
    ("Account.Name acct".toList, some "Account.Name".toList), ("Id own".toList, some "Id".toList)]

theorem SelectList.isItem_of_mem_opportunityItems :
    ∀ item ∈ opportunityItems, IsItem item.1 item.2 := by
  have hblank : AllBlank [' '] := by decide
  have hlabel : ∀ {name : List Char}, IsPlainName name → IsLabel IsPlainName (' ' :: name) :=
    fun hname => .some (List.cons_ne_nil ' ' []) hblank hname
  simp only [opportunityItems, List.forall_mem_cons]
  refine ⟨?_, ?_, ?_, .wildcard, ?_, ?_, ?_, ?_, fun _ h => absurd h List.not_mem_nil⟩
  · exact @IsItem.field "Id".toList [] (by decide) .none
  · exact @IsItem.wrapped "toLabel".toList [' '] "StageName".toList [' '] " stage".toList
      (by decide) hblank (by decide) hblank (hlabel (by decide))
  · exact @IsItem.call "COUNT".toList "Id".toList " n".toList (by decide) (by decide)
      (opensBlocks_of_lacks (by decide) _) (fun h => absurd h (by decide)) (hlabel (by decide))
  · exact @IsItem.subquery "SELECT LastName, Email FROM Contacts".toList (by decide)
      (opensBlocks_of_lacks (by decide) _)
  · exact .block (@IsBlock.intro "TYPEOF".toList " What WHEN Account THEN Phone, Fax ".toList
      "END".toList (by decide) (by decide) (by decide) (by decide) (by decide) (by decide)
      (by decide)) (by decide)
  · exact @IsItem.field "Account.Name".toList " acct".toList (by decide) (hlabel (by decide))
  · exact @IsItem.field "Id".toList " own".toList (by decide) (hlabel (by decide))

/-- A list with items of each kind, and the list of a compiled query. -/
theorem opportunities_read :
    ((∀ item ∈ opportunityItems, IsItem item.1 item.2) ∧
      Name.isSegment "Opportunity".toList = true ∧ Name.Stops " WHERE Amount > 5".toList ∧
      ∃ fragment,
        (fragments ("SELECT ".toList ++ joined ", " (opportunityItems.map Prod.fst) ++
          " FROM ".toList ++ "Opportunity".toList ++ " WHERE Amount > 5".toList)).head? =
            some fragment ∧
        fragment.source = "Opportunity" ∧
        fragment.fields = ["Id", "StageName", "Account.Name"]) ∧
    ∃ c, compile .accountNames {} (.namesLike ["x"]) = .ok c ∧
      Name.isObject c.query.object = true ∧
      (∀ field ∈ c.query.fields, IsPlainName field.toList) ∧
      ∃ fragment, (fragments c.text.toList).head? = some fragment ∧
        fragment.source = "Account" ∧ fragment.fields = ["Name"] := by
  have hquery : ∃ c, compile .accountNames {} (.namesLike ["x"]) = .ok c ∧
      c.query.object = "Account" ∧ c.query.fields = ["Name"] := ⟨_, rfl, rfl, rfl⟩
  have hstops : Name.Stops " WHERE Amount > 5".toList := by decide
  have hobject : Name.isSegment "Opportunity".toList = true := by decide
  have hitems := isItem_of_mem_opportunityItems
  constructor
  · obtain ⟨fragment, hhead, hsource, hfields⟩ :=
      selected_fields_read.1 opportunityItems _ _ hitems hobject hstops
    exact ⟨hitems, hobject, hstops, fragment, hhead, hsource, hfields.trans (by decide)⟩
  · obtain ⟨c, hc, hcobject, hcfields⟩ := hquery
    have hname : Name.isObject c.query.object = true := by
      rw [hcobject]
      decide
    have hplain : ∀ field ∈ c.query.fields, IsPlainName field.toList := by
      rw [hcfields]
      decide
    obtain ⟨fragment, hhead, hsource, hfields⟩ := selected_fields_read.2 _ _ _ c hc hname hplain
    exact ⟨c, hc, hname, hplain, fragment, hhead, hsource.trans hcobject, hfields.trans hcfields⟩

end QueryGate
