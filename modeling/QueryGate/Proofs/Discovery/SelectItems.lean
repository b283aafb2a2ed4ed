import QueryGate.Discovery.SelectList
import QueryGate.Proofs.Discovery.ClauseEnds
import QueryGate.Proofs.Text.Nesting

/-!
# Items of select lists

An item is read up to the first blank outside of parentheses (`fieldOfItem?_of_collapse`).
So a call with blanks before its parenthesis is taken for a field with the name of the
function and a label behind it, while all other calls name a field just if the function
is a wrapper and its argument is a field (`call_read`).
-/

namespace QueryGate

open Text

namespace SelectList

variable {separator c : Char} {cs ds rest front back : List Char} {depth depth' : ℕ}

/-! ## Splitting outside of parentheses -/

theorem splitOutside_ne_nil (separator : Char) (depth : ℤ) (cs : List Char) :
    splitOutside separator depth cs ≠ [] := by
  have hcons : ∀ c parts, consFirst c parts ≠ [] := fun c parts => by
    cases parts <;> exact List.cons_ne_nil _ _
  cases cs with
  | nil => exact List.cons_ne_nil _ _
  | cons c cs =>
    rw [splitOutside]
    split_ifs
    · exact hcons _ _
    · exact hcons _ _
    · exact List.cons_ne_nil _ _
    · exact hcons _ _

/-- A text that belongs to the first piece of a text that starts with it. -/
def Unsplit (separator : Char) (cs : List Char) : Prop :=
  ∀ rest, splitTopLevel separator (cs ++ rest) =
    (splitTopLevel separator rest).modifyHead (cs ++ ·)

theorem consFirst_splitOutside (separator c : Char) (depth : ℤ) (cs : List Char) :
    consFirst c (splitOutside separator depth cs) =
      (splitOutside separator depth cs).modifyHead (c :: ·) :=
  consFirst_eq_modifyHead (splitOutside_ne_nil separator depth cs) c

theorem Unsplit.append (hcs : Unsplit separator cs) (hds : Unsplit separator ds) :
    Unsplit separator (cs ++ ds) := by
  intro rest
  rw [List.append_assoc, hcs, hds, List.modifyHead_modifyHead]
  congr 1
  funext piece
  exact (List.append_assoc cs ds piece).symm

/-- A text without parentheses is unsplit if it does not hold the separator. -/
theorem unsplit_of_isFlat (hflat : IsFlat cs) (h : separator ∉ cs) : Unsplit separator cs := by
  intro rest
  induction cs with
  | nil =>
    rw [List.nil_append]
    cases splitTopLevel separator rest <;> rfl
  | cons c cs ih =>
    obtain ⟨hopen, hclose⟩ := hflat c List.mem_cons_self
    rw [List.mem_cons, not_or] at h
    have ih := ih (fun d hd => hflat d (List.mem_cons_of_mem _ hd)) h.2
    rw [List.cons_append, splitTopLevel, splitOutside, if_neg hopen, if_neg hclose,
      if_neg fun hsep => h.1 hsep.1.symm, consFirst_splitOutside, ← splitTopLevel, ih,
      List.modifyHead_modifyHead]
    rfl

/-- Within parentheses nothing is split. -/
theorem splitOutside_nested (h : depthAfter? depth cs = some depth') (rest : List Char) :
    splitOutside separator (depth + 1) (cs ++ rest) =
      (splitOutside separator (depth' + 1) rest).modifyHead (cs ++ ·) := by
  induction cs generalizing depth with
  | nil =>
    obtain rfl := Option.some.inj h
    rw [List.nil_append]
    cases splitOutside separator (depth + 1) rest <;> rfl
  | cons c cs ih =>
    rw [depthAfter?] at h
    rw [List.cons_append, splitOutside]
    split_ifs at h with hopen hclose hzero
    · have hdepth : (depth : ℤ) + 1 + 1 = ((depth + 1 : ℕ) : ℤ) + 1 := by push_cast; rfl
      rw [if_pos hopen, consFirst_splitOutside, hdepth, ih h, List.modifyHead_modifyHead]
      rfl
    · have hdepth : (depth : ℤ) + 1 - 1 = ((depth - 1 : ℕ) : ℤ) + 1 := by omega
      rw [if_neg hopen, if_pos hclose, consFirst_splitOutside, hdepth, ih h,
        List.modifyHead_modifyHead]
      rfl
    · rw [if_neg hopen, if_neg hclose, if_neg fun hsep => by omega, consFirst_splitOutside, ih h,
        List.modifyHead_modifyHead]
      rfl

/-- A text in parentheses. -/
def group (cs : List Char) : List Char := '(' :: (cs ++ [')'])

/-- What stands in parentheses is unsplit, together with them. -/
theorem unsplit_group (h : IsBalanced cs) : Unsplit separator (group cs) := by
  intro rest
  have hopen : splitTopLevel separator (group cs ++ rest) =
      consFirst '(' (splitOutside separator ((0 : ℕ) + 1) (cs ++ ')' :: rest)) := by
    rw [group, List.cons_append, List.append_assoc]
    rfl
  have hclose : splitOutside separator ((0 : ℕ) + 1) (')' :: rest) =
      consFirst ')' (splitTopLevel separator rest) := rfl
  rw [hopen, consFirst_splitOutside, splitOutside_nested h, hclose, splitTopLevel,
    consFirst_splitOutside, List.modifyHead_modifyHead, List.modifyHead_modifyHead]
  congr 1
  funext piece
  simp [group]

/-! ## Expressions -/

/-- Whether a function only changes how its argument is shown. -/
def isWrapper (function : List Char) : Bool := wrappers.any fun w => sameLetters function w.toList

/-- The field that an expression names. -/
def fieldOf? (expression : List Char) : Option (List Char) :=
  if Name.isPath expression then some expression else unwrap? expression

/-- An item is read as the expression that its text starts with, up to a space. -/
theorem fieldOfItem?_of_collapse {item expression label : List Char}
    (hitem : collapse item = expression ++ label) (hne : expression ≠ [])
    (hopen : expression.head? ≠ some '(') (htrim : IsTrim expression)
    (hunsplit : Unsplit ' ' expression) (hlabel : label = [] ∨ ∃ rest, label = ' ' :: rest) :
    fieldOfItem? item = fieldOf? expression := by
  have hhead : (expression ++ label).head? ≠ some '(' := by
    rwa [List.head?_append_of_ne_nil _ hne]
  obtain ⟨more, hmore⟩ : ∃ more, splitTopLevel ' ' (expression ++ label) = expression :: more := by
    rw [hunsplit]
    rcases hlabel with rfl | ⟨rest, rfl⟩
    · exact ⟨[], congrArg (fun piece => [piece]) (List.append_nil expression)⟩
    · exact ⟨splitTopLevel ' ' rest,
        congrArg (fun piece => piece :: _) (List.append_nil expression)⟩
  have hfind : (expression :: more.map trim).find? (fun part => !part.isEmpty) = some expression :=
    List.find?_cons_of_pos (by simp [hne])
  dsimp only [fieldOfItem?]
  rw [hitem, if_neg hhead, hmore, List.map_cons, htrim.trim_eq, hfind]
  rfl

/-! ## Labels -/

/-- What may stand behind an expression: nothing, or a label with blanks before it. -/
inductive IsLabel (allowed : List Char → Prop) : List Char → Prop
  | none : IsLabel allowed []
  | some {gap name : List Char} (hne : gap ≠ []) (hgap : AllBlank gap) (hname : allowed name) :
    IsLabel allowed (gap ++ name)

theorem IsLabel.mono {allowed more : List Char → Prop} {label : List Char}
    (h : IsLabel allowed label) (hmore : ∀ name, allowed name → more name) :
    IsLabel more label := by
  cases h with
  | none => exact .none
  | some hne hgap hname => exact .some hne hgap (hmore _ hname)

/-- Names hold neither blanks nor what parts items. -/
theorem isPlain_of_isPath {name : List Char} (h : Name.isPath name = true) {c : Char}
    (hc : c ∈ name) : isBlank c = false ∧ c ≠ '(' ∧ c ≠ ')' ∧ c ≠ ',' := by
  have hfield : Name.isField (String.ofList name) = true := Name.isField_ofList.trans h
  have hplain := Name.isPlain_of_isField hfield
  have htoken := hplain.token c (by rwa [String.toList_ofList])
  simp only [isDelimiter, Bool.or_eq_false_iff, beq_eq_false_iff_ne] at htoken
  tauto

theorem ne_nil_of_isPath {name : List Char} (h : Name.isPath name = true) : name ≠ [] := by
  rintro rfl
  exact absurd h (by decide)

theorem isTrim_of_not_isBlank (h : ∀ c ∈ cs, isBlank c = false) : IsTrim cs where
  head := by
    cases cs with
    | nil => rfl
    | cons c cs => exact h c List.mem_cons_self
  last := last_not_isBlank h

/-! ## Names and labels -/

section Names

variable {name function arguments label : List Char}

theorem isTrim_of_isPath (h : Name.isPath name = true) : IsTrim name :=
  isTrim_of_not_isBlank fun _ hc => (isPlain_of_isPath h hc).1

theorem isFlat_of_isPath (h : Name.isPath name = true) : IsFlat name := fun _ hc =>
  ⟨(isPlain_of_isPath h hc).2.1, (isPlain_of_isPath h hc).2.2.1⟩

theorem space_not_mem_of_isPath (h : Name.isPath name = true) : ' ' ∉ name := fun hspace =>
  Bool.false_ne_true ((isPlain_of_isPath h hspace).1.symm.trans rfl)

theorem squeeze_of_isPath (h : Name.isPath name = true) : squeeze name = name :=
  squeeze_of_not_isBlank fun _ hc => (isPlain_of_isPath h hc).1

theorem head?_ne_of_isPath (h : Name.isPath name = true) (rest : List Char) :
    (name ++ rest).head? ≠ some '(' := by
  rw [List.head?_append_of_ne_nil name (ne_nil_of_isPath h)]
  exact fun hhead => (isFlat_of_isPath h '(' (List.mem_of_head? hhead)).1 rfl

/-- To squeeze a text neither makes nor spoils a name. -/
theorem isPath_squeeze (cs : List Char) : Name.isPath (squeeze cs) = Name.isPath cs := by
  by_cases hcs : ∀ c ∈ cs, isBlank c = false
  · rw [squeeze_of_not_isBlank hcs]
  · -- the blanks do not go away altogether
    have hspace : ' ' ∈ squeeze cs := space_mem_squeeze (by simpa using hcs)
    rw [Bool.eq_false_iff.2 fun h => space_not_mem_of_isPath h hspace, eq_comm, Bool.eq_false_iff]
    exact fun h => hcs fun c hc => (isPlain_of_isPath h hc).1

/-- A label is squeezed to a name with one space before it. -/
theorem IsLabel.squeeze_cases (h : IsLabel (Name.isPath · = true) label) :
    squeeze label = [] ∨ ∃ rest, squeeze label = ' ' :: rest := by
  cases h with
  | none => exact .inl rfl
  | @some gap name hne hgap hname =>
    refine .inr ⟨squeeze name, ?_⟩
    rw [squeeze_append (.inr (isTrim_of_isPath hname).head), squeeze_of_allBlank hgap,
      if_neg (by simpa using hne)]
    rfl

/-- A label neither brings nor takes blanks at the ends of a text. -/
theorem IsLabel.isTrim_append (h : IsLabel (Name.isPath · = true) label) {cs : List Char}
    (hcs : IsTrim cs) (hne : cs ≠ []) : IsTrim (cs ++ label) := by
  cases h with
  | none => rwa [List.append_nil]
  | some hgapne hgap hname =>
    exact hcs.append hne (isTrim_of_isPath hname) (ne_nil_of_isPath hname) _

/-- A name with a blank behind it is read as a field. -/
theorem fieldOfItem?_of_isPath {item rest : List Char} (hname : Name.isPath name = true)
    (hitem : collapse item = name ++ rest) (hrest : rest = [] ∨ ∃ more, rest = ' ' :: more) :
    fieldOfItem? item = some name := by
  rw [fieldOfItem?_of_collapse hitem (ne_nil_of_isPath hname)
    (by simpa using head?_ne_of_isPath hname []) (isTrim_of_isPath hname)
    (unsplit_of_isFlat (isFlat_of_isPath hname) (space_not_mem_of_isPath hname)) hrest, fieldOf?,
    if_pos hname]

theorem fieldOfItem?_label (hname : Name.isPath name = true)
    (hlabel : IsLabel (Name.isPath · = true) label) : fieldOfItem? (name ++ label) = some name := by
  have hcollapse : collapse (name ++ label) = name ++ squeeze label := by
    rw [(hlabel.isTrim_append (isTrim_of_isPath hname) (ne_nil_of_isPath hname)).collapse_eq,
      squeeze_append (.inl (isTrim_of_isPath hname).last), squeeze_of_isPath hname]
  exact fieldOfItem?_of_isPath hname hcollapse hlabel.squeeze_cases

end Names

/-! ## Calls -/

section Calls

variable {function gap arguments label : List Char}

theorem getLast?_group (front cs : List Char) : (front ++ group cs).getLast? = some ')' := by
  rw [group, ← List.cons_append, ← List.append_assoc, List.getLast?_concat]

theorem takeWhile_group {p : Char → Bool} (hfunction : ∀ c ∈ function, p c = true)
    (hopen : p '(' = false) (arguments : List Char) :
    (function ++ group arguments).takeWhile p = function := by
  rw [List.takeWhile_append_of_pos hfunction, group, List.takeWhile_cons, hopen]
  exact List.append_nil function

/-- A call with no blank before its parenthesis names a field if the function is a wrapper and its
    argument is a field. -/
theorem fieldOf?_call (hfunction : Name.isPath function = true) (arguments : List Char) :
    fieldOf? (function ++ group arguments) =
      if isWrapper function = true ∧ Name.isPath (trim arguments) = true then some (trim arguments)
      else none := by
  have hpath : Name.isPath (function ++ group arguments) = false :=
    Bool.eq_false_iff.2 fun h =>
      (isFlat_of_isPath h '(' (List.mem_append_right function List.mem_cons_self)).1 rfl
  have htake : (function ++ group arguments).takeWhile (· != '(') = function :=
    takeWhile_group (fun c hc => bne_iff_ne.2 (isFlat_of_isPath hfunction c hc).1) rfl arguments
  have hdrop : (function ++ group arguments).drop (function.length + 1) = arguments ++ [')'] := by
    rw [List.drop_append, List.drop_eq_nil_of_le (Nat.le_succ _), Nat.add_sub_cancel_left]
    rfl
  have hlength : function.length < (function ++ group arguments).length := by simp [group]
  rw [fieldOf?, hpath, if_neg Bool.false_ne_true]
  dsimp only [unwrap?]
  rw [htake, hdrop, if_pos ⟨hlength, List.getLast?_concat⟩, List.dropLast_concat]
  rfl

theorem squeeze_group (cs : List Char) : squeeze (group cs) = group (squeeze cs) := by
  have hclose : squeeze (cs ++ [')']) = squeeze cs ++ [')'] := squeeze_append (.inr rfl)
  rw [group, squeeze_cons_of_not_isBlank rfl, hclose, group]

theorem isTrim_group (cs : List Char) : IsTrim (group cs) where
  head := rfl
  last := by
    rw [← List.nil_append (group cs), getLast?_group]
    rfl

theorem isTrim_call (hfunction : Name.isPath function = true) (gap arguments : List Char) :
    IsTrim (function ++ (gap ++ group arguments)) :=
  (isTrim_of_isPath hfunction).append (ne_nil_of_isPath hfunction) (isTrim_group arguments)
    (List.cons_ne_nil _ _) gap

/-- A text in parentheses names no field. -/
theorem fieldOfItem?_group (cs : List Char) : fieldOfItem? (group cs) = none := by
  dsimp only [fieldOfItem?]
  rw [(isTrim_group cs).collapse_eq, squeeze_group]
  rfl

/-- The blanks in a call are collapsed part by part. -/
theorem collapse_call (hfunction : Name.isPath function = true) (gap arguments : List Char)
    (hlabel : IsLabel (Name.isPath · = true) label) :
    collapse (function ++ (gap ++ (group arguments ++ label))) =
      function ++ (squeeze gap ++ (group (squeeze arguments) ++ squeeze label)) := by
  have htrim : IsTrim (function ++ (gap ++ group arguments) ++ label) :=
    hlabel.isTrim_append (isTrim_call hfunction gap arguments)
      (List.append_ne_nil_of_left_ne_nil (ne_nil_of_isPath hfunction) _)
  rw [List.append_assoc, List.append_assoc] at htrim
  have hopen : squeeze (gap ++ (group arguments ++ label)) =
      squeeze gap ++ squeeze (group arguments ++ label) := squeeze_append (.inr rfl)
  rw [htrim.collapse_eq, squeeze_append (.inl (isTrim_of_isPath hfunction).last),
    squeeze_of_isPath hfunction, hopen, squeeze_append (.inl (isTrim_group arguments).last),
    squeeze_group]

/-- A call with no blank before its parenthesis is read as a call. -/
theorem fieldOfItem?_call (hfunction : Name.isPath function = true)
    (harguments : IsBalanced arguments) (hlabel : IsLabel (Name.isPath · = true) label) :
    fieldOfItem? (function ++ (group arguments ++ label)) =
      if isWrapper function = true ∧ Name.isPath (trim arguments) = true then some (trim arguments)
      else none := by
  have hitem : collapse (function ++ (group arguments ++ label)) =
      (function ++ group (squeeze arguments)) ++ squeeze label := by
    rw [← List.nil_append (group arguments ++ label), collapse_call hfunction [] arguments hlabel,
      squeeze, List.nil_append, List.append_assoc]
  have htrim : IsTrim (function ++ group (squeeze arguments)) :=
    isTrim_call hfunction [] (squeeze arguments)
  have hunsplit : Unsplit ' ' (function ++ group (squeeze arguments)) :=
    (unsplit_of_isFlat (isFlat_of_isPath hfunction) (space_not_mem_of_isPath hfunction)).append
      (unsplit_group harguments.squeezed)
  rw [fieldOfItem?_of_collapse hitem
    (List.append_ne_nil_of_left_ne_nil (ne_nil_of_isPath hfunction) _)
    (head?_ne_of_isPath hfunction _) htrim hunsplit hlabel.squeeze_cases, fieldOf?_call hfunction,
    trim_squeeze, isPath_squeeze]
  split_ifs with hfield
  · rw [squeeze_of_isPath hfield.2]
  · rfl

/-- A call is read as a call if no blank stands before its parenthesis: it names a field if the
    function is a wrapper and its argument, without the blanks around it, is a field, and no field
    otherwise. With blanks before its parenthesis it is read as a field with the name of the
    function, whatever the arguments. -/
theorem call_read (hfunction : Name.isPath function = true) (harguments : IsBalanced arguments)
    (hgap : AllBlank gap) (hlabel : IsLabel (Name.isPath · = true) label) :
    fieldOfItem? (function ++ (gap ++ (group arguments ++ label))) =
      if gap = [] then
        if isWrapper function = true ∧ Name.isPath (trim arguments) = true then
          some (trim arguments)
        else none
      else some function := by
  split_ifs with hnil hfield
  · rw [hnil, List.nil_append, fieldOfItem?_call hfunction harguments hlabel, if_pos hfield]
  · rw [hnil, List.nil_append, fieldOfItem?_call hfunction harguments hlabel, if_neg hfield]
  · refine fieldOfItem?_of_isPath hfunction (collapse_call hfunction gap arguments hlabel) ?_
    rw [squeeze_of_allBlank hgap, if_neg (by simpa using hnil)]
    exact .inr ⟨_, rfl⟩

/-- A wrapper with blanks around its argument and with a label behind it, and an aggregate with a
    blank before its parenthesis. -/
theorem stageLabel_read :
    (Name.isPath "toLabel".toList = true ∧ IsBalanced " StageName ".toList ∧ AllBlank [] ∧
      IsLabel (Name.isPath · = true) " stage".toList ∧
      fieldOfItem? "toLabel( StageName ) stage".toList = some "StageName".toList) ∧
    Name.isPath "SUM".toList = true ∧ IsBalanced "FORMAT(Amount)".toList ∧ AllBlank " ".toList ∧
      IsLabel (Name.isPath · = true) [] ∧
      fieldOfItem? "SUM (FORMAT(Amount))".toList = some "SUM".toList := by
  have hgap : AllBlank [' '] := by decide
  have hstage : IsLabel (Name.isPath · = true) " stage".toList :=
    .some (List.cons_ne_nil ' ' []) hgap (by decide)
  refine ⟨⟨by decide, by decide, by decide, hstage, ?_⟩, by decide, by decide, by decide, .none, ?_⟩
  · exact @call_read "toLabel".toList [] " StageName ".toList " stage".toList (by decide)
      (by decide) (by decide) hstage
  · exact @call_read "SUM".toList " ".toList "FORMAT(Amount)".toList [] (by decide) (by decide)
      hgap .none

/-- So a function becomes the name of a field, though it is no wrapper and its argument does not
    matter. -/
theorem countFunction_read : isWrapper "COUNT".toList = false ∧
    fieldOfItem? "COUNT(Id)".toList = none ∧
    fieldOfItem? "COUNT (Id)".toList = some "COUNT".toList := by
  decide +kernel

end Calls

end SelectList

end QueryGate
