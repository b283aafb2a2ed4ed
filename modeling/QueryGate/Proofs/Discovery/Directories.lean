import Mathlib.Data.List.TakeWhile
import Mathlib.Tactic.SplitIfs
import QueryGate.Proofs.Discovery.ClauseEnds

/-!
# Directories and the objects they are named for

Of a directory name that starts with a letter, what stands before the first underscore
with a digit behind it is taken for the object (`beforeStamp?_eq`). So a name is read as
that of its object, alone or with a stamp, just if no part of it starts with a digit
(`directory_names_object`). Others lose the first such part and all behind it:
`Region_2_Sales__c` is read as `Region` (`numbered_object_cut`).
-/

namespace QueryGate

open Text

/-- No part of a text holds what it was split at. -/
theorem Text.eq_false_of_mem_splitWhere {p : Char → Bool} {cs part : List Char} {c : Char}
    (hpart : part ∈ splitWhere p cs) (hc : c ∈ part) : p c = false := by
  induction cs generalizing part with
  | nil =>
    obtain rfl := List.mem_singleton.1 hpart
    cases hc
  | cons d cs ih =>
    rw [splitWhere] at hpart
    split_ifs at hpart with hd
    · rcases List.mem_cons.1 hpart with rfl | hpart
      · cases hc
      · exact ih hpart hc
    · rcases eq_or_mem_of_mem_consFirst hpart hc with rfl | ⟨old, hold, hc⟩
      · exact Bool.eq_false_iff.2 hd
      · exact ih hold hc

namespace Name

/-! ## Parts of names -/

/-- The parts of a name, with the underscores between them. -/
def parts (cs : List Char) : List (List Char) := splitWhere (· == '_') cs

/-- Parts with underscores between them. -/
def joinParts (ps : List (List Char)) : List Char := ['_'].intercalate ps

/-- Whether a part starts with a digit. -/
def isNumbered (part : List Char) : Bool := part.head?.any Char.isDigit

/-- The name without its first numbered part and all that stands behind. -/
def unnumbered (cs : List Char) : List Char := joinParts ((parts cs).takeWhile (!isNumbered ·))

/-- Whether a name starts with a letter. -/
def startsWithLetter (cs : List Char) : Bool := cs.head?.any Char.isAlpha

variable {cs stamp first : List Char} {rest : List (List Char)}

theorem parts_eq_splitOn (cs : List Char) : parts cs = cs.splitOn '_' :=
  splitWhere_eq_splitOnP _ cs

theorem joinParts_parts (cs : List Char) : joinParts (parts cs) = cs := by
  rw [joinParts, parts_eq_splitOn, List.intercalate_splitOn]

theorem parts_append (cs stamp : List Char) :
    parts (cs ++ '_' :: stamp) = parts cs ++ parts stamp := by
  rw [parts_eq_splitOn, parts_eq_splitOn, parts_eq_splitOn]
  exact List.splitOnP_append_cons cs stamp rfl

theorem exists_parts (cs : List Char) : ∃ first rest, parts cs = first :: rest :=
  List.exists_cons_of_ne_nil (parts_eq_splitOn cs ▸ List.splitOn_ne_nil '_' cs)

theorem parts_cons_of_ne {c : Char} (hc : c ≠ '_') (h : parts cs = first :: rest) :
    parts (c :: cs) = (c :: first) :: rest := by
  rw [parts, splitWhere, if_neg (by simpa using hc), ← parts, h, consFirst]

theorem not_isDigit_of_isStart {c : Char} (h : isStart c = true) : c.isDigit = false := by
  refine Bool.eq_false_iff.2 fun hdigit => ?_
  obtain ⟨hlow, hhigh⟩ := Char.isDigit_iff_toNat.1 hdigit
  have hlow' : 48 ≤ c.toNat := hlow
  have hhigh' : c.toNat ≤ 57 := hhigh
  have hall : ∀ n ∈ List.range' 48 10, isStart (Char.ofNat n) = false := by decide
  have hc := hall c.toNat (List.mem_range'_1.2 ⟨hlow', by omega⟩)
  rw [Char.ofNat_toNat, h] at hc
  cases hc

/-- The first part of a name starts with no digit. -/
theorem not_isNumbered_first (h : isSegment cs = true) (hparts : parts cs = first :: rest) :
    isNumbered first = false := by
  cases cs with
  | nil => cases h
  | cons c cs =>
    by_cases hc : c = '_'
    · subst hc
      obtain rfl := (List.cons.inj hparts).1
      rfl
    · obtain ⟨first', rest', hparts'⟩ := exists_parts cs
      rw [parts_cons_of_ne hc hparts'] at hparts
      obtain rfl := (List.cons.inj hparts).1
      exact not_isDigit_of_isStart (Bool.and_eq_true_iff.1 h).1

theorem parts_joinParts {ps : List (List Char)} (hne : ps ≠ []) (h : ∀ part ∈ ps, '_' ∉ part) :
    parts (joinParts ps) = ps := by
  rw [parts_eq_splitOn, joinParts, List.splitOn_intercalate '_' h hne]

/-- A name loses nothing just if it has no numbered part. -/
theorem unnumbered_eq_self_iff (h : isSegment cs = true) :
    unnumbered cs = cs ↔ ∀ part ∈ parts cs, isNumbered part = false := by
  have hall : (parts cs).takeWhile (!isNumbered ·) = parts cs ↔
      ∀ part ∈ parts cs, isNumbered part = false := by
    rw [List.takeWhile_eq_self_iff]
    simp only [Bool.not_eq_true']
  rw [← hall]
  refine ⟨fun hself => ?_, fun hself => by rw [unnumbered, hself, joinParts_parts]⟩
  -- the name is made up of its parts again, and so those that are left are all of them
  obtain ⟨first, rest, hparts⟩ := exists_parts cs
  have hne : (parts cs).takeWhile (!isNumbered ·) ≠ [] := by
    rw [hparts, List.takeWhile_cons, not_isNumbered_first h hparts]
    exact List.cons_ne_nil _ _
  have hleft : ∀ part ∈ (parts cs).takeWhile (!isNumbered ·), '_' ∉ part := fun part hpart hmem =>
    absurd (eq_false_of_mem_splitWhere ((List.takeWhile_sublist _).subset hpart) hmem) (by decide)
  rw [← parts_joinParts hne hleft, ← unnumbered, hself]

/-! ## Stamps -/

/-- A stamp: it starts with a digit and goes on with letters, digits, colons, dots and dashes. -/
def IsPlainStamp (stamp : List Char) : Prop := isStamp stamp = true ∧ '_' ∉ stamp

instance (stamp : List Char) : Decidable (IsPlainStamp stamp) :=
  inferInstanceAs (Decidable (_ ∧ _))

theorem prefix_of_beforeStamp? {name : List Char} (h : beforeStamp? cs = some name) :
    name <+: cs := by
  induction cs generalizing name with
  | nil => cases h
  | cons c cs ih =>
    rw [beforeStamp?] at h
    split_ifs at h
    · cases h
      exact List.nil_prefix
    · obtain ⟨name', hname', rfl⟩ := Option.map_eq_some_iff.1 h
      exact List.cons_prefix_cons.2 ⟨rfl, ih hname'⟩

/-- What follows an underscore is a stamp if it starts with a digit, and all of it can stand in
    one. -/
theorem isStamp_eq (h : ∀ c ∈ cs, isStampPart c = true) (hparts : parts cs = first :: rest) :
    isStamp cs = isNumbered first := by
  cases cs with
  | nil =>
    obtain rfl := (List.cons.inj hparts).1
    rfl
  | cons c cs =>
    have hall : cs.all isStampPart = true :=
      List.all_eq_true.2 fun d hd => h d (List.mem_cons_of_mem _ hd)
    rw [isStamp, hall, Bool.and_true]
    by_cases hc : c = '_'
    · subst hc
      obtain rfl := (List.cons.inj hparts).1
      rfl
    · obtain ⟨first', rest', hparts'⟩ := exists_parts cs
      rw [parts_cons_of_ne hc hparts'] at hparts
      obtain rfl := (List.cons.inj hparts).1
      rfl

/-- A name is cut before its first part, from the second one on, that starts with a digit, if all of
    it can stand in a stamp. -/
theorem beforeStamp?_eq (h : ∀ c ∈ cs, isStampPart c = true) (hparts : parts cs = first :: rest) :
    beforeStamp? cs = if rest.any isNumbered then
      some (joinParts (first :: rest.takeWhile (!isNumbered ·))) else none := by
  induction cs generalizing first rest with
  | nil =>
    obtain ⟨rfl, rfl⟩ := List.cons.inj hparts
    rfl
  | cons c cs ih =>
    have htail : ∀ d ∈ cs, isStampPart d = true := fun d hd => h d (List.mem_cons_of_mem _ hd)
    obtain ⟨next, more, hnext⟩ := exists_parts cs
    rw [beforeStamp?, isStamp_eq htail hnext, ih htail hnext]
    by_cases hc : c = '_'
    · subst hc
      obtain ⟨rfl, rfl⟩ : [] = first ∧ parts cs = rest := List.cons.inj hparts
      rw [hnext, List.any_cons, List.takeWhile_cons]
      cases hnumbered : isNumbered next with
      | true => rfl
      | false =>
        cases more.any isNumbered with
        | true => rfl
        | false => rfl
    · rw [parts_cons_of_ne hc hnext] at hparts
      obtain ⟨rfl, rfl⟩ := List.cons.inj hparts
      rw [beq_eq_false_iff_ne.2 hc, Bool.false_and, if_neg Bool.false_ne_true]
      cases more.any isNumbered with
      | true => cases more.takeWhile (!isNumbered ·) <;> rfl
      | false => rfl

/-! ## Objects -/

theorem isStampPart_of_isPart {c : Char} (h : isPart c = true) : isStampPart c = true := by
  rw [isPart, Bool.or_eq_true] at h
  simp only [isStampPart, Bool.or_eq_true]
  tauto

theorem isStampPart_of_mem (h : isSegment cs = true) {c : Char} (hc : c ∈ cs) :
    isStampPart c = true := isStampPart_of_isPart (isPart_of_isSegment h hc)

/-- The first part of an object name is never lost. -/
theorem unnumbered_eq (h : isSegment cs = true) (hparts : parts cs = first :: rest) :
    unnumbered cs = joinParts (first :: rest.takeWhile (!isNumbered ·)) := by
  rw [unnumbered, hparts, List.takeWhile_cons, not_isNumbered_first h hparts]
  rfl

/-- Behind an object name, a stamp is cut off with the first numbered part of the name. -/
theorem beforeStamp?_append (h : isSegment cs = true) (hstamp : IsPlainStamp stamp) :
    beforeStamp? (cs ++ '_' :: stamp) = some (unnumbered cs) := by
  obtain ⟨first, rest, hparts⟩ := exists_parts cs
  obtain ⟨hstamp, hplain⟩ := hstamp
  cases stamp with
  | nil => cases hstamp
  | cons digit stamp =>
    rw [isStamp, Bool.and_eq_true, List.all_eq_true] at hstamp
    obtain ⟨hdigit, hstamp⟩ := hstamp
    have hdigitPart : isStampPart digit = true := by
      simp [isStampPart, Char.isAlphanum, hdigit]
    have hchars : ∀ c ∈ cs ++ '_' :: digit :: stamp, isStampPart c = true := by
      intro c hc
      rcases List.mem_append.1 hc with hc | hc
      · exact isStampPart_of_mem h hc
      rcases List.mem_cons.1 hc with rfl | hc
      · rfl
      rcases List.mem_cons.1 hc with rfl | hc
      · exact hdigitPart
      · exact hstamp c hc
    have hall : parts (cs ++ '_' :: digit :: stamp) = first :: (rest ++ [digit :: stamp]) := by
      rw [parts_append, hparts, parts_eq_splitOn (digit :: stamp),
        List.splitOn_eq_singleton hplain, List.cons_append]
    have hnumbered : isNumbered (digit :: stamp) = true := hdigit
    have hstop : (rest ++ [digit :: stamp]).takeWhile (!isNumbered ·) =
        rest.takeWhile (!isNumbered ·) := by
      have hnone : [digit :: stamp].takeWhile (!isNumbered ·) = [] :=
        List.takeWhile_cons_of_neg (by simp [hnumbered])
      rw [List.takeWhile_append, hnone, List.append_nil, ite_eq_right_iff]
      exact fun hlength => ((List.takeWhile_prefix _).eq_of_length hlength).symm
    rw [beforeStamp?_eq hchars hall, hstop, unnumbered_eq h hparts, List.any_append, List.any_cons,
      hnumbered, Bool.true_or, Bool.or_true, if_pos rfl]

theorem joinParts_prefix (first : List Char) {ps more : List (List Char)} (h : ps <+: more) :
    joinParts (first :: ps) <+: joinParts (first :: more) := by
  induction ps generalizing first more with
  | nil =>
    cases more with
    | nil => exact List.prefix_rfl
    | cons next more =>
      rw [joinParts, joinParts, List.intercalate_singleton, List.intercalate_cons_cons,
        List.append_assoc]
      exact List.prefix_append _ _
  | cons next ps ih =>
    obtain ⟨tail, rfl⟩ := h
    have hnext := ih next (List.prefix_append ps tail)
    rw [joinParts, joinParts, List.cons_append, List.intercalate_cons_cons,
      List.intercalate_cons_cons]
    exact (List.prefix_append_right_inj _).2 hnext

theorem unnumbered_prefix (h : isSegment cs = true) : unnumbered cs <+: cs := by
  obtain ⟨first, rest, hparts⟩ := exists_parts cs
  have hjoin := joinParts_prefix first (List.takeWhile_prefix (!isNumbered ·) (l := rest))
  rwa [← hparts, joinParts_parts, ← unnumbered_eq h hparts] at hjoin

theorem unnumbered_ne_nil (h : isSegment cs = true) (hletter : startsWithLetter cs = true) :
    unnumbered cs ≠ [] := by
  obtain ⟨first, rest, hparts⟩ := exists_parts cs
  cases cs with
  | nil => cases h
  | cons c cs =>
    have hc : c ≠ '_' := by
      rintro rfl
      exact Bool.false_ne_true hletter
    obtain ⟨first', rest', hparts'⟩ := exists_parts cs
    rw [unnumbered_eq h (parts_cons_of_ne hc hparts'), joinParts]
    cases rest'.takeWhile (!isNumbered ·) with
    | nil => exact List.cons_ne_nil _ _
    | cons next more => exact List.cons_ne_nil _ _

/-- What is left of a name is taken for an object if it starts with a letter. -/
theorem filter_unnumbered (h : isSegment cs = true) :
    (some (unnumbered cs)).filter (fun name => isSegment name && name.head?.any Char.isAlpha) =
      if startsWithLetter cs then some (unnumbered cs) else none := by
  rw [Option.filter_some]
  refine if_congr ?_ rfl rfl
  have hprefix := unnumbered_prefix h
  cases hname : unnumbered cs with
  | nil =>
    have hletter : ¬startsWithLetter cs = true := fun hletter =>
      unnumbered_ne_nil h hletter hname
    exact iff_of_false Bool.false_ne_true hletter
  | cons c name =>
    rw [hname] at hprefix
    obtain ⟨tail, rfl⟩ := hprefix
    have hsegment : isSegment (c :: name) = true := by
      rw [List.cons_append, isSegment, List.all_append, ← Bool.and_assoc, Bool.and_eq_true] at h
      exact h.1
    rw [hsegment, Bool.true_and]
    rfl

end Name

open Name

section Directories

variable {object : String}

theorem Name.toList_stamped (object stamp : String) :
    (object ++ "_" ++ stamp).toList = object.toList ++ '_' :: stamp.toList := by
  rw [String.toList_append, String.toList_append, List.append_assoc]
  rfl

/-- A directory that is named for an object that starts with a letter, alone or with a stamp, is
    read as named for what precedes the first numbered part of the name. -/
theorem Name.ofDirectory?_of_letter (h : isObject object = true)
    (hletter : startsWithLetter object.toList = true) :
    (∀ stamp : String, IsPlainStamp stamp.toList →
      ofDirectory? (object ++ "_" ++ stamp) = some (String.ofList (unnumbered object.toList))) ∧
    ofDirectory? object = some (String.ofList (unnumbered object.toList)) := by
  have hfilter := filter_unnumbered h
  rw [if_pos hletter] at hfilter
  constructor
  · intro stamp hstamp
    rw [ofDirectory?, ofStamped?, toList_stamped, beforeStamp?_append h hstamp, hfilter]
  · obtain ⟨first, rest, hparts⟩ := exists_parts object.toList
    rw [ofDirectory?, ofStamped?, beforeStamp?_eq (fun c => isStampPart_of_mem h) hparts,
      ← unnumbered_eq h hparts]
    split_ifs with hnumbered
    · rw [hfilter]
    · have hself : unnumbered object.toList = object.toList := by
        rw [unnumbered_eq_self_iff h, hparts]
        refine List.forall_mem_cons.2 ⟨not_isNumbered_first h hparts, fun part hpart => ?_⟩
        exact Bool.eq_false_iff.2 fun hpart' => hnumbered (List.any_eq_true.2 ⟨part, hpart, hpart'⟩)
      rw [Option.filter_none, hself, String.ofList_toList]

/-- A directory whose name does not start with a letter is read as named for an object of that very
    name, or for none. -/
theorem Name.ofDirectory?_of_not_letter {s : String}
    (hletter : startsWithLetter s.toList = false) :
    ofDirectory? s = if isObject s then some s else none := by
  have hnone : ofStamped? s.toList = none := by
    refine Option.filter_eq_none_iff.2 fun name hname => ?_
    obtain ⟨tail, htail⟩ := prefix_of_beforeStamp? hname
    cases name with
    | nil => exact Bool.false_ne_true
    | cons c name =>
      rw [← htail] at hletter
      have hc : c.isAlpha = false := hletter
      simp [hc]
  rw [ofDirectory?, hnone]

/-- A directory with the name of an object, and a stamp behind it, is read as named for the object
    just if the name starts with a letter and has no part that starts with a digit. Without a stamp
    this is so too, but names that start with an underscore are read as they are. Of other names
    that start with a letter, only what precedes the first numbered part is read. -/
theorem Name.directory_names_object (h : isObject object = true) :
    (∀ stamp : String, IsPlainStamp stamp.toList →
      (ofDirectory? (object ++ "_" ++ stamp) = some object ↔
        startsWithLetter object.toList = true ∧
          ∀ part ∈ parts object.toList, isNumbered part = false)) ∧
    (ofDirectory? object = some object ↔
      (startsWithLetter object.toList = true →
        ∀ part ∈ parts object.toList, isNumbered part = false)) ∧
    (startsWithLetter object.toList = true →
      (∀ stamp : String, IsPlainStamp stamp.toList →
        ofDirectory? (object ++ "_" ++ stamp) = some (String.ofList (unnumbered object.toList))) ∧
      ofDirectory? object = some (String.ofList (unnumbered object.toList))) := by
  have hself : some (String.ofList (unnumbered object.toList)) = some object ↔
      ∀ part ∈ parts object.toList, isNumbered part = false := by
    rw [← unnumbered_eq_self_iff h, Option.some_inj, ← String.toList_inj, String.toList_ofList]
  refine ⟨fun stamp hstamp => ?_, ?_, ofDirectory?_of_letter h⟩
  · cases hletter : startsWithLetter object.toList with
    | true =>
      rw [(ofDirectory?_of_letter h hletter).1 stamp hstamp, hself]
      exact (and_iff_right rfl).symm
    | false =>
      -- the name goes on behind the object, and so it is not that of the object
      have hall : startsWithLetter (object ++ "_" ++ stamp).toList = false := by
        rw [toList_stamped]
        cases hobject : object.toList with
        | nil => rfl
        | cons c cs => rwa [hobject] at hletter
      have hne : object ++ "_" ++ stamp ≠ object := fun heq => by
        have hlength := congrArg (fun s : String => s.toList.length) heq
        simp at hlength
      rw [ofDirectory?_of_not_letter hall]
      refine iff_of_false (fun heq => ?_) fun hand => Bool.false_ne_true hand.1
      split_ifs at heq
      exact hne (Option.some.inj heq)
  · cases hletter : startsWithLetter object.toList with
    | true =>
      rw [(ofDirectory?_of_letter h hletter).2, hself]
      exact ⟨fun hparts _ => hparts, fun hparts => hparts rfl⟩
    | false =>
      rw [ofDirectory?_of_not_letter hletter, if_pos h]
      exact iff_of_true rfl fun hfalse => absurd hfalse Bool.false_ne_true

/-- Underscores are no harm to a name, nor are digits within its parts. -/
theorem serviceRequest_found : Name.isObject "Service_Request2__c" = true ∧
    Name.IsPlainStamp "2024-05-01T12:00.5Z".toList ∧
    Name.ofDirectory? "Service_Request2__c_2024-05-01T12:00.5Z" = some "Service_Request2__c" ∧
    Name.ofDirectory? "Service_Request2__c" = some "Service_Request2__c" := by
  have hobject : Name.isObject "Service_Request2__c" = true := by decide
  have hstamp : Name.IsPlainStamp "2024-05-01T12:00.5Z".toList := by decide
  have hparts : ∀ part ∈ Name.parts "Service_Request2__c".toList, Name.isNumbered part = false := by
    decide
  obtain ⟨hstamped, hbare, -⟩ := Name.directory_names_object hobject
  exact ⟨hobject, hstamp, (hstamped _ hstamp).2 ⟨by decide, hparts⟩, hbare.2 fun _ => hparts⟩

/-- A part that starts with a digit cuts a name, though its last part starts with none; and a name
    that starts with an underscore is not found before a stamp. -/
theorem numbered_object_cut : Name.IsPlainStamp "2024-05-01".toList ∧
    (Name.isObject "Region_2_Sales__c" = true ∧
      (Name.parts "Region_2_Sales__c".toList).getLast?.any Name.isNumbered = false ∧
      Name.ofDirectory? "Region_2_Sales__c" = some "Region" ∧
      Name.ofDirectory? "Region_2_Sales__c_2024-05-01" = some "Region") ∧
    Name.isObject "_Audit" = true ∧ Name.ofDirectory? "_Audit_2024-05-01" = none := by
  decide

end Directories

end QueryGate
