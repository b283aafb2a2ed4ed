import QueryGate.Json.Printer
import QueryGate.Json.Reader
import QueryGate.Proofs.Json.Canonical
import QueryGate.Proofs.Number.Printing

/-!
# Printed values read back

What is printed on one line is read back as the value that was printed, if the numbers
in it are (`Printable.parse?_compact`). The reader is followed over the text of the
value, with any text behind it that may follow a value in a list or an object: strings
character by character (`exists_readString`), lists and objects item by item
(`exists_readItems`, `exists_readMembers`).
-/

namespace QueryGate.Json

/-! ## Strings -/

theorem readString_plain {c : Char} (hquote : c ≠ '"') (hslash : c ≠ '\\') (hc : 0x20 ≤ c.toNat)
    (cs : List Char) :
    readString (c :: cs) = (readString cs).map fun (units, rest) => (.char c :: units, rest) := by
  have hno : ¬(c.toNat < 0x20 ∨ c = '\\') := by
    rintro (h | h)
    · omega
    · exact hslash h
  rw [readString.eq_def]
  split
  · next h => cases h
  · next h => exact absurd (List.cons.inj h).1 hquote
  · next h => exact absurd (List.cons.inj h).1 hslash
  · next h => exact absurd (List.cons.inj h).1 hslash
  · next h =>
    obtain ⟨rfl, rfl⟩ := List.cons.inj h
    rw [if_neg hno]

theorem readString_short {c e : Char} (hshort : shortEscape? e = some c) (hu : e ≠ 'u')
    (cs : List Char) :
    readString ('\\' :: e :: cs) =
      (readString cs).map fun (units, rest) => (.char c :: units, rest) := by
  rw [readString.eq_def]
  split
  · next h => cases h
  · next h => cases h
  · next h => exact absurd (List.cons.inj (List.cons.inj h).2).1 hu
  · next h =>
    obtain ⟨rfl, rfl⟩ := List.cons.inj (List.cons.inj h).2
    rw [hshort]
    rfl
  · next hnot h =>
    obtain ⟨rfl, rfl⟩ := List.cons.inj h
    exact (hnot _ _ rfl rfl).elim

theorem hexNumber?_hexDigit : ∀ n < 0x20,
    hexNumber? ['0', '0', hexDigit (n / 16), hexDigit (n % 16)] = some n := by decide

theorem readString_code {n : ℕ} (hn : n < 0x20) (cs : List Char) :
    readString ('\\' :: 'u' :: '0' :: '0' :: hexDigit (n / 16) :: hexDigit (n % 16) :: cs) =
      (readString cs).map fun (units, rest) => (.code n :: units, rest) := by
  rw [readString, hexNumber?_hexDigit n hn]
  rfl

/-- A unit that is no half of a character stands for one, whatever follows it. -/
theorem unitsText?_code {c : Char} (hc : c.toNat < 0xD800) (units : List StringUnit) :
    unitsText? (.code c.toNat :: units) = (unitsText? units).map (c :: ·) := by
  have hhigh : isHighSurrogate c.toNat = false := by simp [isHighSurrogate]; omega
  have hlow : isLowSurrogate c.toNat = false := by simp [isLowSurrogate]; omega
  rw [unitsText?.eq_def]
  split <;> rename_i h
  · cases h
  · cases h
  · obtain ⟨⟨⟩, rfl⟩ := List.cons.inj h
    simp [hhigh, hlow, Char.ofNat_toNat]
  · obtain ⟨⟨⟩, rfl⟩ := List.cons.inj h
    simp [hhigh, hlow, Char.ofNat_toNat]

/-- A printed character is read as a unit that stands for it. -/
theorem exists_unit_of_escape (c : Char) : ∃ unit : StringUnit,
    (∀ cs, readString (escape c ++ cs) =
      (readString cs).map fun (units, rest) => (unit :: units, rest)) ∧
    ∀ units, unitsText? (unit :: units) = (unitsText? units).map (c :: ·) := by
  have hchar : ∀ units, unitsText? (.char c :: units) = (unitsText? units).map (c :: ·) :=
    fun _ => rfl
  have hshort : ∀ e, shortEscape? e = some c → e ≠ 'u' → ∀ cs,
      readString (['\\', e] ++ cs) =
        (readString cs).map fun (units, rest) => (.char c :: units, rest) :=
    fun _ he hu cs => readString_short he hu cs
  have hof : ∀ n, c.toNat = n → Char.ofNat n = c := by
    rintro _ rfl
    exact Char.ofNat_toNat c
  unfold escape
  split_ifs with hquote hslash hb hf hn hr ht hcode
  · exact ⟨.char c, hshort '"' (by rw [hquote]; rfl) (by decide), hchar⟩
  · exact ⟨.char c, hshort '\\' (by rw [hslash]; rfl) (by decide), hchar⟩
  · exact ⟨.char c, hshort 'b' (by rw [← hof _ hb]; rfl) (by decide), hchar⟩
  · exact ⟨.char c, hshort 'f' (by rw [← hof _ hf]; rfl) (by decide), hchar⟩
  · exact ⟨.char c, hshort 'n' (by rw [hn]; rfl) (by decide), hchar⟩
  · exact ⟨.char c, hshort 'r' (by rw [hr]; rfl) (by decide), hchar⟩
  · exact ⟨.char c, hshort 't' (by rw [ht]; rfl) (by decide), hchar⟩
  · exact ⟨.code c.toNat, fun cs => readString_code hcode cs, unitsText?_code (by omega)⟩
  · exact ⟨.char c, fun cs => readString_plain hquote hslash (by omega) cs, hchar⟩

/-- A printed string is read as units that stand for its characters, whatever follows it. -/
theorem exists_readString (cs : List Char) : ∃ units, unitsText? units = some cs ∧
    ∀ rest, readString (cs.flatMap escape ++ '"' :: rest) = some (units, rest) := by
  induction cs with
  | nil => exact ⟨[], rfl, fun _ => rfl⟩
  | cons c cs ih =>
    obtain ⟨unit, hread, htext⟩ := exists_unit_of_escape c
    obtain ⟨units, hcs, hunits⟩ := ih
    refine ⟨unit :: units, ?_, fun rest => ?_⟩
    · rw [htext, hcs]
      rfl
    · rw [List.flatMap_cons, List.append_assoc, hread, hunits]
      rfl

theorem quoted_append (s : String) (rest : List Char) :
    quoted s ++ rest = '"' :: (s.toList.flatMap escape ++ '"' :: rest) := by
  simp [quoted]

/-- A printed string is read as itself. -/
theorem exists_readScalar_quoted (s : String) : ∃ units, unitsString? units = some s ∧
    ∀ rest, readScalar (quoted s ++ rest) = some (.string units, rest) := by
  obtain ⟨units, htext, hread⟩ := exists_readString s.toList
  refine ⟨units, ?_, fun rest => ?_⟩
  · rw [unitsString?, htext, Option.map_some, String.ofList_toList]
  · rw [quoted_append, readScalar, hread]
    rfl

/-- A printed key is read as itself. -/
theorem exists_readKey (key : String) : ∃ units, unitsString? units = some key ∧
    ∀ rest, readKey (quoted key ++ ':' :: rest) = some (units, rest) := by
  obtain ⟨units, htext, hread⟩ := exists_readString key.toList
  have hskip : ∀ cs, skipSpace ('"' :: cs) = '"' :: cs := fun _ => rfl
  refine ⟨units, ?_, fun rest => ?_⟩
  · rw [unitsString?, htext, Option.map_some, String.ofList_toList]
  · rw [quoted_append, readKey, hskip]
    simp only [hread]
    rfl

/-! ## Values -/

/-- What may follow a value in a list or an object, or at the end of a text. -/
def Closes (rest : List Char) : Prop := ∀ c ∈ rest.head?, c = ',' ∨ c = ']' ∨ c = '\x7d'

theorem closes_cons {c : Char} (hc : c = ',' ∨ c = ']' ∨ c = '\x7d') (rest : List Char) :
    Closes (c :: rest) := by
  rintro _ ⟨⟩
  exact hc

/-- A text is read as a value, whatever follows it there. -/
def Reads (text : List Char) (value : Json) : Prop :=
  ∃ written : Written, written.value? = some value ∧
    ∀ count rest, 2 * text.length ≤ count → Closes rest →
      readValue count (text ++ rest) = some (written, rest)

/-- A value whose numbers are read back from their texts. -/
inductive Printable : Json → Prop where
  | null : Printable .null
  | bool (b : Bool) : Printable (.bool b)
  | number {n : JsonNumber} (h : Reads n.text (.number n)) : Printable (.number n)
  | string (s : String) : Printable (.string s)
  | array {items : List Json} (h : ∀ item ∈ items, Printable item) : Printable (.array items)
  | object {members : List (String × Json)} (h : ∀ member ∈ members, Printable member.2) :
      Printable (.object members)

theorem printable_strings (names : List String) : Printable (.array (names.map .string)) :=
  .array fun _ hitem => by
    obtain ⟨name, -, rfl⟩ := List.mem_map.1 hitem
    exact .string name

theorem Printable.of_mem_parts {value part : Json} (h : Printable value) (hpart : part ∈ value.parts) :
    Printable part := by
  cases h with
  | array h => exact h part hpart
  | object h =>
    obtain ⟨member, hmember, rfl⟩ := List.mem_map.1 hpart
    exact h member hmember
  | _ => cases hpart

theorem Printable.of_parts {value : Json} (hnumber : ∀ n, value ≠ .number n)
    (h : ∀ part ∈ value.parts, Printable part) : Printable value := by
  cases value with
  | number n => exact absurd rfl (hnumber n)
  | array items => exact .array h
  | object members => exact .object (List.forall_mem_map.1 h)
  | null => exact .null
  | bool b => exact .bool b
  | string s => exact .string s

/-- What is printable stays so in canonical form. -/
theorem Printable.canonical {value : Json} (h : Printable value) : Printable value.canonical := by
  induction h with
  | number h => exact .number h
  | @array items _ ih =>
    rw [Json.canonical, canonicalItems_eq]
    exact .array (List.forall_mem_map.2 ih)
  | @object members _ ih =>
    refine .object fun member hmember => ?_
    obtain ⟨key, v⟩ := member
    obtain ⟨u, hu, rfl⟩ := exists_of_mem_canonicalMembers hmember
    exact ih (key, u) hu
  | null => exact .null
  | bool b => exact .bool b
  | string s => exact .string s

theorem skipSpace_cons {c : Char} (hc : isSpace c = false) (cs : List Char) :
    skipSpace (c :: cs) = c :: cs := by
  rw [skipSpace, List.dropWhile_cons_of_neg (Bool.eq_false_iff.1 hc)]

/-- The text of a value starts with a character that neither separates nor closes. -/
theorem exists_head_compactText (value : Json) : ∃ c cs, compactText value = c :: cs ∧
    isSpace c = false ∧ c ≠ ']' := by
  cases value with
  | null => exact ⟨'n', _, rfl, rfl, by decide⟩
  | bool b => cases b with
    | false => exact ⟨'f', _, rfl, rfl, by decide⟩
    | true => exact ⟨'t', _, rfl, rfl, by decide⟩
  | number n =>
    obtain ⟨numeral, hproper, htext⟩ := n.exists_numeral_text
    obtain ⟨d, ds, hwhole⟩ := List.exists_cons_of_ne_nil hproper.whole_ne_nil
    rw [compactText, htext, Numeral.text]
    cases numeral.negative with
    | true => exact ⟨'-', _, rfl, rfl, by decide⟩
    | false =>
      have hd : d.isDigit = true := hproper.whole_digits d (by simp [hwhole])
      refine ⟨d, _, by rw [hwhole]; rfl, ?_, ?_⟩
      · by_contra hspace
        simp only [isSpace, Bool.not_eq_false, Bool.or_eq_true, beq_iff_eq] at hspace
        rcases hspace with ((rfl | rfl) | rfl) | rfl <;> cases hd
      · rintro rfl
        cases hd
  | string s => exact ⟨'"', _, rfl, rfl, by decide⟩
  | array items => exact ⟨'[', _, rfl, rfl, by decide⟩
  | object members => exact ⟨'\x7b', _, rfl, rfl, by decide⟩

theorem readValue_cons {c : Char} (hspace : isSpace c = false) (hlist : c ≠ '[')
    (hobject : c ≠ '\x7b') (count : ℕ) (cs : List Char) :
    readValue (count + 1) (c :: cs) = readScalar (c :: cs) := by
  rw [readValue, skipSpace_cons hspace]
  split
  · next h => exact absurd (List.cons.inj h).1 hlist
  · next h => exact absurd (List.cons.inj h).1 hobject
  · rfl

/-- A scalar is read wherever its text is. -/
theorem reads_of_readScalar {c : Char} {cs : List Char} {value : Json} {written : Written}
    (hspace : isSpace c = false) (hlist : c ≠ '[') (hobject : c ≠ '\x7b')
    (hvalue : written.value? = some value)
    (hread : ∀ rest, readScalar (c :: cs ++ rest) = some (written, rest)) :
    Reads (c :: cs) value := by
  refine ⟨written, hvalue, fun count rest hcount _ => ?_⟩
  cases count with
  | zero => simp at hcount
  | succ count =>
    rw [List.cons_append, readValue_cons hspace hlist hobject, ← List.cons_append, hread]

/-- The items of a list are read one after the other, up to its bracket. -/
theorem exists_readItems {item : Json} {items : List Json}
    (hreads : ∀ value ∈ item :: items, Reads (compactText value) value) :
    ∃ written, Written.itemValues? written = some (item :: items) ∧
      ∀ count rest, 2 * (itemsText (item :: items)).length ≤ count →
        readItems (count + 1) (itemsText (item :: items) ++ ']' :: rest) =
          some (written, rest) := by
  induction items generalizing item with
  | nil =>
    obtain ⟨written, hvalue, hread⟩ := hreads item (by simp)
    refine ⟨[written], by simp [Written.itemValues?, hvalue], fun count rest hcount => ?_⟩
    rw [itemsText] at hcount ⊢
    rw [readItems, hread count _ hcount (closes_cons (by simp) rest)]
    rfl
  | cons next items ih =>
    obtain ⟨written, hvalue, hread⟩ := hreads item (by simp)
    obtain ⟨more, hvalues, hmore⟩ := ih fun value h => hreads value (List.mem_cons_of_mem _ h)
    refine ⟨written :: more, by simp [Written.itemValues?, hvalue, hvalues],
      fun count rest hcount => ?_⟩
    have htext : itemsText (item :: next :: items) =
        compactText item ++ ',' :: itemsText (next :: items) := itemsText.eq_3 _ _ (by simp)
    rw [htext, List.length_append, List.length_cons] at hcount
    obtain ⟨count, rfl⟩ : ∃ k, count = k + 1 := ⟨count - 1, by omega⟩
    rw [htext, List.append_assoc, List.cons_append, readItems,
      hread (count + 1) _ (by omega) (closes_cons (by simp) _)]
    change (readItems (count + 1) (itemsText (next :: items) ++ ']' :: rest)).map _ = _
    rw [hmore count rest (by omega)]
    rfl

/-- The members of an object are read one after the other, up to its brace. -/
theorem exists_readMembers {member : String × Json} {members : List (String × Json)}
    (hreads : ∀ m ∈ member :: members, Reads (compactText m.2) m.2) :
    ∃ written, Written.memberValues? written = some (member :: members) ∧
      ∀ count rest, 2 * (membersText (member :: members)).length ≤ count →
        readMembers (count + 1) (membersText (member :: members) ++ '\x7d' :: rest) =
          some (written, rest) := by
  induction members generalizing member with
  | nil =>
    obtain ⟨key, value⟩ := member
    obtain ⟨written, hvalue, hread⟩ : Reads (compactText value) value :=
      hreads (key, value) (by simp)
    obtain ⟨units, hunits, hkey⟩ := exists_readKey key
    refine ⟨[(units, written)], by simp [Written.memberValues?, hunits, hvalue],
      fun count rest hcount => ?_⟩
    rw [membersText, List.length_append, List.length_cons] at hcount
    have hitem := hread count ('\x7d' :: rest) (by omega) (closes_cons (by simp) rest)
    rw [membersText, List.append_assoc, List.cons_append, readMembers, hkey]
    simp only [hitem]
    rfl
  | cons next members ih =>
    obtain ⟨key, value⟩ := member
    obtain ⟨written, hvalue, hread⟩ : Reads (compactText value) value :=
      hreads (key, value) (by simp)
    obtain ⟨units, hunits, hkey⟩ := exists_readKey key
    obtain ⟨more, hvalues, hmore⟩ := ih fun m h => hreads m (List.mem_cons_of_mem _ h)
    refine ⟨(units, written) :: more, by simp [Written.memberValues?, hunits, hvalue, hvalues],
      fun count rest hcount => ?_⟩
    have htext : membersText ((key, value) :: next :: members) = quoted key ++ ':' ::
        (compactText value ++ ',' :: membersText (next :: members)) := by
      simp [membersText.eq_3]
    rw [htext, List.length_append, List.length_cons, List.length_append, List.length_cons] at hcount
    -- the first member uses up one step, and the others have enough left
    obtain ⟨count, rfl⟩ : ∃ k, count = k + 1 := ⟨count - 1, by omega⟩
    have hitem := hread (count + 1) (',' :: (membersText (next :: members) ++ '\x7d' :: rest))
      (by omega) (closes_cons (by simp) _)
    rw [htext, List.append_assoc, List.cons_append, List.append_assoc, List.cons_append,
      readMembers, hkey]
    simp only [hitem]
    change (readMembers (count + 1) (membersText (next :: members) ++ '\x7d' :: rest)).map _ = _
    rw [hmore count rest (by omega)]
    rfl

theorem exists_head_itemsText (item : Json) (items : List Json) : ∃ c cs,
    itemsText (item :: items) = c :: cs ∧ isSpace c = false ∧ c ≠ ']' := by
  obtain ⟨c, cs, htext, hspace, hclose⟩ := exists_head_compactText item
  cases items with
  | nil => exact ⟨c, cs, by rw [itemsText, htext], hspace, hclose⟩
  | cons next items =>
    refine ⟨c, cs ++ ',' :: itemsText (next :: items), ?_, hspace, hclose⟩
    rw [itemsText.eq_3 _ _ (by simp), htext, List.cons_append]

theorem exists_tail_membersText (member : String × Json) (members : List (String × Json)) :
    ∃ cs, membersText (member :: members) = '"' :: cs := by
  obtain ⟨key, value⟩ := member
  cases members with
  | nil => exact ⟨_, by rw [membersText, quoted_append]⟩
  | cons next members => exact ⟨_, by rw [membersText.eq_3 _ _ _ (by simp), List.append_assoc,
      quoted_append]⟩

/-- A value is read from its text on one line. -/
theorem Printable.reads {value : Json} (h : Printable value) : Reads (compactText value) value := by
  induction h with
  | null => exact reads_of_readScalar (by decide) (by decide) (by decide) rfl fun _ => rfl
  | bool b =>
    cases b with
    | false => exact reads_of_readScalar (by decide) (by decide) (by decide) rfl fun _ => rfl
    | true => exact reads_of_readScalar (by decide) (by decide) (by decide) rfl fun _ => rfl
  | number h => exact h
  | string s =>
    obtain ⟨units, hunits, hread⟩ := exists_readScalar_quoted s
    have hvalue : (Written.string units).value? = some (.string s) := by
      rw [Written.value?, hunits]
      rfl
    exact reads_of_readScalar (by decide) (by decide) (by decide) hvalue hread
  | @array items _ ih =>
    cases items with
    | nil =>
      refine ⟨.array [], rfl, fun count rest hcount _ => ?_⟩
      cases count with
      | zero => simp [compactText] at hcount
      | succ count => rfl
    | cons item items =>
      obtain ⟨written, hvalues, hread⟩ := exists_readItems ih
      obtain ⟨c, cs, hhead, hspace, hclose⟩ := exists_head_itemsText item items
      refine ⟨.array written, by rw [Written.value?, hvalues]; rfl, fun count rest hcount _ => ?_⟩
      rw [compactText, List.length_append, List.length_cons, List.length_singleton] at hcount
      -- a step for the bracket and one for the first item, whose text is not empty
      obtain ⟨count, rfl⟩ : ∃ k, count = k + 2 := ⟨count - 2, by omega⟩
      have htail : itemsText (item :: items) ++ [']'] ++ rest = c :: (cs ++ ']' :: rest) := by
        simp [hhead]
      have hitems := hread count rest (by omega)
      rw [hhead, List.cons_append] at hitems
      rw [compactText, List.cons_append, List.cons_append, htail, readValue,
        skipSpace_cons (by decide)]
      simp only [skipSpace_cons hspace]
      split
      -- no item begins with the bracket that closes the list
      · next h => exact absurd (List.cons.inj h).1 hclose
      · rw [hitems]
        rfl
  | @object members _ ih =>
    cases members with
    | nil =>
      refine ⟨.object [], rfl, fun count rest hcount _ => ?_⟩
      cases count with
      | zero => simp [compactText] at hcount
      | succ count => rfl
    | cons member members =>
      obtain ⟨written, hvalues, hread⟩ := exists_readMembers ih
      obtain ⟨cs, hhead⟩ := exists_tail_membersText member members
      refine ⟨.object written, by rw [Written.value?, hvalues]; rfl, fun count rest hcount _ => ?_⟩
      rw [compactText, List.length_append, List.length_cons, List.length_singleton] at hcount
      obtain ⟨count, rfl⟩ : ∃ k, count = k + 2 := ⟨count - 2, by omega⟩
      have htail : membersText (member :: members) ++ ['\x7d'] ++ rest =
          '"' :: (cs ++ '\x7d' :: rest) := by
        simp [hhead]
      have hmembers := hread count rest (by omega)
      rw [hhead, List.cons_append] at hmembers
      rw [compactText, List.cons_append, List.cons_append, htail, readValue,
        skipSpace_cons (by decide)]
      simp only [skipSpace_cons (show isSpace '"' = false by decide)]
      change (readMembers (count + 1) ('"' :: (cs ++ '\x7d' :: rest))).map _ = _
      rw [hmembers]
      rfl

/-- The text of a value has the structure of one that stands for it. -/
theorem Printable.exists_written {value : Json} (h : Printable value) :
    ∃ written, written.value? = some value ∧
      Written.ofText? value.compact.toList = some written := by
  obtain ⟨written, hvalue, hread⟩ := h.reads
  have hclosed : Closes [] := by rintro _ ⟨⟩
  have hread := hread (2 * (compactText value).length + 1) [] (by omega) hclosed
  rw [List.append_nil] at hread
  refine ⟨written, hvalue, ?_⟩
  rw [compact, String.toList_ofList, Written.ofText?, hread]
  rfl

/-- A value is read back from its text, unless it is nested too deep to be read at all. -/
theorem Printable.ofText?_compact {value : Json} (h : Printable value)
    (hdepth : value.depth ≤ maxDepth) : ofText? value.compact = some value := by
  obtain ⟨written, hvalue, hwritten⟩ := h.exists_written
  rw [ofText?, hwritten, Option.bind_some, hvalue, Option.filter_some,
    if_pos (by simpa using hdepth)]

theorem Printable.parse?_compact {value : Json} (h : Printable value)
    (hdepth : value.depth ≤ maxDepth) : parse? value.compact = some value.canonical := by
  rw [parse?, h.ofText?_compact hdepth, Option.map_some]

end QueryGate.Json
