import QueryGate.Proofs.Discovery.ListEnds
import QueryGate.Proofs.Text.Offsets

/-!
# Where select lists end, by bytes

The end of a select list is searched byte by byte, with the parentheses counted that are open
(`fromAt?`). All that the search looks for are bytes of ASCII, and those stand for themselves, so
that it stops just where a search of the characters does (`fromAt?_eq`). The count has no bound; one
of 32 bits does the same below `2 ^ 31` bytes (`countedFromAt?_eq_fromAt?`).
-/

namespace QueryGate

open Text

namespace SelectList

variable {b : UInt8} {c w : Char} {word : List Char}

/-! ## Keywords -/

/-- Whether a byte can stand in a name: a letter or digit of ASCII, or the underscore. -/
def isNameByte (b : UInt8) : Bool :=
  48 ≤ b && b ≤ 57 || 65 ≤ b && b ≤ 90 || 97 ≤ b && b ≤ 122 || b == 95

/-- The byte of the small letter, for that of a capital of ASCII. -/
def smallByte (b : UInt8) : UInt8 := if 65 ≤ b ∧ b ≤ 90 then b + 32 else b

/-- Whether a word stands at an offset, in any case and with no name going on around it. -/
def keywordAt (bytes : List UInt8) (i : ℕ) (word : List UInt8) : Bool :=
  let stop := i + word.length
  decide (stop ≤ bytes.length) &&
    ((bytes.drop i).take word.length).map smallByte == word.map smallByte &&
    (i == 0 || !bytes[i - 1]?.any isNameByte) &&
    (stop == bytes.length || !bytes[stop]?.any isNameByte)

/-- The bytes of the word `FROM`. -/
def fromBytes : List UInt8 := bytesOf "FROM".toList

theorem isNameByte_ascii (hc : c.toNat < 0x80) : isNameByte c.toUInt8 = Name.isPart c :=
  forall_ascii (p := fun c => isNameByte c.toUInt8 = Name.isPart c) (by decide) hc

theorem isNameByte_of_le (h : 0x80 ≤ b) : isNameByte b = false := by
  have hb : 128 ≤ b.toNat := UInt8.le_iff_toNat_le.1 h
  simp only [isNameByte, UInt8.le_iff_toNat_le, ← UInt8.toNat_inj, UInt8.reduceToNat, beq_eq_decide,
    Bool.or_eq_false_iff, Bool.and_eq_false_iff, decide_eq_false_iff_not]
  omega

theorem smallByte_of_le (h : 0x80 ≤ b) : smallByte b = b := by
  have hb : 128 ≤ b.toNat := UInt8.le_iff_toNat_le.1 h
  refine if_neg fun hcapital => ?_
  have hle : b.toNat ≤ 90 := UInt8.le_iff_toNat_le.1 hcapital.2
  omega

theorem isPart_eq_false (h : ¬c.toNat < 0x80) : Name.isPart c = false :=
  Bool.eq_false_iff.2 fun hc => h (Name.lt_of_isPart hc)

/-- The last byte of a text is one of names just as its last character is. -/
theorem getLast?_bytesOf (front : List Char) :
    (bytesOf front).getLast?.any isNameByte = front.getLast?.any Name.isPart := by
  rcases List.eq_nil_or_concat' front with rfl | ⟨front, c, rfl⟩
  · rfl
  · rw [bytesOf_append, List.getLast?_concat, Option.any_some]
    by_cases hascii : c.toNat < 0x80
    · rw [bytesOf_cons_ascii hascii, bytesOf_nil, List.getLast?_concat, Option.any_some,
        isNameByte_ascii hascii]
    · rw [bytesOf_cons, bytesOf_nil, List.append_nil,
        List.getLast?_append_of_ne_nil _ String.utf8EncodeChar_ne_nil, isPart_eq_false hascii]
      cases hlast : (String.utf8EncodeChar c).getLast? with
      | none => rfl
      | some b =>
        exact isNameByte_of_le
          (le_of_mem_utf8EncodeChar (not_lt.1 hascii) (List.mem_of_getLast? hlast))

/-- The first byte of a text is one of names just as its first character is. -/
theorem head?_bytesOf (cs : List Char) :
    (bytesOf cs).head?.any isNameByte = cs.head?.any Name.isPart := by
  cases cs with
  | nil => rfl
  | cons c cs =>
    by_cases hascii : c.toNat < 0x80
    · rw [bytesOf_cons_ascii hascii]
      exact isNameByte_ascii hascii
    · obtain ⟨b, bytes, hb⟩ := List.exists_cons_of_ne_nil (String.utf8EncodeChar_ne_nil (c := c))
      have hmem : b ∈ String.utf8EncodeChar c := hb ▸ List.mem_cons_self
      rw [bytesOf_cons, hb]
      exact (isNameByte_of_le (le_of_mem_utf8EncodeChar (not_lt.1 hascii) hmem)).trans
        (isPart_eq_false hascii).symm

theorem lt_of_mem_word (hw : w ∈ "FROM".toList) : w.toNat < 0x80 := by
  have hall : ∀ w ∈ "FROM".toList, w.toNat < 0x80 := List.all_iff_forall_prop.1 (by decide)
  exact hall w hw

/-- A letter of the word is recognized by its small letter in bytes, and by its capital in
    characters. -/
theorem smallByte_eq_iff (hw : w ∈ "FROM".toList) (hc : c.toNat < 0x80) :
    smallByte c.toUInt8 = smallByte w.toUInt8 ↔ (w == c.toUpper) = true := by
  have hall : ("FROM".toList.all fun w => decide
      (smallByte c.toUInt8 = smallByte w.toUInt8 ↔ (w == c.toUpper) = true)) = true :=
    forall_ascii (p := fun c => ("FROM".toList.all fun w => decide
      (smallByte c.toUInt8 = smallByte w.toUInt8 ↔ (w == c.toUpper) = true)) = true)
      (by decide +kernel) hc
  exact List.all_iff_forall_prop.1 hall w hw

theorem smallByte_ne (hw : w ∈ "FROM".toList) (hb : 0x80 ≤ b) :
    smallByte b ≠ smallByte w.toUInt8 := by
  have hall : ∀ w ∈ "FROM".toList, smallByte w.toUInt8 < 0x80 :=
    List.all_iff_forall_prop.1 (by decide)
  rw [smallByte_of_le hb]
  exact fun heq => UInt8.not_lt.2 hb (heq ▸ hall w hw)

theorem beq_toUpper_eq_false (hw : w ∈ "FROM".toList) (hc : ¬c.toNat < 0x80) :
    (w == c.toUpper) = false := by
  refine beq_eq_false_iff_ne.2 fun heq => ?_
  rcases toUpper_eq_or_mem c with hsame | hsmall
  · exact hc (hsame ▸ heq ▸ lt_of_mem_word hw)
  · have hall : ∀ c ∈ smalls, c.toNat < 0x80 := List.all_iff_forall_prop.1 (by decide)
    exact hc (hall c hsmall)

/-- The letters of the word are the same in bytes as in characters. -/
theorem take_bytesOf_eq_iff (word : List Char) (hword : ∀ w ∈ word, w ∈ "FROM".toList)
    (cs : List Char) :
    ((bytesOf cs).take word.length).map smallByte = (bytesOf word).map smallByte ↔
      (afterBy (fun w c => w == c.toUpper) word cs).isSome := by
  induction word generalizing cs with
  | nil => simp [afterBy]
  | cons w word ih =>
    obtain ⟨hw, hrest⟩ := List.forall_mem_cons.1 hword
    rw [bytesOf_cons_ascii (lt_of_mem_word hw), List.map_cons]
    cases cs with
    | nil => simp [afterBy]
    | cons c cs =>
      by_cases hascii : c.toNat < 0x80
      · rw [bytesOf_cons_ascii hascii, List.length_cons, List.take_succ_cons, List.map_cons,
          List.cons_eq_cons, smallByte_eq_iff hw hascii, ih hrest, afterBy]
        split_ifs with hc <;> simp [hc]
      · -- the first byte tells this character from those of the word
        obtain ⟨b, bytes, hb⟩ := List.exists_cons_of_ne_nil (String.utf8EncodeChar_ne_nil (c := c))
        have hle : 0x80 ≤ b :=
          le_of_mem_utf8EncodeChar (not_lt.1 hascii) (hb ▸ List.mem_cons_self)
        rw [bytesOf_cons, hb, List.cons_append, List.length_cons, List.take_succ_cons,
          List.map_cons, List.cons_eq_cons, afterBy, beq_toUpper_eq_false hw hascii]
        simp [smallByte_ne hw hle]

/-- The characters of names are single bytes. -/
theorem byteSize_of_isPart (h : ∀ c ∈ word, Name.isPart c = true) :
    byteSize word = word.length := by
  induction word with
  | nil => rfl
  | cons c word ih =>
    obtain ⟨hc, hword⟩ := List.forall_mem_cons.1 h
    have hcons : byteSize (c :: word) = byteSize [c] + byteSize word := byteSize_append [c] word
    rw [hcons, byteSize_ascii (Name.lt_of_isPart hc), ih hword, List.length_cons, Nat.add_comm]

theorem byteSize_of_lowered (h : lowered word = "from".toList) : byteSize word = 4 := by
  have hlength : (lowered word).length = 4 := by rw [h]; rfl
  rw [byteSize_of_isPart (isPart_of_lowered h)]
  rwa [lowered, List.length_map] at hlength

/-- The byte before an offset is the last one of those up to there. -/
theorem any_getElem?_before (before more : List UInt8) :
    (before.length == 0 || !(before ++ more)[before.length - 1]?.any isNameByte) =
      !before.getLast?.any isNameByte := by
  rcases List.eq_nil_or_concat' before with rfl | ⟨before, b, rfl⟩ <;> simp

/-- The byte at an offset is the first one of those from there on. -/
theorem any_getElem?_behind (before more : List UInt8) :
    (before.length == (before ++ more).length || !(before ++ more)[before.length]?.any isNameByte) =
      !more.head?.any isNameByte := by
  cases more <;> simp

/-- A `FROM` stands at an offset in bytes just where it does in characters. -/
theorem keywordAt_from (front cs : List Char) :
    keywordAt (bytesOf (front ++ cs)) (byteSize front) fromBytes =
      (afterFrom? front.getLast? cs).isSome := by
  have hword := take_bytesOf_eq_iff "FROM".toList (fun _ h => h) cs
  have hlength : fromBytes.length = "FROM".toList.length := rfl
  rw [keywordAt, afterFrom?, bytesOf_append, byteSize, hlength]
  rw [List.drop_left, any_getElem?_before, getLast?_bytesOf]
  cases hafter : afterBy (fun w c => w == c.toUpper) "FROM".toList cs with
  | none =>
    have hne : ((bytesOf cs).take "FROM".toList.length).map smallByte ≠ fromBytes.map smallByte :=
      fun heq => by
        rw [hafter] at hword
        exact Bool.false_ne_true (hword.1 heq)
    rw [beq_eq_false_iff_ne.2 hne, Bool.and_false, Bool.false_and, Bool.false_and]
    split_ifs <;> rfl
  | some rest =>
    obtain ⟨word, rfl, hlowered⟩ := exists_of_afterUpper hafter
    have hsame : ((bytesOf (word ++ rest)).take "FROM".toList.length).map smallByte =
        fromBytes.map smallByte := hword.2 (by rw [hafter]; rfl)
    -- the bytes behind the word are those of the text behind it
    have hstop : (bytesOf front).length + "FROM".toList.length =
        (bytesOf (front ++ word)).length := by
      rw [bytesOf_append, List.length_append]
      exact congrArg _ (byteSize_of_lowered hlowered).symm
    have hbytes : bytesOf front ++ bytesOf (word ++ rest) =
        bytesOf (front ++ word) ++ bytesOf rest := by
      rw [← bytesOf_append, ← bytesOf_append, List.append_assoc]
    have hle : (bytesOf (front ++ word)).length ≤
        (bytesOf (front ++ word) ++ bytesOf rest).length := by
      rw [List.length_append]
      exact Nat.le_add_right _ _
    rw [hsame, hstop, hbytes, any_getElem?_behind, head?_bytesOf, decide_eq_true hle,
      beq_self_eq_true]
    dsimp only
    cases front.getLast?.any Name.isPart <;> cases rest.head?.any Name.isPart <;> rfl

/-! ## Ends of lists -/

/-- The offset of the `FROM` that ends a list, from an offset within the list on. There is none if a
    parenthesis is closed first that was not opened in the list. -/
def fromAt? (bytes : List UInt8) (i depth : ℕ) : Option ℕ :=
  if h : i < bytes.length then
    if bytes[i] = '('.toUInt8 then fromAt? bytes (i + 1) (depth + 1)
    else if bytes[i] = ')'.toUInt8 then
      if depth = 0 then none else fromAt? bytes (i + 1) (depth - 1)
    else if depth = 0 ∧ keywordAt bytes i fromBytes then some i
    else fromAt? bytes (i + 1) depth
  else none
termination_by bytes.length - i

theorem fromAt?_end (bytes : List UInt8) (depth : ℕ) : fromAt? bytes bytes.length depth = none := by
  rw [fromAt?, dif_neg (lt_irrefl _)]

theorem fromAt?_cons (before : List UInt8) (b : UInt8) (more : List UInt8) (depth : ℕ) :
    fromAt? (before ++ b :: more) before.length depth =
      if b = '('.toUInt8 then fromAt? (before ++ b :: more) (before.length + 1) (depth + 1)
      else if b = ')'.toUInt8 then
        if depth = 0 then none else fromAt? (before ++ b :: more) (before.length + 1) (depth - 1)
      else if depth = 0 ∧ keywordAt (before ++ b :: more) before.length fromBytes then
        some before.length
      else fromAt? (before ++ b :: more) (before.length + 1) depth := by
  have hlt : before.length < (before ++ b :: more).length := by simp
  have hget : (before ++ b :: more)[before.length] = b := by simp
  rw [fromAt?, dif_pos hlt, hget]

/-- No `FROM` stands at a byte beyond ASCII. -/
theorem keywordAt_of_le (before : List UInt8) (hb : 0x80 ≤ b) (more : List UInt8) :
    keywordAt (before ++ b :: more) before.length fromBytes = false := by
  have hword : ((b :: more).take fromBytes.length).map smallByte ≠ fromBytes.map smallByte := by
    intro heq
    have hb' : b = 102 := (smallByte_of_le hb).symm.trans (List.cons_eq_cons.1 heq).1
    rw [hb'] at hb
    exact absurd hb (by decide)
  simp only [keywordAt, List.drop_left, beq_eq_false_iff_ne.2 hword, Bool.and_false,
    Bool.false_and]

/-- The search goes past bytes beyond ASCII. -/
theorem fromAt?_beyond {bytes : List UInt8} (h : ∀ b ∈ bytes, 0x80 ≤ b) (before more : List UInt8)
    (depth : ℕ) :
    fromAt? (before ++ (bytes ++ more)) before.length depth =
      fromAt? (before ++ (bytes ++ more)) (before ++ bytes).length depth := by
  induction bytes generalizing before with
  | nil => rw [List.append_nil]
  | cons b bytes ih =>
    obtain ⟨hb, hbytes⟩ := List.forall_mem_cons.1 h
    have hstep := ih hbytes (before ++ [b])
    rw [List.append_assoc, List.singleton_append, List.append_assoc, List.singleton_append,
      List.length_append, List.length_singleton] at hstep
    rw [List.cons_append, fromAt?_cons, if_neg (ne_toUInt8 hb (by decide)),
      if_neg (ne_toUInt8 hb (by decide)), keywordAt_of_le before hb,
      if_neg fun hkeyword => Bool.false_ne_true hkeyword.2, hstep]

/-- A step of the search goes past a character, whatever bytes it has. -/
theorem fromAt?_step (front : List Char) (c : Char) (cs : List Char) (depth : ℕ) :
    fromAt? (bytesOf (front ++ c :: cs)) (byteSize front) depth =
      if c = '(' then
        fromAt? (bytesOf (front ++ c :: cs)) (byteSize (front ++ [c])) (depth + 1)
      else if c = ')' then
        if depth = 0 then none
        else fromAt? (bytesOf (front ++ c :: cs)) (byteSize (front ++ [c])) (depth - 1)
      else if depth = 0 ∧ (afterFrom? front.getLast? (c :: cs)).isSome then some (byteSize front)
      else fromAt? (bytesOf (front ++ c :: cs)) (byteSize (front ++ [c])) depth := by
  by_cases hascii : c.toNat < 0x80
  · have hsize : byteSize (front ++ [c]) = (bytesOf front).length + 1 := by
      rw [byteSize_append, byteSize_ascii hascii, byteSize]
    have hkeyword := keywordAt_from front (c :: cs)
    rw [bytesOf_append, bytesOf_cons_ascii hascii, byteSize] at hkeyword
    rw [hsize, bytesOf_append, bytesOf_cons_ascii hascii, byteSize, fromAt?_cons]
    simp only [toUInt8_inj hascii (show '('.toNat < 0x80 by decide),
      toUInt8_inj hascii (show ')'.toNat < 0x80 by decide), hkeyword]
  · -- none of the bytes is one of ASCII, and the search goes past them all
    have hne : ∀ d : Char, d.toNat < 0x80 → c ≠ d := by
      rintro d hd rfl
      exact hascii hd
    have hbytes : bytesOf [c] = String.utf8EncodeChar c := by
      rw [bytesOf_cons, bytesOf_nil, List.append_nil]
    have hpassed := fromAt?_beyond (fun b => le_of_mem_utf8EncodeChar (not_lt.1 hascii))
      (bytesOf front) (bytesOf cs) depth
    rw [← hbytes, ← bytesOf_append, ← bytesOf_append, ← bytesOf_append, List.singleton_append,
      ← byteSize, ← byteSize] at hpassed
    rw [hpassed, if_neg (hne _ (by decide)), if_neg (hne _ (by decide)),
      afterFrom?_eq_none (isPart_eq_false hascii), if_neg fun h => Bool.false_ne_true h.2]

/-- A list ends in bytes where it does in characters. -/
theorem fromAt?_eq (front cs : List Char) (depth : ℕ) :
    fromAt? (bytesOf (front ++ cs)) (byteSize front) depth =
      (cutAtFrom? front.getLast? depth cs).map fun found => byteSize front + byteSize found.1 := by
  induction cs generalizing front depth with
  | nil =>
    rw [List.append_nil, byteSize, fromAt?_end]
    rfl
  | cons c cs ih =>
    have hgoOn : ∀ depth, fromAt? (bytesOf (front ++ c :: cs)) (byteSize (front ++ [c])) depth =
        ((cutAtFrom? (some c) depth cs).map fun found => (c :: found.1, found.2)).map
          fun found => byteSize front + byteSize found.1 := by
      intro depth
      have hstep := ih (front ++ [c]) depth
      rw [List.append_assoc, List.singleton_append, List.getLast?_concat] at hstep
      rw [hstep, Option.map_map]
      congr 1
      funext found
      have hcons : byteSize (c :: found.1) = byteSize [c] + byteSize found.1 :=
        byteSize_append [c] found.1
      rw [Function.comp_apply, hcons, byteSize_append, Nat.add_assoc]
    rw [fromAt?_step, hgoOn, hgoOn, hgoOn, cutAtFrom?]
    split_ifs with hopen hclose hzero hfound hzero hzero
    · rfl
    · rfl
    · rfl
    · obtain ⟨rest, hrest⟩ := Option.isSome_iff_exists.1 hfound.2
      rw [hrest]
      rfl
    · exact absurd hfound.1 hzero
    · have hnone : afterFrom? front.getLast? (c :: cs) = none :=
        Option.not_isSome_iff_eq_none.1 fun hsome => hfound ⟨hzero, hsome⟩
      rw [hnone]
    · rfl

end SelectList

end QueryGate
