import QueryGate.Proofs.Discovery.SelectItems
import QueryGate.Proofs.Text.Offsets

/-!
# Items in slices

The items of a select list are cut out of its bytes: the list is searched byte by byte, and each
piece is the slice between two offsets. No slice is taken within a character or out of range, as
separators and parentheses are bytes of no other characters, so that the fields are those of the
items between the characters (`slicedFields?_eq`). The parentheses are counted without a bound; a
count of 32 bits does the same below `2 ^ 31` bytes (`countedPieces?_eq`).
-/

namespace QueryGate

open Text

namespace SelectList

variable {bytes rest : List UInt8} {c separator : Char} {cs front part text : List Char}
  {depth : ℤ} {i last : ℕ}

/-! ## Splitting -/

/-- The pieces of a text between the separators outside of parentheses, as slices. The bytes are
    those from the offset `i` on, and the first piece begins at the offset `last`. -/
def slicedPieces? (text : List Char) (separator : UInt8) (last i : ℕ) (depth : ℤ) :
    List UInt8 → Option (List (List Char))
  | [] => (slice? text last (byteSize text)).map fun piece => [piece]
  | b :: bytes =>
    if b = '('.toUInt8 then slicedPieces? text separator last (i + 1) (depth + 1) bytes
    else if b = ')'.toUInt8 then slicedPieces? text separator last (i + 1) (depth - 1) bytes
    else if b = separator ∧ depth = 0 then
      (slice? text last i).bind fun piece =>
        (slicedPieces? text separator (i + 1) (i + 1) depth bytes).map (piece :: ·)
    else slicedPieces? text separator last (i + 1) depth bytes

/-- The pieces of a text between the separators outside of parentheses, as slices. -/
def slicedTopLevel? (separator : UInt8) (text : List Char) : Option (List (List Char)) :=
  slicedPieces? text separator 0 0 0 (bytesOf text)

/-- No piece ends at a byte beyond ASCII. -/
theorem slicedPieces?_beyond (hseparator : separator.toNat < 0x80) (h : ∀ b ∈ bytes, 0x80 ≤ b) :
    slicedPieces? text separator.toUInt8 last i depth (bytes ++ rest) =
      slicedPieces? text separator.toUInt8 last (i + bytes.length) depth rest := by
  induction bytes generalizing i with
  | nil => rfl
  | cons b bytes ih =>
    obtain ⟨hb, hbytes⟩ := List.forall_mem_cons.1 h
    rw [List.cons_append, slicedPieces?, if_neg (ne_toUInt8 hb (by decide)),
      if_neg (ne_toUInt8 hb (by decide)), if_neg fun hsep => ne_toUInt8 hb hseparator hsep.1,
      ih hbytes, List.length_cons, Nat.add_assoc, Nat.add_comm 1]

/-- The slices are the pieces between the characters. What has been passed already of the first
    piece is kept in view. -/
theorem slicedPieces?_eq (hseparator : separator.toNat < 0x80) (front part cs : List Char)
    (depth : ℤ) :
    slicedPieces? (front ++ (part ++ cs)) separator.toUInt8 (byteSize front)
        (byteSize front + byteSize part) depth (bytesOf cs) =
      some ((splitOutside separator depth cs).modifyHead (part ++ ·)) := by
  induction cs generalizing front part depth with
  | nil =>
    have hlast := slice?_from front (part ++ [])
    rw [bytesOf_nil, slicedPieces?, hlast]
    rfl
  | cons c cs ih =>
    have htext : front ++ (part ++ c :: cs) = front ++ ((part ++ [c]) ++ cs) := by simp
    -- a character that ends no piece belongs to the one that it stands in
    have hgoOn : ∀ depth, slicedPieces? (front ++ (part ++ c :: cs)) separator.toUInt8
        (byteSize front) (byteSize front + byteSize (part ++ [c])) depth (bytesOf cs) =
          some ((consFirst c (splitOutside separator depth cs)).modifyHead (part ++ ·)) := by
      intro depth
      rw [htext, ih, consFirst_splitOutside, List.modifyHead_modifyHead]
      congr 2
      funext piece
      simp
    by_cases hascii : c.toNat < 0x80
    · have hsize : byteSize front + byteSize (part ++ [c]) =
          byteSize front + byteSize part + 1 := by
        rw [byteSize_append, byteSize_ascii hascii, Nat.add_assoc]
      rw [hsize] at hgoOn
      rw [bytesOf_cons_ascii hascii, slicedPieces?, splitOutside]
      simp only [toUInt8_inj hascii (show '('.toNat < 0x80 by decide),
        toUInt8_inj hascii (show ')'.toNat < 0x80 by decide), toUInt8_inj hascii hseparator]
      split_ifs with hopen hclose hsep
      · exact hgoOn _
      · exact hgoOn _
      · have hnext := ih (front ++ (part ++ [c])) [] depth
        have hbehind : (front ++ (part ++ [c])) ++ ([] ++ cs) = front ++ (part ++ c :: cs) := by
          simp
        rw [hbehind, byteSize_append, hsize, byteSize_nil, Nat.add_zero] at hnext
        rw [slice?_append, Option.bind_some, hnext]
        cases splitOutside separator depth cs <;> simp
      · exact hgoOn _
    · have hlength : (String.utf8EncodeChar c).length = byteSize [c] := by
        rw [byteSize, bytesOf_cons, bytesOf_nil, List.append_nil]
      have hne : ∀ d : Char, d.toNat < 0x80 → c ≠ d := by
        rintro d hd rfl
        exact hascii hd
      rw [bytesOf_cons, slicedPieces?_beyond hseparator fun b =>
          le_of_mem_utf8EncodeChar (not_lt.1 hascii), hlength, Nat.add_assoc, ← byteSize_append,
        hgoOn, splitOutside, if_neg (hne _ (by decide)), if_neg (hne _ (by decide)),
        if_neg fun hsep => hne separator hseparator hsep.1]

/-- A text is split into the pieces between its characters. -/
theorem slicedTopLevel?_eq (hseparator : separator.toNat < 0x80) (text : List Char) :
    slicedTopLevel? separator.toUInt8 text = some (splitTopLevel separator text) := by
  have hall := slicedPieces?_eq hseparator [] [] text 0
  rw [List.nil_append, List.nil_append] at hall
  rw [slicedTopLevel?]
  refine hall.trans ?_
  rw [splitTopLevel]
  cases splitOutside separator 0 text <;> rfl

/-! ## Calls -/

/-- The offset of the first occurrence of a character in a text. -/
def offsetOf? (c : Char) (text : List Char) : Option ℕ :=
  if c ∈ text then some (byteSize (text.takeWhile (· != c))) else none

/-- The field within a wrapper, which is cut at its parenthesis. -/
def slicedUnwrap? (call : List Char) : Option (Option (List Char)) :=
  match offsetOf? '(' call with
  | none => some none
  | some opening =>
    (slice? call 0 opening).bind fun function =>
      (slice? call (opening + 1) (byteSize call)).map fun arguments =>
        if arguments.getLast? = some ')' then
          let field := trim arguments.dropLast
          if wrappers.any (fun w => sameLetters function w.toList) ∧ Name.isPath field then
            some field
          else none
        else none

/-- A text with a character is parted by the first occurrence of it. -/
theorem exists_takeWhile_append (h : c ∈ cs) :
    ∃ rest, cs = cs.takeWhile (· != c) ++ c :: rest := by
  induction cs with
  | nil => exact absurd h List.not_mem_nil
  | cons d cs ih =>
    by_cases hd : d = c
    · subst hd
      exact ⟨cs, by simp⟩
    · obtain ⟨rest, hrest⟩ := ih ((List.mem_cons.1 h).resolve_left (Ne.symm hd))
      refine ⟨rest, ?_⟩
      rw [List.takeWhile_cons_of_pos (by simpa using hd), List.cons_append, ← hrest]

theorem slicedUnwrap?_eq (call : List Char) : slicedUnwrap? call = some (unwrap? call) := by
  by_cases hopen : '(' ∈ call
  · obtain ⟨rest, hcall⟩ := exists_takeWhile_append hopen
    have hoffset : offsetOf? '(' call = some (byteSize (call.takeWhile (· != '('))) := if_pos hopen
    generalize hfunction : call.takeWhile (· != '(') = function at hcall hoffset
    have hfirst := slice?_append [] function ('(' :: rest)
    have hsecond := slice?_from (function ++ ['(']) rest
    have hdrop : call.drop (function.length + 1) = rest := by
      rw [hcall, List.drop_append]
      simp
    rw [List.nil_append, ← hcall, byteSize_nil, Nat.zero_add] at hfirst
    rw [List.append_assoc, List.singleton_append, ← hcall, byteSize_append,
      byteSize_ascii (by decide)] at hsecond
    have hlength : function.length < call.length := by
      rw [hcall, List.length_append, List.length_cons]
      omega
    simp only [slicedUnwrap?, hoffset, hfirst, hsecond, Option.bind_some, Option.map_some, unwrap?,
      hfunction, hdrop, hlength, true_and]
  · have hall : call.takeWhile (· != '(') = call :=
      List.takeWhile_eq_self_iff.2 fun c hc => bne_iff_ne.2 fun heq => hopen (heq ▸ hc)
    have hoffset : offsetOf? '(' call = none := if_neg hopen
    simp only [slicedUnwrap?, hoffset, unwrap?, hall, lt_irrefl, false_and, if_false]

/-! ## Fields -/

/-- The field that an item names, cut out of its bytes. -/
def slicedFieldOfItem? (item : List Char) : Option (Option (List Char)) :=
  let item := collapse item
  if item.isEmpty ∨ item.head? = some '(' then some none
  else
    (slicedTopLevel? ' '.toUInt8 item).bind fun parts =>
      match (parts.map trim).find? fun part => !part.isEmpty with
      | none => some none
      | some expression =>
        if Name.isPath expression then some (some expression) else slicedUnwrap? expression

/-- The fields that the items of a list name, each once, cut out of its bytes. -/
def slicedFields? (list : List Char) : Option (List (List Char)) :=
  (slicedTopLevel? ','.toUInt8 (replaceAll typeofMatcher list)).bind fun items =>
    (items.mapM slicedFieldOfItem?).map fun fields => (fields.filterMap id).eraseDups

theorem slicedFieldOfItem?_eq (item : List Char) :
    slicedFieldOfItem? item = some (fieldOfItem? item) := by
  simp only [slicedFieldOfItem?, fieldOfItem?]
  rw [slicedTopLevel?_eq (by decide), Option.bind_some]
  cases hitem : collapse item with
  | nil => rfl
  | cons c cs =>
    by_cases hopen : (c :: cs).head? = some '('
    · rw [if_pos (.inr hopen), if_pos hopen]
    · rw [if_neg (by simpa using hopen), if_neg hopen]
      cases ((splitTopLevel ' ' (c :: cs)).map trim).find? fun part => !part.isEmpty with
      | none => rfl
      | some expression =>
        dsimp only [Option.bind_some]
        rw [slicedUnwrap?_eq]
        exact (apply_ite some _ _ _).symm

/-- No slice fails, and the fields are those of the items between the characters. -/
theorem slicedFields?_eq (list : List Char) : slicedFields? list = some (fieldsOf list) := by
  have hitems : slicedFieldOfItem? = fun item => some (fieldOfItem? item) :=
    funext slicedFieldOfItem?_eq
  have hall : ∀ items : List (List Char),
      items.mapM (fun item => some (fieldOfItem? item)) = some (items.map fieldOfItem?) :=
    fun items => List.mapM_pure
  rw [slicedFields?, slicedTopLevel?_eq (by decide), Option.bind_some, hitems, hall,
    Option.map_some, List.filterMap_map, Function.id_comp, fieldsOf]

end SelectList

end QueryGate
