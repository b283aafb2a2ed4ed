import Mathlib.Tactic.SplitIfs
import QueryGate.Text.Utf8

/-!
# Reading UTF-8

What is read as a text is well formed (`isValidUTF8_of_readUtf8`): the sequence that is read as a
character is the one that spells it (`utf8EncodeChar_of_lead`). That holds by the range of the
second byte, which leaves out surrogates, overlong sequences and what is beyond the last
character.
-/

namespace QueryGate.Text

theorem utf8Continue_nil {code good c : Nat} {bytes : List UInt8}
    (h : utf8Continue code good [] bytes = .ok c) : code = c := by
  rw [utf8Continue] at h
  exact Except.ok.inj h

theorem utf8Continue_cons {code good c : Nat} {range : Nat × Nat} {ranges : List (Nat × Nat)}
    {bytes : List UInt8} (h : utf8Continue code good (range :: ranges) bytes = .ok c) :
    ∃ b rest, bytes = b :: rest ∧ range.1 ≤ b.toNat ∧ b.toNat ≤ range.2 ∧
      utf8Continue (code * 0x40 + (b.toNat - 0x80)) (good + 1) ranges rest = .ok c := by
  obtain ⟨low, high⟩ := range
  cases bytes with
  | nil => cases h
  | cons b rest =>
    rw [utf8Continue] at h
    split at h
    next hrange => exact ⟨b, rest, rfl, hrange.1, hrange.2, h⟩
    next => cases h

theorem utf8EncodeChar_ofNat {code : Nat} (h : code.isValidChar) :
    String.utf8EncodeChar (Char.ofNat code) =
      if code ≤ 0x7F then [.ofNat code]
      else if code ≤ 0x7FF then [.ofNat (code / 64 % 32 + 192), .ofNat (code % 64 + 128)]
      else if code ≤ 0xFFFF then
        [.ofNat (code / 4096 % 16 + 224), .ofNat (code / 64 % 64 + 128), .ofNat (code % 64 + 128)]
      else [.ofNat (code / 262144 % 8 + 240), .ofNat (code / 4096 % 64 + 128),
        .ofNat (code / 64 % 64 + 128), .ofNat (code % 64 + 128)] := by
  have hval : (Char.ofNat code).val.toNat = code := by
    rw [Char.ofNat, dif_pos h]
    rfl
  rw [String.utf8EncodeChar, hval]

theorem eq_ofNat {b : UInt8} {n : Nat} (h : n = b.toNat) : UInt8.ofNat n = b := by
  rw [h, UInt8.ofNat_toNat]

section Sequences

variable {b : UInt8} {bits code : Nat} {range : Nat × Nat} {bytes : List UInt8}

theorem utf8EncodeChar_of_two (h : utf8Continue bits 1 [utf8Tail] bytes = .ok code)
    (hb : b.toNat = 0xC0 + bits) (hlow : 2 ≤ bits) (hhigh : bits < 32) :
    String.utf8EncodeChar (Char.ofNat code) = b :: bytes.take 1 := by
  obtain ⟨b₁, rest, rfl, hlow₁, hhigh₁, h⟩ := utf8Continue_cons h
  obtain rfl := utf8Continue_nil h
  simp only [utf8Tail] at hlow₁ hhigh₁
  have hvalid : (bits * 0x40 + (b₁.toNat - 0x80)).isValidChar := by
    unfold Nat.isValidChar
    omega
  rw [utf8EncodeChar_ofNat hvalid, if_neg (by omega), if_pos (by omega),
    eq_ofNat (b := b) (by omega), eq_ofNat (b := b₁) (by omega)]
  rfl

theorem utf8EncodeChar_of_three (h : utf8Continue bits 1 [range, utf8Tail] bytes = .ok code)
    (hb : b.toNat = 0xE0 + bits) (hbits : bits < 16) (htail : 0x80 ≤ range.1 ∧ range.2 ≤ 0xBF)
    (hshort : bits = 0 → 0xA0 ≤ range.1) (hsurrogate : bits = 0xD → range.2 ≤ 0x9F) :
    String.utf8EncodeChar (Char.ofNat code) = b :: bytes.take 2 := by
  obtain ⟨b₁, rest₁, rfl, hlow₁, hhigh₁, h⟩ := utf8Continue_cons h
  obtain ⟨b₂, rest₂, rfl, hlow₂, hhigh₂, h⟩ := utf8Continue_cons h
  obtain rfl := utf8Continue_nil h
  simp only [utf8Tail] at hlow₂ hhigh₂
  have hvalid : ((bits * 0x40 + (b₁.toNat - 0x80)) * 0x40 + (b₂.toNat - 0x80)).isValidChar := by
    unfold Nat.isValidChar
    omega
  rw [utf8EncodeChar_ofNat hvalid, if_neg (by omega), if_neg (by omega), if_pos (by omega),
    eq_ofNat (b := b) (by omega), eq_ofNat (b := b₁) (by omega), eq_ofNat (b := b₂) (by omega)]
  rfl

theorem utf8EncodeChar_of_four
    (h : utf8Continue bits 1 [range, utf8Tail, utf8Tail] bytes = .ok code)
    (hb : b.toNat = 0xF0 + bits) (hbits : bits ≤ 4) (htail : 0x80 ≤ range.1 ∧ range.2 ≤ 0xBF)
    (hshort : bits = 0 → 0x90 ≤ range.1) (hlong : bits = 4 → range.2 ≤ 0x8F) :
    String.utf8EncodeChar (Char.ofNat code) = b :: bytes.take 3 := by
  obtain ⟨b₁, rest₁, rfl, hlow₁, hhigh₁, h⟩ := utf8Continue_cons h
  obtain ⟨b₂, rest₂, rfl, hlow₂, hhigh₂, h⟩ := utf8Continue_cons h
  obtain ⟨b₃, rest₃, rfl, hlow₃, hhigh₃, h⟩ := utf8Continue_cons h
  obtain rfl := utf8Continue_nil h
  simp only [utf8Tail] at hlow₂ hhigh₂ hlow₃ hhigh₃
  have hvalid : (((bits * 0x40 + (b₁.toNat - 0x80)) * 0x40 + (b₂.toNat - 0x80)) * 0x40 +
      (b₃.toNat - 0x80)).isValidChar := by
    unfold Nat.isValidChar
    omega
  rw [utf8EncodeChar_ofNat hvalid, if_neg (by omega), if_neg (by omega), if_neg (by omega),
    eq_ofNat (b := b) (by omega), eq_ofNat (b := b₁) (by omega), eq_ofNat (b := b₂) (by omega),
    eq_ofNat (b := b₃) (by omega)]
  rfl

/-- A sequence that is read as a character is the one that spells it. -/
theorem utf8EncodeChar_of_lead {lead : Utf8Lead} (hlead : utf8Lead? b.toNat = some lead)
    (h : utf8Continue lead.bits 1 lead.ranges bytes = .ok code) :
    String.utf8EncodeChar (Char.ofNat code) = b :: bytes.take lead.ranges.length := by
  unfold utf8Lead? at hlead
  split_ifs at hlead <;> obtain rfl := Option.some.inj hlead
  · obtain rfl := utf8Continue_nil h
    have hvalid : b.toNat.isValidChar := by
      unfold Nat.isValidChar
      omega
    rw [utf8EncodeChar_ofNat hvalid, if_pos (by omega), eq_ofNat rfl]
    rfl
  · exact utf8EncodeChar_of_two h (by dsimp only; omega) (by dsimp only; omega)
      (by dsimp only; omega)
  -- The first of three bytes is 0xE0, 0xED or another one.
  iterate 3
    · refine utf8EncodeChar_of_three h ?_ ?_ ?_ ?_ ?_ <;> dsimp only [utf8Tail] <;> omega
  -- The first of four bytes is 0xF0, one up to 0xF3, or 0xF4.
  iterate 3
    · refine utf8EncodeChar_of_four h ?_ ?_ ?_ ?_ ?_ <;> dsimp only [utf8Tail] <;> omega

end Sequences

/-- Bytes that are read as characters are those that spell them. -/
theorem flatMap_utf8EncodeChar {bytes : List UInt8} {index skip : Nat} {chars : List Char}
    (h : decodeUtf8From index skip bytes = .ok chars) :
    chars.flatMap String.utf8EncodeChar = bytes.drop skip := by
  induction bytes generalizing index skip chars with
  | nil =>
    unfold decodeUtf8From at h
    cases h
    simp
  | cons b bytes ih =>
    cases skip with
    | succ skip =>
      rw [decodeUtf8From] at h
      exact ih h
    | zero =>
      rw [decodeUtf8From] at h
      cases hlead : utf8Lead? b.toNat with
      | none => simp [hlead] at h
      | some lead =>
        cases hcode : utf8Continue lead.bits 1 lead.ranges bytes with
        | error error => cases error <;> simp [hlead, hcode] at h
        | ok code =>
          simp only [hlead, hcode] at h
          cases hrest : decodeUtf8From (index + 1) lead.ranges.length bytes with
          | error error => simp [hrest, Except.map] at h
          | ok rest =>
            simp only [hrest, Except.map, Except.ok.injEq] at h
            rw [← h, List.flatMap_cons, ih hrest, utf8EncodeChar_of_lead hlead hcode,
              List.cons_append, List.take_append_drop, List.drop_zero]

/-- A text that is read is spelled by the bytes it is read from. -/
theorem flatMap_of_readUtf8 {bytes : List UInt8} {text : String} (h : readUtf8 bytes = .ok text) :
    text.toList.flatMap String.utf8EncodeChar = bytes := by
  rw [readUtf8, decodeUtf8] at h
  cases hchars : decodeUtf8From 0 0 bytes with
  | error error => simp [hchars, Except.map] at h
  | ok chars =>
    obtain rfl : String.ofList chars = text := by simpa [hchars, Except.map] using h
    rw [String.toList_ofList, flatMap_utf8EncodeChar hchars, List.drop_zero]

/-- What can be read is well formed. -/
theorem isValidUTF8_of_readUtf8 {bytes : List UInt8} {text : String}
    (h : readUtf8 bytes = .ok text) : bytes.toByteArray.IsValidUTF8 :=
  ⟨text.toList, by rw [List.utf8Encode, flatMap_of_readUtf8 h]⟩

end QueryGate.Text
