import Mathlib.Data.String.Basic
import Mathlib.Tactic.SplitIfs
import QueryGate.Text.Utf8

/-!
# Texts by their bytes

The bytes of a text are those of its characters (`bytesOf`). Texts are ordered as their bytes
are (`writeUtf8_lt`): of two characters the bytes of neither begin those of the other, and the
first byte that tells them apart is the smaller one in the smaller character.
-/

namespace QueryGate.Text

variable {cs ds : List Char} {c d : Char}

/-- The bytes that spell a text. -/
def bytesOf (cs : List Char) : List UInt8 := cs.flatMap String.utf8EncodeChar

theorem bytesOf_cons (c : Char) (cs : List Char) :
    bytesOf (c :: cs) = String.utf8EncodeChar c ++ bytesOf cs := List.flatMap_cons

theorem toList_loop (bytes : ByteArray) (i : ℕ) (read : List UInt8) :
    ByteArray.toList.loop bytes i read = read.reverse ++ bytes.data.toList.drop i := by
  induction hleft : bytes.size - i generalizing i read with
  | zero =>
    have hend : ¬i < bytes.size := by omega
    rw [ByteArray.toList.loop, if_neg hend, List.drop_eq_nil_of_le (Nat.not_lt.1 hend),
      List.append_nil]
  | succ n ih =>
    have hi : i < bytes.size := by omega
    have hi' : i < bytes.data.toList.length := hi
    have hget : bytes.get! i = bytes.data.toList[i] := getElem!_pos bytes.data i hi
    rw [ByteArray.toList.loop, if_pos hi, ih (i + 1) _ (by omega), hget,
      List.drop_eq_getElem_cons hi', List.reverse_cons, List.append_assoc]
    rfl

theorem writeUtf8_eq (s : String) : writeUtf8 s = bytesOf s.toList := by
  have hbytes : s.toByteArray = (bytesOf s.toList).toByteArray := String.utf8Encode_toList.symm
  rw [writeUtf8, String.toUTF8, hbytes, ByteArray.toList, toList_loop, List.drop_zero,
    List.toList_data_toByteArray]
  rfl

/-! ## Order -/

theorem ofNat_cons_lt_iff {m n : ℕ} {front back : List UInt8} (hm : m < 256) (hn : n < 256) :
    UInt8.ofNat m :: front < UInt8.ofNat n :: back ↔ m < n ∨ m = n ∧ front < back := by
  have hm' : (UInt8.ofNat m).toNat = m := UInt8.toNat_ofNat_of_lt' hm
  have hn' : (UInt8.ofNat n).toNat = n := UInt8.toNat_ofNat_of_lt' hn
  rw [List.cons_lt_cons_iff, UInt8.lt_iff_toNat_lt, ← UInt8.toNat_inj, hm', hn']

/-- Sequences of four bytes compare by the first digit to the base 64 that tells them apart. -/
theorem fourBytes_lt {m n : ℕ} (h : m < n) (hn : n < 0x110000) (front back : List UInt8) :
    UInt8.ofNat (m / 262144 % 8 + 240) :: .ofNat (m / 4096 % 64 + 128) ::
        .ofNat (m / 64 % 64 + 128) :: .ofNat (m % 64 + 128) :: front <
      UInt8.ofNat (n / 262144 % 8 + 240) :: .ofNat (n / 4096 % 64 + 128) ::
        .ofNat (n / 64 % 64 + 128) :: .ofNat (n % 64 + 128) :: back := by
  simp (disch := omega) only [ofNat_cons_lt_iff]
  rcases Nat.lt_or_ge (m / 262144) (n / 262144) with hfirst | hfirst
  · omega
  · refine .inr ⟨by omega, ?_⟩
    rcases Nat.lt_or_ge (m / 4096) (n / 4096) with hsecond | hsecond
    · omega
    · refine .inr ⟨by omega, ?_⟩
      omega

/-- The bytes of characters compare as the characters do, whatever follows. -/
theorem utf8EncodeChar_lt (h : c < d) (front back : List UInt8) :
    String.utf8EncodeChar c ++ front < String.utf8EncodeChar d ++ back := by
  have hmax : d.val.toNat < 0x110000 := by
    have hvalid : d.val.toNat.isValidChar := d.valid
    unfold Nat.isValidChar at hvalid
    omega
  have hcode : c.val.toNat < d.val.toNat := h
  simp only [String.utf8EncodeChar]
  generalize c.val.toNat = m at hcode
  generalize d.val.toNat = n at hcode hmax
  by_cases hlong : 0xFFFF < m
  · rw [if_neg (by omega), if_neg (by omega), if_neg (by omega), if_neg (by omega),
      if_neg (by omega), if_neg (by omega)]
    exact fourBytes_lt hcode hmax front back
  · -- the first bytes tell the lengths of sequences apart
    split_ifs <;>
      simp (disch := omega) only [List.cons_append, List.nil_append, ofNat_cons_lt_iff] <;> omega

/-- The bytes of texts compare as the texts do. -/
theorem bytesOf_lt (h : cs < ds) : bytesOf cs < bytesOf ds := by
  induction h with
  | @nil d ds =>
    obtain ⟨b, bytes, hb⟩ := List.exists_cons_of_ne_nil (String.utf8EncodeChar_ne_nil (c := d))
    rw [bytesOf_cons, hb]
    exact List.nil_lt_cons _ _
  | rel h =>
    rw [bytesOf_cons, bytesOf_cons]
    exact utf8EncodeChar_lt h _ _
  | cons _ ih =>
    rw [bytesOf_cons, bytesOf_cons]
    exact List.append_left_lt ih

theorem writeUtf8_lt {s t : String} (h : s < t) : writeUtf8 s < writeUtf8 t := by
  rw [writeUtf8_eq, writeUtf8_eq]
  exact bytesOf_lt (String.lt_iff_toList_lt.1 h)

end QueryGate.Text
