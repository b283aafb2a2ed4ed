import QueryGate.Proofs.Text.Bytes
import QueryGate.Text.Scan

/-!
# Offsets into the bytes of a text

A place in a text is given by the number of bytes before it. Between bytes of one character there is
no such place, so that a text cannot be cut there: what stands between two offsets is a text if
both are boundaries of characters (`slice?_eq_some_iff`).

The characters of ASCII are single bytes, and all bytes of the others are beyond ASCII. So a search
for characters of ASCII may go by bytes (`bytesOf_cons_ascii`, `le_of_mem_utf8EncodeChar`).
-/

namespace QueryGate.Text

variable {cs ds front middle back : List Char} {c d : Char} {b : UInt8} {i : ℕ}

/-- The number of bytes of a text. -/
def byteSize (cs : List Char) : ℕ := (bytesOf cs).length

@[simp] theorem bytesOf_nil : bytesOf [] = [] := rfl

@[simp] theorem bytesOf_append (cs ds : List Char) :
    bytesOf (cs ++ ds) = bytesOf cs ++ bytesOf ds := List.flatMap_append

@[simp] theorem byteSize_nil : byteSize [] = 0 := rfl

@[simp] theorem byteSize_append (cs ds : List Char) :
    byteSize (cs ++ ds) = byteSize cs + byteSize ds := by
  rw [byteSize, bytesOf_append, List.length_append, byteSize, byteSize]

theorem byteSize_cons (c : Char) (cs : List Char) :
    byteSize (c :: cs) = c.utf8Size + byteSize cs := by
  rw [byteSize, bytesOf_cons, List.length_append, String.length_utf8EncodeChar, byteSize]

theorem byteSize_pos (h : cs ≠ []) : 0 < byteSize cs := by
  obtain ⟨c, cs, rfl⟩ := List.exists_cons_of_ne_nil h
  rw [byteSize_cons]
  exact Nat.add_pos_left c.utf8Size_pos _

/-- A text does not grow if what is found in it gives way to what is no longer than the character
    it begins with. -/
theorem byteSize_replaceAll_le {m : Matcher (List Char)}
    (hm : ∀ before c cs value rest, m before (c :: cs) = some (value, rest) →
      byteSize value ≤ c.utf8Size) (cs : List Char) : byteSize (replaceAll m cs) ≤ byteSize cs := by
  rw [replaceAll, pieces]
  -- what is passed over as part of a match only makes the text shorter
  generalize (none : Option Char) = before, 0 = skip
  induction cs generalizing before skip with
  | nil => cases skip <;> exact le_rfl
  | cons c cs ih =>
    rw [byteSize_cons]
    cases skip with
    | succ skip => exact (ih (some c) skip).trans (Nat.le_add_left _ _)
    | zero =>
      rw [piecesFrom]
      cases hfound : m before (c :: cs) with
      | none =>
        rw [List.flatMap_cons, byteSize_append, byteSize_cons, byteSize_nil, Nat.add_zero]
        exact Nat.add_le_add_left (ih _ _) _
      | some found =>
        rw [List.flatMap_cons, byteSize_append]
        exact Nat.add_le_add (hm _ _ _ _ _ hfound) (ih _ _)

theorem byteSize_unifyLineEnds_le (cs : List Char) : byteSize (unifyLineEnds cs) ≤ byteSize cs := by
  refine byteSize_replaceAll_le (fun before c cs value rest hfound => ?_) cs
  obtain ⟨_, -, hvalue⟩ := Option.map_eq_some_iff.1 hfound
  obtain ⟨rfl, -⟩ := Prod.mk.inj hvalue
  exact c.utf8Size_pos

/-! ## Slices -/

/-- A place between two characters of a text, or at an end of it. -/
def IsBoundary (cs : List Char) (i : ℕ) : Prop :=
  ∃ front back, cs = front ++ back ∧ byteSize front = i

/-- Cuts a text at an offset, if that is the place of a boundary. -/
def cutAt? : ℕ → List Char → Option (List Char × List Char)
  | 0, cs => some ([], cs)
  | _ + 1, [] => none
  | i + 1, c :: cs =>
    if c.utf8Size ≤ i + 1 then
      (cutAt? (i + 1 - c.utf8Size) cs).map fun (front, back) => (c :: front, back)
    else none

/-- The text between two offsets, if both are boundaries and the first one is not behind the
    second. -/
def slice? (cs : List Char) (i j : ℕ) : Option (List Char) :=
  if i ≤ j then
    (cutAt? i cs).bind fun (_, back) => (cutAt? (j - i) back).map fun (middle, _) => middle
  else none

theorem cutAt?_append (front back : List Char) :
    cutAt? (byteSize front) (front ++ back) = some (front, back) := by
  induction front with
  | nil => rw [byteSize_nil, List.nil_append, cutAt?]
  | cons c front ih =>
    obtain ⟨n, hn⟩ := Nat.exists_eq_add_of_le' c.utf8Size_pos
    have hsize : byteSize (c :: front) = n + byteSize front + 1 := by
      rw [byteSize_cons, hn]
      omega
    have hrest : n + byteSize front + 1 - c.utf8Size = byteSize front := by omega
    rw [hsize, List.cons_append, cutAt?, if_pos (by omega), hrest, ih]
    rfl

theorem exists_of_cutAt? (h : cutAt? i cs = some (front, back)) :
    cs = front ++ back ∧ byteSize front = i := by
  induction cs generalizing i front with
  | nil =>
    cases i <;> cases h
    exact ⟨rfl, rfl⟩
  | cons c cs ih =>
    cases i with
    | zero =>
      cases h
      exact ⟨rfl, rfl⟩
    | succ i =>
      rw [cutAt?] at h
      split_ifs at h with hle
      obtain ⟨⟨front', back'⟩, hcut, hpair⟩ := Option.map_eq_some_iff.1 h
      cases hpair
      obtain ⟨rfl, hsize⟩ := ih hcut
      exact ⟨rfl, by rw [byteSize_cons, hsize]; omega⟩

theorem slice?_append (front middle back : List Char) :
    slice? (front ++ (middle ++ back)) (byteSize front) (byteSize front + byteSize middle) =
      some middle := by
  rw [slice?, if_pos (Nat.le_add_right _ _), cutAt?_append, Nat.add_sub_cancel_left]
  dsimp only [Option.bind_some]
  rw [cutAt?_append]
  rfl

/-- There is a slice between two offsets only if both are boundaries. -/
theorem slice?_eq_some_iff {j : ℕ} :
    slice? cs i j = some middle ↔ ∃ front back, cs = front ++ (middle ++ back) ∧
      byteSize front = i ∧ byteSize (front ++ middle) = j := by
  constructor
  · intro h
    rw [slice?] at h
    split_ifs at h with hle
    obtain ⟨⟨front, rest⟩, hfront, h⟩ := Option.bind_eq_some_iff.1 h
    obtain ⟨⟨middle', back⟩, hmiddle, rfl⟩ := Option.map_eq_some_iff.1 h
    obtain ⟨rfl, rfl⟩ := exists_of_cutAt? hfront
    obtain ⟨rfl, hsize⟩ := exists_of_cutAt? hmiddle
    exact ⟨front, back, rfl, rfl, by rw [byteSize_append, hsize, Nat.add_sub_cancel' hle]⟩
  · rintro ⟨front, back, rfl, rfl, rfl⟩
    rw [byteSize_append]
    exact slice?_append front middle back

/-- The text from a boundary on. -/
theorem slice?_from (front back : List Char) :
    slice? (front ++ back) (byteSize front) (byteSize (front ++ back)) = some back := by
  have hall := slice?_append front back []
  rwa [List.append_nil, ← byteSize_append] at hall

theorem IsBoundary.le (h : IsBoundary cs i) : i ≤ byteSize cs := by
  obtain ⟨front, back, rfl, rfl⟩ := h
  rw [byteSize_append]
  exact Nat.le_add_right _ _

/-! ## Characters of ASCII -/

theorem utf8EncodeChar_ascii (h : c.toNat < 0x80) : String.utf8EncodeChar c = [c.toUInt8] := by
  refine String.utf8EncodeChar_eq_singleton (Char.utf8Size_eq_one_iff.2 ?_)
  exact UInt32.le_iff_toNat_le.2 (Nat.le_of_lt_succ h)

theorem bytesOf_cons_ascii (h : c.toNat < 0x80) (cs : List Char) :
    bytesOf (c :: cs) = c.toUInt8 :: bytesOf cs := by
  rw [bytesOf_cons, utf8EncodeChar_ascii h]
  rfl

theorem byteSize_ascii (h : c.toNat < 0x80) : byteSize [c] = 1 := by
  rw [byteSize, bytesOf_cons_ascii h]
  rfl

theorem toNat_toUInt8 (hc : c.toNat < 0x80) : c.toUInt8.toNat = c.toNat := by
  rw [Char.toUInt8, UInt32.toNat_toUInt8]
  exact Nat.mod_eq_of_lt (hc.trans (by decide))

theorem toUInt8_inj (hc : c.toNat < 0x80) (hd : d.toNat < 0x80) :
    c.toUInt8 = d.toUInt8 ↔ c = d := by
  rw [← UInt8.toNat_inj, toNat_toUInt8 hc, toNat_toUInt8 hd, Char.toNat_inj]

theorem ne_toUInt8 (hb : 0x80 ≤ b) (hc : c.toNat < 0x80) : b ≠ c.toUInt8 := by
  rintro rfl
  have hle := UInt8.le_iff_toNat_le.1 hb
  rw [toNat_toUInt8 hc] at hle
  exact absurd hc (not_lt.2 hle)

theorem le_ofNat {n : ℕ} (hlow : 0x80 ≤ n) (hhigh : n < 0x100) : 0x80 ≤ UInt8.ofNat n := by
  rw [UInt8.le_iff_toNat_le, UInt8.toNat_ofNat_of_lt' hhigh]
  exact hlow

/-- The bytes of a character beyond ASCII are beyond ASCII. -/
theorem le_of_mem_utf8EncodeChar (h : 0x80 ≤ c.toNat) (hb : b ∈ String.utf8EncodeChar c) :
    0x80 ≤ b := by
  have hcode : ¬c.val.toNat ≤ 0x7f := not_le.2 h
  simp only [String.utf8EncodeChar, if_neg hcode] at hb
  split_ifs at hb <;> simp only [List.mem_cons, List.not_mem_nil, or_false] at hb
  · rcases hb with rfl | rfl <;> exact le_ofNat (by omega) (by omega)
  · rcases hb with rfl | rfl | rfl <;> exact le_ofNat (by omega) (by omega)
  · rcases hb with rfl | rfl | rfl | rfl <;> exact le_ofNat (by omega) (by omega)

/-- What holds for the characters of ASCII, by their codes. -/
theorem forall_ascii {p : Char → Prop} (h : ∀ n < 128, p (Char.ofNat n)) (hc : c.toNat < 0x80) :
    p c := by
  have hp := h c.toNat hc
  rwa [Char.ofNat_toNat] at hp

end QueryGate.Text
