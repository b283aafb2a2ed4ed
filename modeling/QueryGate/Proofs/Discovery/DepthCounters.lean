import QueryGate.Discovery.Scan
import QueryGate.Proofs.Discovery.ByteEnds
import QueryGate.Proofs.Discovery.SlicedItems
import QueryGate.Proofs.Text.Utf8

/-!
# Counters of parentheses

The parentheses that are open are counted in a register of 32 bits, which wraps around. A byte
changes the count by one at most, so the register holds it as long as fewer than `2 ^ 31` bytes are
passed. The end of a list (`countedFromAt?_eq`) and its pieces (`countedTopLevel?_eq`) are then
found where they are found with a count that has no bound. No document is longer than allowed, and
by default that is far below (`byteSize_ofText_le`).
-/

namespace QueryGate

open Text

namespace SelectList

variable {bytes : List UInt8} {depth : ℤ}

/-! ## The register -/

theorem toInt_register (hlt : depth.natAbs < 2 ^ 31) : (Int32.ofInt depth).toInt = depth :=
  Int32.toInt_ofInt_of_le (by omega) (by omega)

theorem register_eq_zero_iff (hlt : depth.natAbs < 2 ^ 31) :
    Int32.ofInt depth = 0 ↔ depth = 0 := by
  rw [← Int32.toInt_inj, toInt_register hlt, Int32.toInt_zero]

theorem register_succ (depth : ℤ) : Int32.ofInt depth + 1 = Int32.ofInt (depth + 1) :=
  (Int32.ofInt_add depth 1).symm

theorem register_pred (depth : ℤ) : Int32.ofInt depth - 1 = Int32.ofInt (depth - 1) :=
  (Int32.ofInt_sub depth 1).symm

/-- A count falls below zero only from zero. -/
theorem register_pred_neg_iff {depth : ℕ} (hlt : depth < 2 ^ 31) :
    Int32.ofInt depth - 1 < 0 ↔ depth = 0 := by
  rw [register_pred, Int32.lt_iff_toInt_lt, toInt_register (by omega), Int32.toInt_zero]
  omega

/-! ## Ends of lists -/

/-- The offset of the `FROM` that ends a list, with the parentheses counted in a register. -/
def countedFromAt? (bytes : List UInt8) (i : ℕ) (depth : Int32) : Option ℕ :=
  if h : i < bytes.length then
    if bytes[i] = '('.toUInt8 then countedFromAt? bytes (i + 1) (depth + 1)
    else if bytes[i] = ')'.toUInt8 then
      if depth - 1 < 0 then none else countedFromAt? bytes (i + 1) (depth - 1)
    else if depth = 0 ∧ keywordAt bytes i fromBytes then some i
    else countedFromAt? bytes (i + 1) depth
  else none
termination_by bytes.length - i

/-- The register does not wrap around before the end of the text. -/
theorem countedFromAt?_eq_fromAt? (bytes : List UInt8) (i depth : ℕ)
    (hlt : depth + (bytes.length - i) < 2 ^ 31) :
    countedFromAt? bytes i (Int32.ofInt depth) = fromAt? bytes i depth := by
  -- the depth and the bytes to come are never more together than before
  fun_induction fromAt? bytes i depth with
  | case1 i depth h hopen ih =>
    rw [countedFromAt?, dif_pos h, if_pos hopen, register_succ, ← ih (by omega)]
    rfl
  | case2 i h hopen hclose =>
    have hneg : Int32.ofInt (0 : ℕ) - 1 < 0 := (register_pred_neg_iff (by omega)).2 rfl
    rw [countedFromAt?, dif_pos h, if_neg hopen, if_pos hclose, if_pos hneg]
  | case3 i depth h hopen hclose hdepth ih =>
    have hnonneg : ¬Int32.ofInt depth - 1 < 0 := mt (register_pred_neg_iff (by omega)).1 hdepth
    have hpred : ((depth - 1 : ℕ) : ℤ) = (depth : ℤ) - 1 := by omega
    rw [countedFromAt?, dif_pos h, if_neg hopen, if_pos hclose, if_neg hnonneg, register_pred,
      ← ih (by omega), hpred]
  | case4 i depth h hopen hclose hfrom =>
    have hzero : Int32.ofInt depth = 0 := (register_eq_zero_iff (by omega)).2 (by omega)
    rw [countedFromAt?, dif_pos h, if_neg hopen, if_neg hclose, if_pos ⟨hzero, hfrom.2⟩]
  | case5 i depth h hopen hclose hfrom ih =>
    have hzero : Int32.ofInt depth = 0 ↔ (depth : ℤ) = 0 := register_eq_zero_iff (by omega)
    rw [countedFromAt?, dif_pos h, if_neg hopen, if_neg hclose, if_neg, ← ih (by omega)]
    rwa [hzero, Int.natCast_eq_zero]
  | case6 i depth h => rw [countedFromAt?, dif_neg h]

/-- With a register, lists end where they do by their characters. -/
theorem countedFromAt?_eq (front cs : List Char) (hlt : byteSize (front ++ cs) < 2 ^ 31) :
    countedFromAt? (bytesOf (front ++ cs)) (byteSize front) 0 =
      (cutAtFrom? front.getLast? 0 cs).map fun (list, _) => byteSize front + byteSize list := by
  have hbytes : 0 + ((bytesOf (front ++ cs)).length - byteSize front) < 2 ^ 31 := by
    rw [Nat.zero_add]
    exact (Nat.sub_le _ _).trans_lt hlt
  exact (countedFromAt?_eq_fromAt? _ _ 0 hbytes).trans (fromAt?_eq front cs 0)

/-! ## Pieces -/

/-- The pieces of a text between the separators outside of parentheses, as slices, with the
    parentheses counted in a register. -/
def countedPieces? (text : List Char) (separator : UInt8) (last i : ℕ) (depth : Int32) :
    List UInt8 → Option (List (List Char))
  | [] => (slice? text last (byteSize text)).map fun piece => [piece]
  | b :: bytes =>
    if b = '('.toUInt8 then countedPieces? text separator last (i + 1) (depth + 1) bytes
    else if b = ')'.toUInt8 then countedPieces? text separator last (i + 1) (depth - 1) bytes
    else if b = separator ∧ depth = 0 then
      (slice? text last i).bind fun piece =>
        (countedPieces? text separator (i + 1) (i + 1) depth bytes).map (piece :: ·)
    else countedPieces? text separator last (i + 1) depth bytes

/-- The register does not wrap around on either side before the end of the text. -/
theorem countedPieces?_eq (text : List Char) (separator : UInt8) (last i : ℕ)
    (hlt : depth.natAbs + bytes.length < 2 ^ 31) :
    countedPieces? text separator last i (Int32.ofInt depth) bytes =
      slicedPieces? text separator last i depth bytes := by
  induction bytes generalizing last i depth with
  | nil => rfl
  | cons b bytes ih =>
    rw [List.length_cons] at hlt
    have hsep : b = separator ∧ Int32.ofInt depth = 0 ↔ b = separator ∧ depth = 0 :=
      and_congr_right fun _ => register_eq_zero_iff (by omega)
    -- the depth may fall below zero here, so that the bound is on its size
    rw [countedPieces?, slicedPieces?, register_succ, register_pred, ih last (i + 1) (by omega),
      ih last (i + 1) (by omega), ih (i + 1) (i + 1) (by omega), ih last (i + 1) (by omega)]
    simp only [hsep]

/-- With a register, a text is split into the pieces between its characters. -/
theorem countedTopLevel?_eq {separator : Char} (hseparator : separator.toNat < 0x80)
    (text : List Char) (hlt : byteSize text < 2 ^ 31) :
    countedPieces? text separator.toUInt8 0 0 0 (bytesOf text) =
      some (splitTopLevel separator text) := by
  have hbytes : (0 : ℤ).natAbs + (bytesOf text).length < 2 ^ 31 := by
    rwa [Int.natAbs_zero, Nat.zero_add]
  exact (countedPieces?_eq text _ 0 0 hbytes).trans (slicedTopLevel?_eq hseparator text)

end SelectList

/-! ## Documents -/

/-- No document is longer than allowed. -/
theorem byteSize_ofText_le {limits : ScanLimits} {bytes : List UInt8} {text : String}
    (hread : readDocument limits bytes = .ok text) (object : String) (kind : DocumentKind) :
    byteSize (Document.ofText object kind text).text ≤ limits.maxBytes := by
  rw [readDocument] at hread
  split_ifs at hread with hlong
  cases htext : readUtf8 bytes with
  | error error => rw [htext] at hread; cases hread
  | ok text' =>
    rw [htext] at hread
    obtain rfl : text' = text := Except.ok.inj hread
    have hsize : byteSize text'.toList = bytes.length :=
      congrArg List.length (flatMap_of_readUtf8 htext)
    exact (byteSize_unifyLineEnds_le _).trans (hsize.trans_le (not_lt.1 hlong))

example : ({} : ScanLimits).maxBytes < 2 ^ 31 := by decide

end QueryGate
