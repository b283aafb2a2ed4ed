import QueryGate.Json.Written
import QueryGate.Proofs.Number.Shortest

/-!
# Reading numerals

A numeral is digits, perhaps a point with digits behind it, perhaps an exponent
(`Json.Numeral.text`).

* `Real64.ofText?_numeral`: a numeral is read as the decimal that it writes;
* `Real64.ofDecimal_of_covers`: a decimal in the interval of a number is read as the
  number.
-/

namespace QueryGate

/-! ## Decimals in an interval -/

namespace Binary64

/-- The range of the format lies well within that of the decimals that are looked at. -/
theorem two_pow_lt_ten_pow : (2 : ℚ) ^ 1200 < 10 ^ 400 :=
  calc (2 : ℚ) ^ 1200 = (2 ^ 12) ^ 100 := by rw [← pow_mul]
    _ < (10 ^ 4) ^ 100 := by
      gcongr
      norm_num
    _ = 10 ^ 400 := by rw [← pow_mul]

theorem Covers.lower {x : Binary64} (hx : x.mantissa ≠ 0) {q : ℚ} (h : x.Covers q) :
    (10 : ℚ) ^ (-400 : ℤ) < q := by
  have hm : (1 : ℚ) ≤ x.mantissa := by exact_mod_cast Nat.one_le_iff_ne_zero.2 hx
  have hreach := x.reach_le
  have hmin : (-1074 : ℤ) ≤ x.exponent := x.normal.2.1
  have hten : (10 : ℚ) ^ (-400 : ℤ) < 2 ^ (-1200 : ℤ) := by
    rw [zpow_neg, zpow_neg]
    exact inv_strictAnti₀ (by positivity) two_pow_lt_ten_pow
  calc (10 : ℚ) ^ (-400 : ℤ) < 2 ^ (-1200 : ℤ) := hten
    _ ≤ 2 ^ (x.exponent - 1) := zpow_le_zpow_right₀ one_le_two (by omega)
    _ = 1 / 2 * 2 ^ x.exponent := by rw [zpow_sub_one₀ two_ne_zero]; ring
    _ ≤ (x.mantissa - x.reach) * 2 ^ x.exponent := by
      gcongr
      linarith
    _ ≤ q := h.low.elim le_of_lt fun h => h.1.le

theorem Covers.upper {x : Binary64} {q : ℚ} (h : x.Covers q) : q < 10 ^ (400 : ℤ) := by
  have hm : (x.mantissa : ℚ) + 1 ≤ 2 ^ 53 := by exact_mod_cast x.normal.1
  have hmax : x.exponent ≤ (971 : ℤ) := x.normal.2.2.1
  calc q ≤ (x.mantissa + 1 / 2) * 2 ^ x.exponent := h.high.elim le_of_lt fun h => h.1.le
    _ ≤ 2 ^ 53 * 2 ^ x.exponent := by
      gcongr
      linarith
    _ = 2 ^ (53 + x.exponent) := two_zpow_add 53 _
    _ ≤ 2 ^ (1200 : ℤ) := zpow_le_zpow_right₀ one_le_two (by omega)
    _ < 10 ^ (400 : ℤ) := two_pow_lt_ten_pow

end Binary64

/-- A decimal in the interval of a number is read as the number. -/
theorem Real64.ofDecimal_of_covers {x : Binary64} (hx : x.mantissa ≠ 0) (negative : Bool)
    {digits : ℕ} {e : ℤ} (h : x.Covers (digits * 10 ^ e)) :
    ofDecimal negative digits e = .finite (x.withSign negative) := by
  have hlow := h.lower hx
  have hpos : (0 : ℚ) < digits * 10 ^ e := lt_trans (by positivity) hlow
  have hdigits : digits ≠ 0 := by
    rintro rfl
    simp at hpos
  obtain ⟨hge, hlt⟩ := Decimal.toDigits_bounds hdigits
  set length := (Nat.toDigits 10 digits).length with hlength
  have hlength' : 0 < length := Nat.length_toDigits_pos
  have h10 : (10 : ℚ) ≠ 0 := by norm_num
  -- the first digit is within the range that is looked at
  have hsmall : ¬(length + e < -400) := by
    intro hsize
    have hlt : (digits : ℚ) < 10 ^ (length : ℤ) := by exact_mod_cast hlt
    refine hlow.not_ge ?_
    calc (digits : ℚ) * 10 ^ e ≤ 10 ^ (length : ℤ) * 10 ^ e := by gcongr
      _ = 10 ^ (length + e) := (zpow_add₀ h10 _ _).symm
      _ ≤ 10 ^ (-400 : ℤ) := zpow_le_zpow_right₀ (by norm_num) hsize.le
  have hlarge : ¬(400 < length + e) := by
    intro hsize
    have hge : (10 : ℚ) ^ (length - 1 : ℤ) ≤ digits := by
      rw [← Nat.cast_pred hlength', zpow_natCast]
      exact_mod_cast hge
    refine h.upper.not_ge ?_
    calc (10 : ℚ) ^ (400 : ℤ) ≤ 10 ^ (length - 1 + e) :=
          zpow_le_zpow_right₀ (by norm_num) (by omega)
      _ = 10 ^ (length - 1 : ℤ) * 10 ^ e := zpow_add₀ h10 _ _
      _ ≤ digits * 10 ^ e := by gcongr
  have hratio : ((digits * tenTo e.toNat : ℕ) : ℚ) / (tenTo (-e).toNat : ℕ) = digits * 10 ^ e := by
    rw [← pow_toNat_div h10 e]
    push_cast [cast_tenTo]
    ring
  simp only [ofDecimal, ← hlength, hdigits, hsmall, hlarge, or_self, if_false]
  rw [Binary64.nearest?_of_covers negative (Nat.mul_pos (Nat.pos_of_ne_zero hdigits) (tenTo_pos _))
    (tenTo_pos _) (hratio ▸ h)]

/-! ## Numerals -/

/-- Whether a text consists of digits. -/
def AllDigits (cs : List Char) : Prop := ∀ c ∈ cs, c.isDigit = true

theorem allDigits_toDigits (n : ℕ) : AllDigits (Nat.toDigits 10 n) := fun _ hc =>
  Nat.isDigit_of_mem_toDigits (by decide) (by decide) hc

theorem AllDigits.append {cs ds : List Char} (hc : AllDigits cs) (hd : AllDigits ds) :
    AllDigits (cs ++ ds) := fun c h => (List.mem_append.1 h).elim (hc c) (hd c)

theorem allDigits_zeros (n : ℕ) : AllDigits (List.replicate n '0') := fun c hc => by
  rw [List.eq_of_mem_replicate hc]
  rfl

theorem AllDigits.take {cs : List Char} (hc : AllDigits cs) (n : ℕ) : AllDigits (cs.take n) :=
  fun c h => hc c (List.mem_of_mem_take h)

theorem AllDigits.drop {cs : List Char} (hc : AllDigits cs) (n : ℕ) : AllDigits (cs.drop n) :=
  fun c h => hc c (List.mem_of_mem_drop h)

/-- Reading digits stops at the first other character. -/
theorem spanDigits_append {ds rest : List Char} (hds : AllDigits ds)
    (hrest : ∀ c ∈ rest.head?, c.isDigit = false) : spanDigits (ds ++ rest) = (ds, rest) := by
  have hstop : rest.takeWhile Char.isDigit = [] ∧ rest.dropWhile Char.isDigit = rest := by
    cases rest with
    | nil => exact ⟨rfl, rfl⟩
    | cons c cs =>
      have hc := hrest c rfl
      simp [hc]
  simp only [spanDigits]
  rw [List.takeWhile_append_of_pos hds, List.dropWhile_append_of_pos hds, hstop.1, hstop.2,
    List.append_nil]

namespace Json.Numeral

/-- The digits of a numeral, before and behind the point. -/
def digits (n : Numeral) : List Char := n.whole ++ n.fraction.getD []

/-- The power of ten of the last digit of a numeral. -/
def place (n : Numeral) : ℤ := n.power - (n.fraction.getD []).length

/-- The text of the exponent of a numeral, which always has a sign. -/
def exponentText (n : Numeral) : List Char :=
  n.exponent.elim [] fun p => 'e' :: (if p.1 then '-' else '+') :: p.2

/-- The text of a numeral. -/
def text (n : Numeral) : List Char :=
  (if n.negative then ['-'] else []) ++ n.whole ++ n.fraction.elim [] (fun ds => '.' :: ds) ++
    n.exponentText

/-- A numeral has digits in all its places, and one before the point at least. -/
structure IsProper (n : Numeral) : Prop where
  whole_ne_nil : n.whole ≠ []
  whole_digits : AllDigits n.whole
  fraction_digits : ∀ ds ∈ n.fraction, AllDigits ds
  exponent_ne_nil : ∀ p ∈ n.exponent, p.2 ≠ []
  exponent_digits : ∀ p ∈ n.exponent, AllDigits p.2

end Json.Numeral

namespace Real64

open Json

theorem sign_of_isDigit {c : Char} (hc : c.isDigit = true) (cs : List Char) :
    sign (c :: cs) = (false, c :: cs) := by
  unfold sign
  split
  · next h =>
    obtain ⟨rfl, rfl⟩ := List.cons.inj h
    cases hc
  · next h =>
    obtain ⟨rfl, rfl⟩ := List.cons.inj h
    cases hc
  · rfl

/-- The sign of a numeral and what follows it. -/
theorem sign_text {n : Numeral} (hn : n.IsProper) :
    sign n.text = (n.negative, { n with negative := false }.text) := by
  obtain ⟨c, cs, hw⟩ := List.exists_cons_of_ne_nil hn.whole_ne_nil
  cases hneg : n.negative with
  | true => simp [Numeral.text, hneg, sign, Numeral.exponentText]
  | false =>
    simp only [Numeral.text, hneg, hw, Bool.false_eq_true, if_false, List.nil_append,
      List.cons_append]
    exact sign_of_isDigit (hn.whole_digits c (by simp [hw])) _

/-- The exponent of a numeral is read back. -/
theorem exponent?_text {n : Numeral} (hn : n.IsProper) :
    exponent? n.exponentText = some n.power := by
  rw [Numeral.exponentText]
  cases he : n.exponent with
  | none => simp [exponent?, Numeral.power, he]
  | some p =>
    obtain ⟨negative, ds⟩ := p
    have hne : ds ≠ [] := hn.exponent_ne_nil (negative, ds) (by simp [he])
    have hall : ds.all Char.isDigit = true :=
      List.all_eq_true.2 (hn.exponent_digits (negative, ds) (by simp [he]))
    cases negative <;> simp [exponent?, sign, Numeral.power, he, hne, hall]

/-- The exponent of a numeral does not start with a digit, and neither does what is not there. -/
theorem head_exponent (n : Numeral) :
    ∀ c ∈ n.exponentText.head?, c = 'e' := by
  rw [Numeral.exponentText]
  cases n.exponent with
  | none => simp
  | some p => simp

/-- Digits are read without a point behind them. -/
theorem magnitude?_whole {whole ending : List Char} (hne : whole ≠ []) (hwhole : AllDigits whole)
    (hend : ∀ c ∈ ending.head?, c = 'e') (negative : Bool) :
    magnitude? negative (whole ++ ending) =
      (exponent? ending).map (ofDecimal negative (digitsValue 0 whole)) := by
  have hspan : spanDigits (whole ++ ending) = (whole, ending) :=
    spanDigits_append hwhole fun c hc => by rw [hend c hc]; rfl
  simp only [magnitude?, hspan]
  cases ending with
  | nil => simp [hne]
  | cons c cs =>
    obtain rfl := hend c rfl
    simp [hne]

/-- Digits are read with a point and more digits behind them. -/
theorem magnitude?_fraction {whole ds ending : List Char} (hne : whole ≠ [])
    (hwhole : AllDigits whole) (hds : AllDigits ds) (hend : ∀ c ∈ ending.head?, c = 'e')
    (negative : Bool) :
    magnitude? negative (whole ++ '.' :: (ds ++ ending)) =
      (exponent? ending).map fun e =>
        ofDecimal negative (digitsValue 0 (whole ++ ds)) (e - ds.length) := by
  have hspan : spanDigits (whole ++ '.' :: (ds ++ ending)) = (whole, '.' :: (ds ++ ending)) :=
    spanDigits_append hwhole (by simp)
  have hspan' : spanDigits (ds ++ ending) = (ds, ending) :=
    spanDigits_append hds fun c hc => by rw [hend c hc]; rfl
  simp [magnitude?, hspan, hspan', hne]

/-- What a numeral without a sign writes is read as a whole. -/
theorem magnitude?_text {n : Numeral} (hn : n.IsProper) (hneg : n.negative = false)
    (negative : Bool) :
    magnitude? negative n.text = some (ofDecimal negative (digitsValue 0 n.digits) n.place) := by
  simp only [Numeral.text, hneg, Bool.false_eq_true, if_false, List.nil_append]
  cases hf : n.fraction with
  | none =>
    simp only [Option.elim_none, List.append_nil]
    rw [magnitude?_whole hn.whole_ne_nil hn.whole_digits (head_exponent n), exponent?_text hn]
    simp [Numeral.digits, Numeral.place, hf]
  | some ds =>
    simp only [Option.elim_some, List.append_assoc, List.cons_append]
    rw [magnitude?_fraction hn.whole_ne_nil hn.whole_digits (hn.fraction_digits ds hf)
      (head_exponent n), exponent?_text hn]
    simp [Numeral.digits, Numeral.place, hf]

theorem toLower_of_isDigit {c : Char} (hc : c.isDigit = true) : c.toLower = c := by
  have hle : c.toNat ≤ '9'.toNat := (Char.isDigit_iff_toNat.1 hc).2
  have hupper : ¬(c.val ≥ 'A'.val ∧ c.val ≤ 'Z'.val) := by
    rintro ⟨h, -⟩
    exact absurd ((UInt32.le_iff_toNat_le.1 h).trans hle) (by decide)
  exact dif_neg hupper

/-- A text that starts with a digit is no word. -/
theorem lowered_ne_of_isDigit {c w : Char} (hc : c.isDigit = true) (hw : w.isDigit = false)
    (cs ws : List Char) : Text.lowered (c :: cs) ≠ w :: ws := by
  intro h
  have hlower : c.toLower = w := (List.cons.inj h).1
  rw [toLower_of_isDigit hc] at hlower
  rw [hlower, hw] at hc
  cases hc

/-- A numeral is read as what it writes. -/
theorem ofText?_numeral {n : Numeral} (hn : n.IsProper) :
    ofText? n.text = some (ofDecimal n.negative (digitsValue 0 n.digits) n.place) := by
  obtain ⟨c, cs, hw⟩ := List.exists_cons_of_ne_nil hn.whole_ne_nil
  have hc : c.isDigit = true := hn.whole_digits c (by simp [hw])
  have hstart : ∃ rest, { n with negative := false }.text = c :: rest := by
    simp [Numeral.text, hw]
  obtain ⟨rest, hrest⟩ := hstart
  have hproper : { n with negative := false }.IsProper := ⟨hn.1, hn.2, hn.3, hn.4, hn.5⟩
  have hmag := magnitude?_text hproper rfl n.negative
  have hword : ∀ w ws, w.isDigit = false → Text.lowered (c :: rest) ≠ w :: ws :=
    fun w ws hw => lowered_ne_of_isDigit hc hw rest ws
  simp only [ofText?, sign_text hn]
  rw [hrest, if_neg, if_neg, ← hrest, hmag]
  · rfl
  · exact hword 'n' _ rfl
  · rintro (h | h)
    · exact hword 'i' _ rfl h
    · exact hword 'i' _ rfl h

end Real64

end QueryGate
