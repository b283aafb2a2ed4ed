import QueryGate.Proofs.Number.Reading

/-!
# Numbers read back

However a decimal is laid out, it is a numeral that writes the same rational
(`DecimalStyle.exists_numeral_layOut`). So the text of a number is a numeral, and the
number is read back from it (`Real64.ofText?_text`, `JsonNumber.ofText?_text`).
-/

namespace QueryGate

/-! ## Laying out decimals -/

namespace DecimalStyle

open Json

theorem digitsValue_toDigits (n : ℕ) : digitsValue 0 (Nat.toDigits 10 n) = n :=
  Nat.ofDigitChars_ten_toDigits

/-- Zeros before the digits do not count. -/
theorem digitsValue_zeros_append (n : ℕ) (ds : List Char) :
    digitsValue 0 (List.replicate n '0' ++ ds) = digitsValue 0 ds := by
  change Nat.ofDigitChars 10 _ 0 = Nat.ofDigitChars 10 ds 0
  rw [Nat.ofDigitChars_append, Nat.ofDigitChars_replicate_zero, Nat.mul_zero]

/-- Each zero behind the digits is a factor of ten. -/
theorem digitsValue_append_zeros (ds : List Char) (n : ℕ) :
    digitsValue 0 (ds ++ List.replicate n '0') = 10 ^ n * digitsValue 0 ds := by
  change Nat.ofDigitChars 10 _ 0 = 10 ^ n * Nat.ofDigitChars 10 ds 0
  rw [Nat.ofDigitChars_append, Nat.ofDigitChars_replicate_zero]

/-- A numeral writes a decimal: it has no sign, but a point or an exponent. -/
structure Writes (n : Numeral) (x : Decimal) : Prop where
  proper : n.IsProper
  negative : n.negative = false
  marked : n.fraction.isSome ∨ n.exponent.isSome
  value : (digitsValue 0 n.digits : ℚ) * 10 ^ n.place = x.value

variable {x : Decimal} {first : ℤ}

/-- A decimal below one is laid out with zeros behind the point. -/
theorem exists_numeral_small (hfirst : first = x.exponent + (Nat.toDigits 10 x.digits).length - 1)
    (hneg : first < 0) :
    ∃ n, Writes n x ∧ positional (Nat.toDigits 10 x.digits) first = n.text := by
  have hall := allDigits_toDigits x.digits
  have hval := digitsValue_toDigits x.digits
  set ds := Nat.toDigits 10 x.digits
  set zeros := List.replicate (-first - 1).toNat '0' with hzeros
  refine ⟨⟨false, ['0'], some (zeros ++ ds), none⟩,
    ⟨⟨by simp, by simp [AllDigits], ?_, by simp, by simp⟩, rfl, .inl rfl, ?_⟩, ?_⟩
  · rintro _ ⟨⟩
    exact (allDigits_zeros _).append hall
  · have hdigits : digitsValue 0 (['0'] ++ (zeros ++ ds)) = x.digits := by
      have h := digitsValue_zeros_append ((-first - 1).toNat + 1) ds
      rwa [List.replicate_succ, List.cons_append, hval] at h
    simp only [Numeral.digits, Numeral.place, Numeral.power, Option.getD_some, hdigits,
      Decimal.value]
    congr 2
    simp [hzeros]
    omega
  · rw [positional, if_pos hneg]
    simp [Numeral.text, Numeral.exponentText, hzeros]

/-- The digits of a decimal from one on, with zeros up to the point and one behind it where there
    are no digits, write the decimal. -/
theorem value_large {ds : List Char} (hval : digitsValue 0 ds = x.digits)
    (hfirst : first = x.exponent + ds.length - 1) (hpos : ¬first < 0) {places : ℕ}
    (hplaces : places = first.toNat + 1) {fraction : List Char}
    (hfraction : fraction = if (ds.drop places).isEmpty then ['0'] else ds.drop places) :
    (digitsValue 0 (ds.take places ++ List.replicate (places - ds.length) '0' ++ fraction) : ℚ) *
      10 ^ (-(fraction.length : ℤ)) = x.value := by
  rw [Decimal.value]
  by_cases hlong : places < ds.length
  · -- some digits stand behind the point
    have hdrop : (ds.drop places).isEmpty = false := by simp [hlong]
    have hnone : places - ds.length = 0 := by omega
    rw [hdrop, if_neg Bool.false_ne_true] at hfraction
    rw [hfraction, hnone, List.replicate_zero, List.append_nil, List.take_append_drop, hval,
      List.length_drop]
    congr 2
    omega
  · -- all digits stand before the point, and one zero behind it
    have hdrop : (ds.drop places).isEmpty = true := by simp; omega
    have htake : ds.take places = ds := List.take_of_length_le (by omega)
    have hexp : x.exponent = ((places - ds.length + 1 : ℕ) : ℤ) - 1 := by omega
    rw [hdrop, if_pos rfl] at hfraction
    have hdigits : digitsValue 0 (ds ++ List.replicate (places - ds.length) '0' ++ ['0']) =
        10 ^ (places - ds.length + 1) * x.digits := by
      rw [List.append_assoc, ← List.replicate_succ', digitsValue_append_zeros, hval]
    rw [hfraction, htake, hdigits, hexp, zpow_sub₀ (by norm_num), zpow_natCast]
    push_cast
    norm_num
    ring

/-- A decimal from one on is laid out with zeros before the point where it has no digits. -/
theorem exists_numeral_large (hfirst : first = x.exponent + (Nat.toDigits 10 x.digits).length - 1)
    (hpos : ¬first < 0) :
    ∃ n, Writes n x ∧ positional (Nat.toDigits 10 x.digits) first = n.text := by
  have hall := allDigits_toDigits x.digits
  have hval := digitsValue_toDigits x.digits
  have hlen : 0 < (Nat.toDigits 10 x.digits).length := Nat.length_toDigits_pos
  set ds := Nat.toDigits 10 x.digits
  set places := first.toNat + 1 with hplaces
  set fraction := if (ds.drop places).isEmpty then ['0'] else ds.drop places with hfraction
  have hne : ds.take places ≠ [] := by
    rw [← List.length_pos_iff, List.length_take]
    omega
  refine ⟨⟨false, ds.take places ++ List.replicate (places - ds.length) '0', some fraction, none⟩,
    ⟨⟨by simp [hne], (hall.take _).append (allDigits_zeros _), ?_, by simp, by simp⟩, rfl,
      .inl rfl, ?_⟩, ?_⟩
  · rintro _ ⟨⟩
    rw [hfraction]
    split_ifs
    · exact allDigits_zeros 1
    · exact hall.drop _
  · have hvalue := value_large hval hfirst hpos hplaces hfraction
    simpa [Numeral.digits, Numeral.place, Numeral.power] using hvalue
  · rw [positional, if_neg hpos]
    simp [Numeral.text, Numeral.exponentText, hfraction, hplaces]

/-- Any decimal can be laid out with an exponent. -/
theorem exists_numeral_scientific
    (hfirst : first = x.exponent + (Nat.toDigits 10 x.digits).length - 1) :
    ∃ n, Writes n x ∧ scientific (Nat.toDigits 10 x.digits) first = n.text := by
  have hall := allDigits_toDigits x.digits
  have hval := digitsValue_toDigits x.digits
  obtain ⟨d, ds, hds⟩ := List.exists_cons_of_ne_nil (Nat.toDigits_ne_nil (n := x.digits) (b := 10))
  rw [hds] at hall hval hfirst ⊢
  have hpower : (if first < 0 then -(digitsValue 0 (Nat.toDigits 10 first.natAbs) : ℤ)
      else digitsValue 0 (Nat.toDigits 10 first.natAbs)) = first := by
    rw [digitsValue_toDigits]
    split_ifs <;> omega
  refine ⟨⟨false, [d], if ds.isEmpty then none else some ds,
    some (first < 0, Nat.toDigits 10 first.natAbs)⟩,
    ⟨⟨by simp, fun c hc => hall c (List.mem_cons.2 (.inl (List.mem_singleton.1 hc))), ?_, ?_, ?_⟩,
      rfl, .inr rfl, ?_⟩, ?_⟩
  · intro ds' hds' c hc
    split_ifs at hds' with hempty
    · cases hds'
    · obtain rfl := Option.some.inj hds'
      exact hall c (List.mem_cons_of_mem _ hc)
  · rintro _ ⟨⟩
    exact Nat.toDigits_ne_nil
  · rintro _ ⟨⟩
    exact allDigits_toDigits _
  · have hplace : first - ds.length = x.exponent := by
      rw [List.length_cons] at hfirst
      omega
    cases ds with
    | nil =>
      obtain rfl : first = x.exponent := by simpa using hplace
      simp [Numeral.digits, Numeral.place, Numeral.power, hpower, hval, Decimal.value]
    | cons e ds =>
      simp [Numeral.digits, Numeral.place, Numeral.power, hpower, hval, Decimal.value, ← hplace]
  · cases ds with
    | nil => simp [scientific, Numeral.text, Numeral.exponentText]
    | cons e ds => simp [scientific, Numeral.text, Numeral.exponentText]

/-- However a decimal is laid out, it is a numeral that writes it. -/
theorem exists_numeral_layOut (style : DecimalStyle) (x : Decimal) :
    ∃ n, Writes n x ∧ style.layOut x = n.text := by
  simp only [layOut]
  split_ifs
  · by_cases hneg : x.exponent + (Nat.toDigits 10 x.digits).length - 1 < 0
    · exact exists_numeral_small rfl hneg
    · exact exists_numeral_large rfl hneg
  · exact exists_numeral_scientific rfl

end DecimalStyle

/-! ## Numbers -/

namespace Binary64

theorem eq_zero_of_mantissa {x : Binary64} (h : x.mantissa = 0) : x = zero x.negative := by
  have hexp : x.exponent = minExponent := by
    refine x.normal.2.2.2.resolve_left fun hle => ?_
    rw [h] at hle
    exact absurd hle (by decide)
  obtain ⟨negative, mantissa, exponent, normal⟩ := x
  obtain rfl : mantissa = 0 := h
  obtain rfl : exponent = minExponent := hexp
  rfl

/-- The text of a number is a numeral with a point or an exponent, which is read as the number. -/
theorem exists_numeral_text (x : Binary64) :
    ∃ n : Json.Numeral, n.IsProper ∧ x.text = n.text ∧ n.negative = x.negative ∧
      (n.fraction.isSome ∨ n.exponent.isSome) ∧
      Real64.ofDecimal n.negative (digitsValue 0 n.digits) n.place = .finite x := by
  by_cases hx : x.mantissa = 0
  · refine ⟨⟨x.negative, ['0'], some ['0'], none⟩, ⟨by simp, by simp [AllDigits], ?_, by simp,
      by simp⟩, by simp [text, isZero, hx, Json.Numeral.text, Json.Numeral.exponentText], rfl,
      .inl rfl, ?_⟩
    · rintro _ ⟨⟩
      exact allDigits_zeros 1
    · conv_rhs => rw [eq_zero_of_mantissa hx]
      rfl
  · obtain ⟨n, hn, htext⟩ := DecimalStyle.exists_numeral_layOut .standard (Decimal.shortest x)
    refine ⟨{ n with negative := x.negative }, ⟨hn.proper.1, hn.proper.2, hn.proper.3, hn.proper.4,
      hn.proper.5⟩, ?_, rfl, hn.marked, ?_⟩
    · rw [text, htext]
      simp [isZero, hx, Json.Numeral.text, Json.Numeral.exponentText, hn.negative]
    · exact Real64.ofDecimal_of_covers hx _ (hn.value ▸ Decimal.shortest_covers hx)

end Binary64

/-- A number of binary64 is read back from its text. -/
theorem Real64.ofText?_text (x : Binary64) : ofText? x.text = some (.finite x) := by
  obtain ⟨n, hn, htext, -, -, hval⟩ := x.exists_numeral_text
  rw [htext, ofText?_numeral hn, hval]

/-! ## JSON numbers -/

namespace JsonNumber

/-- Reads the text of a number: an integer if there are only digits behind the sign. -/
def ofText? (cs : List Char) : Option JsonNumber :=
  let (negative, digits) := Real64.sign cs
  if !digits.isEmpty && digits.all Char.isDigit then
    some (.integer (if negative then -(digitsValue 0 digits : ℤ) else digitsValue 0 digits))
  else ((Real64.ofText? cs).bind Real64.finite?).map .real

/-- The numeral of an integer. -/
def integerNumeral (n : ℤ) : Json.Numeral := ⟨n < 0, Nat.toDigits 10 n.natAbs, none, none⟩

theorem integerNumeral_isProper (n : ℤ) : (integerNumeral n).IsProper :=
  ⟨Nat.toDigits_ne_nil, allDigits_toDigits _, by rintro _ ⟨⟩, by rintro _ ⟨⟩, by rintro _ ⟨⟩⟩

theorem text_integer (n : ℤ) : (integer n).text = (integerNumeral n).text := by
  simp only [text, integerNumeral, Json.Numeral.text, Json.Numeral.exponentText,
    Int.toString_eq_repr, Int.repr_eq_if]
  by_cases hn : 0 ≤ n
  · have hlt : ¬n < 0 := by omega
    have habs : n.toNat = n.natAbs := by omega
    simp [hn, hlt, habs]
  · have hlt : n < 0 := by omega
    have habs : (-n).toNat = n.natAbs := by omega
    simp [hn, hlt, habs]

/-- The text of a number is a numeral. -/
theorem exists_numeral_text (n : JsonNumber) :
    ∃ numeral : Json.Numeral, numeral.IsProper ∧ n.text = numeral.text := by
  cases n with
  | integer n => exact ⟨integerNumeral n, integerNumeral_isProper n, text_integer n⟩
  | real x =>
    obtain ⟨numeral, hproper, htext, -⟩ := x.exists_numeral_text
    exact ⟨numeral, hproper, htext⟩

/-- A number is read back from its text. -/
theorem ofText?_text (n : JsonNumber) : ofText? n.text = some n := by
  cases n with
  | integer n =>
    rw [text_integer, ofText?, Real64.sign_text (integerNumeral_isProper n)]
    have hall : (Nat.toDigits 10 n.natAbs).all Char.isDigit = true :=
      List.all_eq_true.2 (allDigits_toDigits _)
    rcases lt_or_ge n 0 with hn | hn
    · simp [integerNumeral, Json.Numeral.text, Json.Numeral.exponentText, hall,
        DecimalStyle.digitsValue_toDigits, hn, abs_of_neg hn]
    · simp [integerNumeral, Json.Numeral.text, Json.Numeral.exponentText, hall,
        DecimalStyle.digitsValue_toDigits, hn.not_gt, abs_of_nonneg hn]
  | real x =>
    obtain ⟨numeral, hproper, htext, -, hmarked, -⟩ := x.exists_numeral_text
    have hread := Real64.ofText?_text x
    -- a point or an exponent tells it from an integer
    have hmark : ({ numeral with negative := false }.text).all Char.isDigit = false := by
      refine List.all_eq_false.2 ?_
      rcases hmarked with h | h
      · obtain ⟨ds, hds⟩ := Option.isSome_iff_exists.1 h
        exact ⟨'.', by simp [Json.Numeral.text, Json.Numeral.exponentText, hds], by decide⟩
      · obtain ⟨⟨negative, ds⟩, hds⟩ := Option.isSome_iff_exists.1 h
        exact ⟨'e', by simp [Json.Numeral.text, Json.Numeral.exponentText, hds], by decide⟩
    rw [text, ofText?]
    simp only [htext, Real64.sign_text hproper, hmark, Bool.and_false, Bool.false_eq_true, if_false]
    rw [← htext, hread]
    rfl

end JsonNumber

end QueryGate
