import QueryGate.Number.Shortest
import QueryGate.Proofs.Number.Rounding

/-!
# Shortest decimals

The decimal a number is printed as lies in the interval of the number
(`Decimal.shortest_covers`): on the grid of seventeen digits, at the latest, one of
the two neighbours of the number does, as points of that grid stand closer than
numbers of binary64 (`Decimal.exists_onGrid?`).
-/

namespace QueryGate.Decimal

/-- The number a decimal writes. -/
def value (x : Decimal) : ℚ := x.digits * 10 ^ x.exponent

@[simp] theorem withoutZero_value (x : Decimal) : x.withoutZero.value = x.value := by
  rw [withoutZero]
  split_ifs with h
  · have hdigits : x.digits = 10 * (x.digits / 10) := by omega
    rw [value, value, zpow_add_one₀ (by norm_num)]
    conv_rhs => rw [hdigits]
    push_cast
    ring
  · rfl

/-! ## The interval of a number -/

theorem lt_compareBinary {c : ℕ} {k : ℤ} {x : ℕ} {e : ℤ} :
    compareBinary c k x e = .lt ↔ (c : ℚ) * 10 ^ k < x * 2 ^ e := by
  have h10 : (0 : ℚ) < 10 ^ (-k).toNat := by positivity
  have h2 : (0 : ℚ) < 2 ^ (-e).toNat := by positivity
  rw [compareBinary, Nat.compare_eq_lt, ← Nat.cast_lt (α := ℚ), ← pow_toNat_div two_ne_zero e,
    ← pow_toNat_div (by norm_num : (10 : ℚ) ≠ 0) k, mul_div_assoc', mul_div_assoc',
    div_lt_div_iff₀ h10 h2]
  push_cast [cast_twoTo, cast_tenTo]
  rfl

theorem eq_compareBinary {c : ℕ} {k : ℤ} {x : ℕ} {e : ℤ} :
    compareBinary c k x e = .eq ↔ (c : ℚ) * 10 ^ k = x * 2 ^ e := by
  have h10 : (10 : ℚ) ^ (-k).toNat ≠ 0 := by positivity
  have h2 : (2 : ℚ) ^ (-e).toNat ≠ 0 := by positivity
  rw [compareBinary, Nat.compare_eq_eq, ← Nat.cast_inj (R := ℚ), ← pow_toNat_div two_ne_zero e,
    ← pow_toNat_div (by norm_num : (10 : ℚ) ≠ 0) k, mul_div_assoc', mul_div_assoc',
    div_eq_div_iff h10 h2]
  push_cast [cast_twoTo, cast_tenTo]
  rfl

theorem gt_compareBinary {c : ℕ} {k : ℤ} {x : ℕ} {e : ℤ} :
    compareBinary c k x e = .gt ↔ x * 2 ^ e < (c : ℚ) * 10 ^ k := by
  rcases h : compareBinary c k x e with _ | _ | _
  · simp [(lt_compareBinary.1 h).le]
  · simp [eq_compareBinary.1 h]
  · have hlt : ¬(c : ℚ) * 10 ^ k < x * 2 ^ e := by simp [← lt_compareBinary, h]
    have hne : (c : ℚ) * 10 ^ k ≠ x * 2 ^ e := by simp [← eq_compareBinary, h]
    exact iff_of_true rfl (lt_of_le_of_ne (not_lt.1 hlt) hne.symm)

/-- The test for the interval of a number decides whether a decimal lies in it. -/
theorem roundsTo_iff {x : Binary64} (hx : x.mantissa ≠ 0) {c : ℕ} {k : ℤ} :
    roundsTo x c k = true ↔ x.Covers (c * 10 ^ k) := by
  have hquarter : (2 : ℚ) ^ x.exponent = 4 * 2 ^ (x.exponent - 2) := by
    rw [show (4 : ℚ) = 2 ^ (2 : ℤ) by norm_num, ← zpow_add₀ two_ne_zero]
    congr 1
    ring
  have hm : 1 ≤ x.mantissa := Nat.one_le_iff_ne_zero.2 hx
  have hlow : (x.mantissa - x.reach) * 2 ^ x.exponent =
      ((if x.mantissa = twoTo (Binary64.precision - 1) ∧ Binary64.minExponent < x.exponent
        then 4 * x.mantissa - 1 else 4 * x.mantissa - 2 : ℕ) : ℚ) * 2 ^ (x.exponent - 2) := by
    rw [hquarter]
    by_cases hs : x.mantissa = twoTo (Binary64.precision - 1) ∧ Binary64.minExponent < x.exponent
    · have hreach : x.reach = 1 / 4 := if_pos hs
      rw [hreach, if_pos hs, Nat.cast_sub (by omega)]
      push_cast
      ring
    · have hreach : x.reach = 1 / 2 := if_neg hs
      rw [hreach, if_neg hs, Nat.cast_sub (by omega)]
      push_cast
      ring
  have hhigh : ((x.mantissa : ℚ) + 1 / 2) * 2 ^ x.exponent =
      (4 * x.mantissa + 2 : ℕ) * 2 ^ (x.exponent - 2) := by
    rw [hquarter]
    push_cast
    ring
  simp only [roundsTo, Bool.and_eq_true, Bool.or_eq_true, beq_iff_eq, gt_compareBinary,
    lt_compareBinary, eq_compareBinary, ← hlow, ← hhigh, ← Nat.even_iff]
  exact ⟨fun h => ⟨h.1.imp id fun h => ⟨h.1.symm, h.2⟩, h.2⟩,
    fun h => ⟨h.low.imp id fun h => ⟨h.1.symm, h.2⟩, h.high⟩⟩

/-! ## Seventeen digits -/

theorem toDigits_bounds {n : ℕ} (hn : n ≠ 0) :
    10 ^ ((Nat.toDigits 10 n).length - 1) ≤ n ∧ n < 10 ^ (Nat.toDigits 10 n).length := by
  have hpos : 0 < (Nat.toDigits 10 n).length := Nat.length_toDigits_pos
  refine ⟨?_, (Nat.length_toDigits_le_iff (by decide) hpos).1 le_rfl⟩
  rcases Nat.eq_zero_or_pos ((Nat.toDigits 10 n).length - 1) with h | h
  · rw [h]
    exact Nat.one_le_iff_ne_zero.2 hn
  · by_contra hlt
    have := (Nat.length_toDigits_le_iff (by decide) h).2 (not_le.1 hlt)
    omega

/-- A number has a digit, other than a leading zero, at its first exponent. -/
theorem firstExponent_le {n d : ℕ} (hn : 0 < n) (hd : 0 < d) :
    (10 : ℚ) ^ firstExponent n d ≤ n / d := by
  have hd' : (0 : ℚ) < d := by exact_mod_cast hd
  have hn' : (0 : ℚ) < n := by exact_mod_cast hn
  rw [le_div_iff₀ hd']
  simp only [firstExponent]
  split_ifs with h hpow
  · -- the whole part has a digit there
    have hq : n / d ≠ 0 := (Nat.div_pos h hd).ne'
    have hle := (Nat.le_div_iff_mul_le hd).1 (toDigits_bounds hq).1
    rw [← Nat.cast_pred Nat.length_toDigits_pos, zpow_natCast]
    exact_mod_cast hle
  · -- the number is that power of ten itself
    have heq : (n : ℚ) * 10 ^ ((Nat.toDigits 10 (d / n)).length - 1) = d := by
      exact_mod_cast hpow
    rw [zpow_neg, zpow_natCast, ← heq, inv_mul_le_iff₀ (by positivity), mul_comm]
  · have hq : d / n ≠ 0 := (Nat.div_pos (not_le.1 h).le hn).ne'
    have hlt := (Nat.div_lt_iff_lt_mul hn).1 (toDigits_bounds hq).2
    have hlen : ((Nat.toDigits 10 (d / n)).length - 1 : ℕ) + (1 : ℤ) =
        (Nat.toDigits 10 (d / n)).length := by
      have : 0 < (Nat.toDigits 10 (d / n)).length := Nat.length_toDigits_pos
      omega
    rw [hlen, zpow_neg, zpow_natCast, inv_mul_le_iff₀ (by positivity)]
    exact_mod_cast hlt.le

/-- The rounded quotient is the whole one or the next. -/
theorem roundHalfEven_eq_or (n d : ℕ) :
    Binary64.roundHalfEven n d = n / d ∨ Binary64.roundHalfEven n d = n / d + 1 := by
  simp only [Binary64.roundHalfEven]
  split_ifs
  · exact .inl rfl
  · exact .inr rfl
  · omega

/-- What is found on a grid is a point of it that rounds to the number. -/
theorem roundsTo_of_onGrid? {x : Binary64} {k : ℤ} {y : Decimal} (h : onGrid? x k = some y) :
    y.exponent = k ∧ roundsTo x y.digits k = true := by
  simp only [onGrid?] at h
  split at h
  · next hbelow habove =>
    obtain rfl := Option.some.inj h
    refine ⟨rfl, ?_⟩
    rcases roundHalfEven_eq_or (x.num * tenTo (-k).toNat) (x.den * tenTo k.toNat) with h | h
    · exact h ▸ hbelow
    · exact h ▸ habove
  · next hbelow _ =>
    obtain rfl := Option.some.inj h
    exact ⟨rfl, hbelow⟩
  · next _ habove =>
    obtain rfl := Option.some.inj h
    exact ⟨rfl, habove⟩
  · cases h

/-- Half a step of a grid finer than the numbers are is less than an interval reaches down. -/
theorem half_step_lt_reach {x : Binary64} {k : ℤ} (hk : 10 ^ k * 10 ^ 16 ≤ x.magnitude) :
    (10 : ℚ) ^ k / 2 < x.reach * 2 ^ x.exponent := by
  have hunit : (0 : ℚ) < 2 ^ x.exponent := by positivity
  rw [Binary64.magnitude] at hk
  rw [Binary64.reach]
  split_ifs with hs
  · rw [hs.1, cast_twoTo] at hk
    norm_num [Binary64.precision] at hk
    linarith
  · have := mul_lt_mul_of_pos_right x.mantissa_lt hunit
    norm_num at this hk
    linarith

/-- A point of such a grid that is at most half a step away from a number rounds to it. -/
theorem roundsTo_of_near {x : Binary64} (hx : x.mantissa ≠ 0) {k : ℤ}
    (hk : 10 ^ k * 10 ^ 16 ≤ x.magnitude) {c : ℕ}
    (hc : |x.magnitude - c * 10 ^ k| ≤ 10 ^ k / 2) : roundsTo x c k = true := by
  have hfine := half_step_lt_reach hk
  have hhalf : x.reach * 2 ^ x.exponent ≤ 1 / 2 * 2 ^ x.exponent := by
    have := x.reach_le
    gcongr
  obtain ⟨hup, hdown⟩ := abs_le.1 hc
  rw [Binary64.magnitude] at hup hdown
  exact (roundsTo_iff hx).2 ⟨.inl (by linarith), .inl (by linarith)⟩

/-- A number lies between its neighbours on a grid. -/
theorem neighbours_bounds (x : Binary64) (k : ℤ) :
    let below := x.num * tenTo (-k).toNat / (x.den * tenTo k.toNat)
    (below : ℕ) * 10 ^ k ≤ x.magnitude ∧ x.magnitude < (below + 1 : ℕ) * 10 ^ k := by
  have hgrid : (0 : ℚ) < 10 ^ k := by positivity
  have hd : (0 : ℚ) < (x.den * tenTo k.toNat : ℕ) := by
    exact_mod_cast Nat.mul_pos x.den_pos (tenTo_pos _)
  have hquotient : ((x.num * tenTo (-k).toNat : ℕ) : ℚ) / (x.den * tenTo k.toNat : ℕ) =
      x.magnitude / 10 ^ k := by
    rw [← x.num_div_den, ← pow_toNat_div (by norm_num : (10 : ℚ) ≠ 0) k]
    push_cast [cast_tenTo]
    have : (x.den : ℚ) ≠ 0 := by exact_mod_cast x.den_pos.ne'
    field_simp
  constructor
  · rw [← le_div_iff₀ hgrid, ← hquotient]
    exact Nat.cast_div_le
  · rw [← div_lt_iff₀ hgrid, ← hquotient, div_lt_iff₀ hd]
    exact_mod_cast (Nat.lt_mul_div_succ (x.num * tenTo (-k).toNat) (Nat.cast_pos.1 hd)).trans_eq
      (mul_comm _ _)

/-- On a grid finer than the numbers are, one of the two neighbours of a number rounds to it. -/
theorem exists_onGrid? {x : Binary64} (hx : x.mantissa ≠ 0) {k : ℤ}
    (hk : 10 ^ k * 10 ^ 16 ≤ x.magnitude) : ∃ y, onGrid? x k = some y := by
  have hgrid : (0 : ℚ) < 10 ^ k := by positivity
  obtain ⟨hbelow, habove⟩ := neighbours_bounds x k
  simp only [onGrid?]
  set below := x.num * tenTo (-k).toNat / (x.den * tenTo k.toNat)
  split
  · exact ⟨_, rfl⟩
  · exact ⟨_, rfl⟩
  · exact ⟨_, rfl⟩
  · next hb ha =>
    -- the two neighbours are a step apart, so that one of them is at most half a step away
    exfalso
    push_cast at habove
    rcases le_total (x.magnitude - below * 10 ^ k) (10 ^ k / 2) with h | h
    · refine absurd (roundsTo_of_near hx hk (c := below) (abs_le.2 ⟨?_, h⟩)) (by simp [hb])
      linarith
    · refine absurd (roundsTo_of_near hx hk (c := below + 1) (abs_le.2 ⟨?_, ?_⟩)) (by simp [ha])
      · push_cast
        linarith
      · push_cast
        linarith

/-- The shortest decimal of a number rounds to it. -/
theorem shortest_covers {x : Binary64} (hx : x.mantissa ≠ 0) : x.Covers (shortest x).value := by
  have hnum : 0 < x.num := Nat.mul_pos (Nat.pos_of_ne_zero hx) (twoTo_pos _)
  have hfirst : (10 : ℚ) ^ firstExponent x.num x.den ≤ x.magnitude :=
    x.num_div_den ▸ firstExponent_le hnum x.den_pos
  -- the grid of seventeen digits is fine enough
  obtain ⟨y, hy⟩ : ∃ y, onGrid? x (firstExponent x.num x.den - (16 : ℕ)) = some y := by
    refine exists_onGrid? hx ?_
    rwa [← zpow_natCast, ← zpow_add₀ (by norm_num), sub_add_cancel]
  simp only [shortest]
  split
  · next found hfound =>
    obtain ⟨places, _, hfound⟩ := List.exists_of_findSome?_eq_some hfound
    obtain ⟨hexp, hround⟩ := roundsTo_of_onGrid? hfound
    rw [withoutZero_value, value, hexp]
    exact (roundsTo_iff hx).1 hround
  · next hnone =>
    have := List.findSome?_eq_none_iff.1 hnone 16 (by simp)
    rw [hy] at this
    cases this

end QueryGate.Decimal
