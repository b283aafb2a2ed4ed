import Mathlib.Algebra.Order.Field.Power
import Mathlib.Algebra.Order.Field.Rat
import Mathlib.Data.Nat.Cast.Order.Field
import Mathlib.Tactic.FieldSimp
import Mathlib.Tactic.Linarith
import Mathlib.Tactic.NormNum
import Mathlib.Tactic.Positivity
import Mathlib.Tactic.Qify
import Mathlib.Tactic.Ring
import QueryGate.Number.Binary64

/-!
# Rounding to binary floating point

The interval of the reals that round to a number of binary64 (`Binary64.Covers`)
reaches half a unit of the last place up and half a unit down, but a quarter down
from a power of two, below which numbers stand closer; its ends belong to it when
the mantissa is even. Rounding finds the number by its interval:

* `exponentOf_eq`: the exponent of a ratio is the one that gives it a full
  mantissa, or the least there is;
* `roundHalfEven_eq`: an integer is the rounding of a ratio at most half away;
* `nearest?_of_covers`: a ratio in the interval of a number rounds to it.
-/

namespace QueryGate

/-! ## Powers -/

@[simp] theorem cast_twoTo (n : ℕ) : ((twoTo n : ℕ) : ℚ) = 2 ^ n := Nat.cast_pow 2 n

@[simp] theorem cast_tenTo (n : ℕ) : ((tenTo n : ℕ) : ℚ) = 10 ^ n := Nat.cast_pow 10 n

theorem twoTo_pos (n : ℕ) : 0 < twoTo n := Nat.pow_pos (by decide)

theorem tenTo_pos (n : ℕ) : 0 < tenTo n := Nat.pow_pos (by decide)

/-- A power is the quotient of its part with a positive exponent by that with a negative one. -/
theorem pow_toNat_div {b : ℚ} (hb : b ≠ 0) (k : ℤ) : b ^ k.toNat / b ^ (-k).toNat = b ^ k := by
  rw [← zpow_natCast, ← zpow_natCast, ← zpow_sub₀ hb]
  congr 1
  omega

namespace Binary64

/-! ## Intervals -/

/-- The magnitude of a number. -/
def magnitude (x : Binary64) : ℚ := x.mantissa * 2 ^ x.exponent

/-- Whether numbers stand closer below the number than above it. -/
def IsStep (x : Binary64) : Prop :=
  x.mantissa = twoTo (precision - 1) ∧ minExponent < x.exponent

instance (x : Binary64) : Decidable x.IsStep := inferInstanceAs (Decidable (_ ∧ _))

/-- How far the interval of a number reaches down, in units of the last place. -/
def reach (x : Binary64) : ℚ := if x.IsStep then 1 / 4 else 1 / 2

/-- A rational rounds to the number: it lies in the interval around it. -/
structure Covers (x : Binary64) (q : ℚ) : Prop where
  low : (x.mantissa - x.reach) * 2 ^ x.exponent < q ∨
    (x.mantissa - x.reach) * 2 ^ x.exponent = q ∧ Even x.mantissa
  high : q < (x.mantissa + 1 / 2) * 2 ^ x.exponent ∨
    q = (x.mantissa + 1 / 2) * 2 ^ x.exponent ∧ Even x.mantissa

theorem reach_le (x : Binary64) : x.reach ≤ 1 / 2 := by
  rw [reach]
  split_ifs <;> norm_num

theorem num_div_den (x : Binary64) : (x.num : ℚ) / x.den = x.magnitude := by
  rw [num, den, magnitude, Nat.cast_mul, cast_twoTo, cast_twoTo, mul_div_assoc,
    pow_toNat_div two_ne_zero]

theorem den_pos (x : Binary64) : 0 < x.den := twoTo_pos _

theorem mantissa_lt (x : Binary64) : (x.mantissa : ℚ) < 2 ^ 53 := by
  have h : x.mantissa < 2 ^ 53 := x.normal.1
  exact_mod_cast h

/-! ## Integers -/

/-- An integer is the rounding of a ratio if it is at most half away from it, and even if it is
    just half away. -/
theorem roundHalfEven_eq {n d m : ℕ} (hd : 0 < d)
    (hlow : (m : ℚ) - 1 / 2 < n / d ∨ (m : ℚ) - 1 / 2 = n / d ∧ Even m)
    (hhigh : (n : ℚ) / d < m + 1 / 2 ∨ (n : ℚ) / d = m + 1 / 2 ∧ Even m) :
    roundHalfEven n d = m := by
  have hd' : (0 : ℚ) < d := by exact_mod_cast hd
  -- the bounds without fractions
  have hlow' : 2 * (d * m) < 2 * n + d ∨ 2 * (d * m) = 2 * n + d ∧ m % 2 = 0 := by
    refine hlow.imp (fun h => ?_) fun h => ⟨?_, Nat.even_iff.1 h.2⟩
    · rw [lt_div_iff₀ hd'] at h
      have : 2 * ((d : ℚ) * m) < 2 * n + d := by linarith
      exact_mod_cast this
    · have h := (eq_div_iff hd'.ne').1 h.1
      have : 2 * ((d : ℚ) * m) = 2 * n + d := by linarith
      exact_mod_cast this
  have hhigh' : 2 * n < 2 * (d * m) + d ∨ 2 * n = 2 * (d * m) + d ∧ m % 2 = 0 := by
    refine hhigh.imp (fun h => ?_) fun h => ⟨?_, Nat.even_iff.1 h.2⟩
    · rw [div_lt_iff₀ hd'] at h
      have : 2 * (n : ℚ) < 2 * (d * m) + d := by linarith
      exact_mod_cast this
    · have h := (div_eq_iff hd'.ne').1 h.1
      have : 2 * (n : ℚ) = 2 * (d * m) + d := by linarith
      exact_mod_cast this
  have hdiv : d * (n / d) + n % d = n := Nat.div_add_mod n d
  have hmod : n % d < d := Nat.mod_lt n hd
  -- the integer is the quotient or the next one
  have hge : n / d ≤ m := by
    by_contra hlt
    have := Nat.mul_le_mul_left d (Nat.succ_le_of_lt (not_le.1 hlt))
    rw [Nat.mul_succ] at this
    omega
  have hle : m ≤ n / d + 1 := by
    by_contra hlt
    have := Nat.mul_le_mul_left d (Nat.succ_le_of_lt (not_le.1 hlt))
    rw [Nat.mul_succ, Nat.mul_succ] at this
    omega
  simp only [roundHalfEven]
  obtain rfl | rfl : m = n / d ∨ m = n / d + 1 := by omega
  · split_ifs <;> omega
  · rw [Nat.mul_succ] at hlow' hhigh'
    split_ifs <;> omega

/-! ## Exponents -/

theorem scaledRatio_snd_pos {n d : ℕ} (hd : 0 < d) (e : ℤ) : 0 < (scaledRatio n d e).2 :=
  Nat.mul_pos hd (twoTo_pos _)

theorem scaledRatio_div (n d : ℕ) (e : ℤ) :
    ((scaledRatio n d e).1 : ℚ) / (scaledRatio n d e).2 = n / d / 2 ^ e := by
  rw [scaledRatio, ← pow_toNat_div two_ne_zero e]
  push_cast [cast_twoTo]
  field_simp

/-- A ratio lies between the powers of two that the logarithms of its parts give. -/
theorem ratio_bounds {n d : ℕ} (hn : 0 < n) (hd : 0 < d) :
    (2 : ℚ) ^ ((Nat.log2 n : ℤ) - Nat.log2 d - 1) < n / d ∧
      (n : ℚ) / d < 2 ^ ((Nat.log2 n : ℤ) - Nat.log2 d + 1) := by
  have hn₁ : (2 : ℚ) ^ Nat.log2 n ≤ n := by exact_mod_cast Nat.log2_self_le hn.ne'
  have hn₂ : (n : ℚ) < 2 ^ (Nat.log2 n + 1) := by exact_mod_cast Nat.lt_log2_self
  have hd₁ : (2 : ℚ) ^ Nat.log2 d ≤ d := by exact_mod_cast Nat.log2_self_le hd.ne'
  have hd₂ : (d : ℚ) < 2 ^ (Nat.log2 d + 1) := by exact_mod_cast Nat.lt_log2_self
  have hd' : (0 : ℚ) < d := by exact_mod_cast hd
  have hlow : (2 : ℚ) ^ ((Nat.log2 n : ℤ) - Nat.log2 d - 1) =
      2 ^ Nat.log2 n / 2 ^ (Nat.log2 d + 1) := by
    rw [← zpow_natCast, ← zpow_natCast, ← zpow_sub₀ two_ne_zero]
    congr 1
    push_cast
    ring
  have hhigh : (2 : ℚ) ^ ((Nat.log2 n : ℤ) - Nat.log2 d + 1) =
      2 ^ (Nat.log2 n + 1) / 2 ^ Nat.log2 d := by
    rw [← zpow_natCast, ← zpow_natCast, ← zpow_sub₀ two_ne_zero]
    congr 1
    push_cast
    ring
  constructor
  · rw [hlow, div_lt_div_iff₀ (by positivity) hd']
    calc (2 : ℚ) ^ Nat.log2 n * d < 2 ^ Nat.log2 n * 2 ^ (Nat.log2 d + 1) := by gcongr
      _ ≤ n * 2 ^ (Nat.log2 d + 1) := by gcongr
  · rw [hhigh, div_lt_div_iff₀ hd' (by positivity)]
    calc (n : ℚ) * 2 ^ Nat.log2 d < 2 ^ (Nat.log2 n + 1) * 2 ^ Nat.log2 d := by gcongr
      _ ≤ 2 ^ (Nat.log2 n + 1) * d := by gcongr

theorem two_zpow_add (k : ℕ) (e : ℤ) : (2 : ℚ) ^ k * 2 ^ e = 2 ^ (k + e) := by
  rw [zpow_add₀ two_ne_zero, zpow_natCast]

/-- At its exponent a ratio has a mantissa that fits, and a full one unless the exponent is the
    least. -/
theorem exponentOf_spec {n d : ℕ} (hn : 0 < n) (hd : 0 < d) :
    -1074 ≤ exponentOf n d ∧ (n : ℚ) / d < 2 ^ 53 * 2 ^ exponentOf n d ∧
      (2 ^ 52 * 2 ^ exponentOf n d ≤ (n : ℚ) / d ∨ exponentOf n d = -1074) := by
  obtain ⟨hlow, hhigh⟩ := ratio_bounds hn hd
  set e : ℤ := (Nat.log2 n : ℤ) - Nat.log2 d - precision with he
  have hp : ((precision : ℕ) : ℤ) = 53 := rfl
  -- the exponent before it is raised to the least one
  obtain ⟨e', he', hlow', hhigh'⟩ : ∃ e' : ℤ, exponentOf n d = max minExponent e' ∧
      2 ^ 52 * 2 ^ e' ≤ (n : ℚ) / d ∧ (n : ℚ) / d < 2 ^ 53 * 2 ^ e' := by
    have hfull : twoTo precision * (scaledRatio n d e).2 ≤ (scaledRatio n d e).1 ↔
        2 ^ 53 * 2 ^ e ≤ (n : ℚ) / d := by
      have hpos : (0 : ℚ) < (scaledRatio n d e).2 := by exact_mod_cast scaledRatio_snd_pos hd e
      rw [← le_div_iff₀ (by positivity), ← scaledRatio_div, le_div_iff₀ hpos,
        ← Nat.cast_le (α := ℚ), Nat.cast_mul, cast_twoTo]
      rfl
    by_cases h : twoTo precision * (scaledRatio n d e).2 ≤ (scaledRatio n d e).1
    · refine ⟨e + 1, ?_, ?_, ?_⟩
      · simp only [exponentOf, ← he, h, if_true]
      · rw [two_zpow_add, show ((52 : ℕ) : ℤ) + (e + 1) = (53 : ℕ) + e by omega, ← two_zpow_add]
        exact hfull.1 h
      · rw [two_zpow_add, show ((53 : ℕ) : ℤ) + (e + 1) = Nat.log2 n - Nat.log2 d + 1 by omega]
        exact hhigh
    · refine ⟨e, ?_, ?_, ?_⟩
      · simp only [exponentOf, ← he, h, if_false]
      · rw [two_zpow_add, show ((52 : ℕ) : ℤ) + e = Nat.log2 n - Nat.log2 d - 1 by omega]
        exact hlow.le
      · exact not_le.1 fun h' => h (hfull.2 h')
  have hmin : minExponent = -1074 := rfl
  rw [he', hmin]
  rcases le_total (-1074) e' with h | h
  · rw [max_eq_right h]
    exact ⟨h, hhigh', .inl hlow'⟩
  · rw [max_eq_left h]
    refine ⟨le_rfl, hhigh'.trans_le ?_, .inr rfl⟩
    gcongr
    norm_num

/-- Only the exponent of a ratio gives it a mantissa like that. -/
theorem exponentOf_eq {n d : ℕ} {e : ℤ} (hn : 0 < n) (hd : 0 < d) (hmin : -1074 ≤ e)
    (hhigh : (n : ℚ) / d < 2 ^ 53 * 2 ^ e)
    (hlow : 2 ^ 52 * 2 ^ e ≤ (n : ℚ) / d ∨ e = -1074) : exponentOf n d = e := by
  obtain ⟨hmin', hhigh', hlow'⟩ := exponentOf_spec hn hd
  -- of two exponents the higher one would want more than the lower one allows
  have key : ∀ {i j : ℤ}, -1074 ≤ i → (n : ℚ) / d < 2 ^ 53 * 2 ^ i →
      (2 ^ 52 * 2 ^ j ≤ (n : ℚ) / d ∨ j = -1074) → j ≤ i := by
    intro i j hi hlt hor
    by_contra hij
    rcases hor with h | h
    · have h := h.trans_lt hlt
      rw [two_zpow_add, two_zpow_add, zpow_lt_zpow_iff_right₀ one_lt_two] at h
      push_cast at h
      omega
    · omega
  exact le_antisymm (key hmin hhigh hlow') (key hmin' hhigh' hlow)

/-! ## Rounding a ratio -/

/-- The mantissa and the exponent of a ratio whose rounded mantissa is known. -/
theorem nearestParts_eq {n d m : ℕ} {e : ℤ} (hn : 0 < n) (hd : 0 < d) (he : exponentOf n d = e)
    (hlow : (m : ℚ) - 1 / 2 < n / d / 2 ^ e ∨ (m : ℚ) - 1 / 2 = n / d / 2 ^ e ∧ Even m)
    (hhigh : (n : ℚ) / d / 2 ^ e < m + 1 / 2 ∨ (n : ℚ) / d / 2 ^ e = m + 1 / 2 ∧ Even m) :
    nearestParts n d = if m = twoTo precision then (twoTo (precision - 1), e + 1) else (m, e) := by
  rw [← scaledRatio_div] at hlow hhigh
  have hm := roundHalfEven_eq (scaledRatio_snd_pos hd e) hlow hhigh
  simp only [nearestParts, hn.ne', if_false, he, hm]

/-- Just below a power of two a ratio has the exponent before, and rounds up to the power. -/
theorem nearestParts_of_step {x : Binary64} {n d : ℕ} (hn : 0 < n) (hd : 0 < d)
    (h : x.Covers (n / d)) (hstep : x.IsStep) (hbelow : (n : ℚ) / d < 2 ^ 52 * 2 ^ x.exponent) :
    nearestParts n d = (x.mantissa, x.exponent) := by
  have hbottom : (x.mantissa - x.reach) * 2 ^ x.exponent ≤ (n : ℚ) / d :=
    h.low.elim le_of_lt fun h => h.1.le
  rw [reach, if_pos hstep] at hbottom
  obtain ⟨hm, he⟩ := hstep
  have he : (-1074 : ℤ) < x.exponent := he
  have hm' : (x.mantissa : ℚ) = 2 ^ 52 := by rw [hm, cast_twoTo]; rfl
  have hhalf : (2 : ℚ) ^ x.exponent = 2 * 2 ^ (x.exponent - 1) := by
    rw [← zpow_one_add₀ two_ne_zero]
    congr 1
    ring
  have hpow : (0 : ℚ) < 2 ^ (x.exponent - 1) := by positivity
  rw [hm', hhalf] at hbottom
  rw [hhalf] at hbelow
  have hexp : exponentOf n d = x.exponent - 1 := by
    refine exponentOf_eq hn hd (by omega) ?_ (.inl ?_)
    · linarith
    · linarith
  have heven : Even (twoTo precision) := by decide
  rw [nearestParts_eq (m := twoTo precision) hn hd hexp, if_pos rfl, hm, sub_add_cancel]
  · have hle : ((twoTo precision : ℕ) : ℚ) - 1 / 2 ≤ n / d / 2 ^ (x.exponent - 1) := by
      rw [cast_twoTo, le_div_iff₀ hpow]
      norm_num [precision] at hbottom ⊢
      linarith
    exact hle.lt_or_eq.imp id fun h => ⟨h, heven⟩
  · left
    rw [cast_twoTo, div_lt_iff₀ hpow]
    norm_num [precision] at hbelow ⊢
    linarith

/-- Anywhere else in the interval of a number a ratio has the exponent of the number. -/
theorem exponentOf_of_covers {x : Binary64} {n d : ℕ} (hn : 0 < n) (hd : 0 < d)
    (h : x.Covers (n / d)) (hnot : ¬(x.IsStep ∧ (n : ℚ) / d < 2 ^ 52 * 2 ^ x.exponent)) :
    exponentOf n d = x.exponent := by
  have hmin : (-1074 : ℤ) ≤ x.exponent := x.normal.2.1
  have hbottom : (x.mantissa - x.reach) * 2 ^ x.exponent ≤ (n : ℚ) / d :=
    h.low.elim le_of_lt fun h => h.1.le
  have htop : (n : ℚ) / d ≤ (x.mantissa + 1 / 2) * 2 ^ x.exponent :=
    h.high.elim le_of_lt fun h => h.1.le
  refine exponentOf_eq hn hd hmin ?_ ?_
  · have hm : (x.mantissa : ℚ) + 1 ≤ 2 ^ 53 := by exact_mod_cast x.normal.1
    refine htop.trans_lt ?_
    gcongr
    linarith
  · by_contra hlow
    obtain ⟨hbelow, hne⟩ := not_or.1 hlow
    have hstep : ¬x.IsStep := fun hs => hnot ⟨hs, not_le.1 hbelow⟩
    -- the mantissa is full and no power of two, so that the interval stays above that power
    have hfull : twoTo (precision - 1) < x.mantissa := by
      refine lt_of_le_of_ne (x.normal.2.2.2.resolve_right hne) fun heq => hstep ⟨heq.symm, ?_⟩
      exact lt_of_le_of_ne hmin (Ne.symm hne)
    have hm : (2 : ℚ) ^ 52 + 1 ≤ x.mantissa := by exact_mod_cast hfull
    rw [reach, if_neg hstep] at hbottom
    refine hbelow (le_trans ?_ hbottom)
    gcongr
    linarith

/-- A ratio in the interval of a number has its mantissa and its exponent. -/
theorem nearestParts_of_covers {x : Binary64} {n d : ℕ} (hn : 0 < n) (hd : 0 < d)
    (h : x.Covers (n / d)) : nearestParts n d = (x.mantissa, x.exponent) := by
  by_cases hbelow : x.IsStep ∧ (n : ℚ) / d < 2 ^ 52 * 2 ^ x.exponent
  · exact nearestParts_of_step hn hd h hbelow.1 hbelow.2
  have hpow : (0 : ℚ) < 2 ^ x.exponent := by positivity
  have hlt : x.mantissa ≠ twoTo precision := x.normal.1.ne
  have hreach : x.reach ≤ 1 / 2 := x.reach_le
  rw [nearestParts_eq (m := x.mantissa) hn hd (exponentOf_of_covers hn hd h hbelow), if_neg hlt]
  · rw [lt_div_iff₀ hpow, eq_div_iff hpow.ne']
    have hle : ((x.mantissa : ℚ) - 1 / 2) * 2 ^ x.exponent ≤
        (x.mantissa - x.reach) * 2 ^ x.exponent := by gcongr
    rcases h.low with h | ⟨h, heven⟩
    · exact .inl (hle.trans_lt h)
    · exact (hle.trans_eq h).lt_or_eq.imp id fun h => ⟨h, heven⟩
  · rw [div_lt_iff₀ hpow, div_eq_iff hpow.ne']
    exact h.high

/-- A ratio in the interval of a number rounds to it. -/
theorem nearest?_of_covers {x : Binary64} {n d : ℕ} (negative : Bool) (hn : 0 < n) (hd : 0 < d)
    (h : x.Covers (n / d)) : nearest? negative n d = some (x.withSign negative) := by
  simp only [nearest?, nearestParts_of_covers hn hd h, dif_pos x.normal]
  rfl

end Binary64

end QueryGate
