import DartModels.Decimal.Scale
import DartModels.Proofs.Doubles
import Mathlib.Tactic.FieldSimp

/-!
# Arithmetic of doubles

One operation on doubles is one rounding of the exact result.

The operations that reading a number uses are multiplication, division, and the
double nearest to an integer or to a power of ten. Each of them comes down to
rounding a whole number of units of a power of two with a remainder that is
known to be there or not, and for the division the quotient has to be carried to
enough places first.

## Main definitions

* `Decimal.Yields`: A double for a number: finite and one rounding away, or
  infinite because the number is too great.

## Theorems

* `Decimal.Holds.yields_mul`, `Decimal.Holds.yields_div`: The two operations.
* `Decimal.yields_toFloat`: Integers of 64 bits.
* `Decimal.yields_ofScientific`: Powers of ten.
* `Decimal.Holds.beq_zero_iff`: When a double is found to be zero.
-/

namespace DartModels

namespace Decimal

open Float.Model (Format totalExponent)
open Float.Model.UnpackedFloat

/-! ### Operations on doubles -/

section Operations

variable {f g : Float} {x y : ℚ}

/-- An absolute value is not negative. -/
theorem Holds.nonneg {negative : Bool} (h : Holds negative f x) : 0 ≤ x := by
  obtain ⟨b, _, _, rfl⟩ := h
  unfold Binary.magnitude
  positivity

/-- The outcome of an operation on positive doubles: the exact result up to a
    rounding, or infinity where that is too great. -/
def Yields (f : Float) (x : ℚ) : Prop :=
  (∃ y, Holds false f y ∧ Rounds x y) ∨ (f.isInf = true ∧ greatest ≤ x)

/-- A number that is rounded is the outcome up to this rounding. -/
theorem yields_round {m : Nat} {e : Int} (a : Accuracy) (he : e ≤ lastPlace m e)
    (hlow : m * 2 ^ e ≤ x) (hhigh : x ≤ (m + 1) * 2 ^ e) :
    Yields (.ofModel (.pack (roundWithAccuracy Format.binary64 .positive m e a))) x := by
  rcases holds_round .positive a he hlow hhigh with h | ⟨h, hx⟩
  · exact .inl h
  · refine .inr ⟨?_, hx⟩
    rw [h]
    rfl

/-- The same where the exact result is at hand. -/
theorem yields_round_exact {m : Nat} {e : Int} (he : e ≤ lastPlace m e) (hx : (m : ℚ) * 2 ^ e = x) :
    Yields (.ofModel (.pack (roundWithAccuracy Format.binary64 .positive m e .exact))) x := by
  refine yields_round .exact he hx.le ?_
  calc x = m * 2 ^ e := hx.symm
    _ ≤ (m + 1) * 2 ^ e := by
        gcongr
        exact le_add_of_nonneg_right zero_le_one

/-- Zero comes out as zero. -/
theorem yields_zero : Yields (.ofModel (.pack (.zero .positive))) 0 :=
  .inl ⟨0, holds_pack_zero .positive, by simp [Rounds]⟩

/-- A number with all bits of a double, or at the last place of all, is not
    extended by rounding. -/
theorem le_lastPlace {m : Nat} {e : Int} (h : 2 ^ 52 ≤ m ∨ e ≤ -1074) : e ≤ lastPlace m e := by
  unfold lastPlace
  rcases h with h | h
  · have hlog : 52 ≤ m.log2 := (Nat.le_log2 (by omega)).mpr h
    omega
  · omega

/-- The product of two doubles. -/
theorem Holds.yields_mul (hf : Holds false f x) (hg : Holds false g y) :
    Yields (f * g) (x * y) := by
  obtain ⟨b, hb, hbn, rfl⟩ := hf
  obtain ⟨c, hc, hcn, rfl⟩ := hg
  have hbc := Binary.canonical_of_ofFloat? hb
  have hcc := Binary.canonical_of_ofFloat? hc
  have hmul : f * g =
      .ofModel (.pack (mul Format.binary64 f.toModel.unpack g.toModel.unpack)) := rfl
  rw [hmul]
  unfold Binary.magnitude
  -- A factor that is zero is unpacked as zero, and makes the product zero.
  rcases unpack_of_ofFloat? hb with ⟨hzero, hfu⟩ | ⟨hbpos, hfu⟩
  · rw [hfu, hzero, Nat.cast_zero, zero_mul, zero_mul, hbn]
    rcases unpack_of_ofFloat? hc with ⟨_, hgu⟩ | ⟨_, hgu⟩ <;> rw [hgu, hcn] <;> exact yields_zero
  rcases unpack_of_ofFloat? hc with ⟨hzero, hgu⟩ | ⟨hcpos, hgu⟩
  · rw [hfu, hgu, hzero, Nat.cast_zero, zero_mul, mul_zero, hbn, hcn]
    exact yields_zero
  rw [hfu, hgu, hbn, hcn]
  have hvalue : ((b.significand * c.significand : Nat) : ℚ) * 2 ^ (b.exponent + c.exponent) =
      b.significand * 2 ^ b.exponent * (c.significand * 2 ^ c.exponent) := by
    rw [zpow_add₀ two_ne_zero]
    push_cast
    ring
  refine yields_round_exact (le_lastPlace ?_) hvalue
  -- The product has all the bits of a double if one of the factors has them.
  rcases hbc.normal with h | h
  · exact .inl (le_trans h (Nat.le_mul_of_pos_right _ hcpos))
  rcases hcc.normal with h' | h'
  · exact .inl (le_trans h' (Nat.le_mul_of_pos_left _ hbpos))
  · exact .inr (by omega)

/-- A number shifted to the left has its first bit that much higher. -/
theorem two_pow_log2_add_le {n : Nat} (hn : n ≠ 0) (k : Nat) : 2 ^ (n.log2 + k) ≤ n * 2 ^ k := by
  rw [Nat.pow_add]
  exact Nat.mul_le_mul_right _ (Nat.log2_self_le hn)

/-- A quotient is computed to all bits of a double, or to the last place of
    all, and cut there. -/
theorem exists_divCore_eq {m n : Nat} (hm : 0 < m) (hn : 0 < n) (e d : Int) :
    ∃ q t a, divCore Format.binary64 m e n d = (q, t, a) ∧ (2 ^ 52 ≤ q ∨ t ≤ -1074) ∧
      (q : ℚ) * 2 ^ t ≤ m * 2 ^ e / (n * 2 ^ d) ∧
      (m : ℚ) * 2 ^ e / (n * 2 ^ d) ≤ (q + 1) * 2 ^ t := by
  set t := min (e - d) (max ((m.log2 : Int) + e - n.log2 - d - 53) (-1074)) with ht
  set k := (e - d - t).toNat with hk
  have htarget : Format.targetExponent Format.binary64 (totalExponent m e - totalExponent n d) =
      max ((m.log2 : Int) + e - n.log2 - d - 53) (-1074) := by
    show max ((m.log2 : Int) + 1 + e - (n.log2 + 1 + d) - 53) (3 - 1024 - 53) = _
    omega
  have hcore : divCore Format.binary64 m e n d =
      (m * 2 ^ k / n, t, accuracyOfFraction (m * 2 ^ k % n) n) := by
    unfold divCore
    dsimp only
    rw [htarget, ← ht, ← hk, Nat.shiftLeft_eq]
  refine ⟨_, _, _, hcore, ?_, ?_, ?_⟩
  · by_cases hlast : t ≤ -1074
    · exact .inr hlast
    · left
      -- The shift makes the numerator longer than the denominator by all bits of a double.
      have hlog : 52 + (n.log2 + 1) ≤ m.log2 + k := by omega
      rw [Nat.le_div_iff_mul_le hn]
      calc 2 ^ 52 * n ≤ 2 ^ 52 * 2 ^ (n.log2 + 1) :=
            Nat.mul_le_mul_left _ (le_of_lt Nat.lt_log2_self)
        _ ≤ 2 ^ (m.log2 + k) := by
            rw [← Nat.pow_add]
            exact Nat.pow_le_pow_right (by decide) hlog
        _ ≤ m * 2 ^ k := two_pow_log2_add_le hm.ne' k
  -- Both bounds are those of a division of integers, in units of the last place.
  all_goals
    have hvalue : (m : ℚ) * 2 ^ e / (n * 2 ^ d) = (m * 2 ^ k : Nat) / n * 2 ^ t := by
      have hexp : e = (k : Int) + t + d := by omega
      rw [hexp, zpow_add₀ two_ne_zero, zpow_add₀ two_ne_zero, zpow_natCast]
      push_cast
      field_simp
    have hnpos : (0 : ℚ) < n := by exact_mod_cast hn
    rw [hvalue]
    gcongr
  · rw [le_div_iff₀ hnpos]
    exact_mod_cast Nat.div_mul_le_self (m * 2 ^ k) n
  · rw [div_le_iff₀ hnpos]
    exact_mod_cast le_of_lt ((Nat.div_lt_iff_lt_mul hn).mp (Nat.lt_succ_self (m * 2 ^ k / n)))

/-- The quotient of two doubles, if it is not by zero. -/
theorem Holds.yields_div (hf : Holds false f x) (hg : Holds false g y) (hy : 0 < y) :
    Yields (f / g) (x / y) := by
  obtain ⟨b, hb, hbn, rfl⟩ := hf
  obtain ⟨c, hc, hcn, rfl⟩ := hg
  have hdiv : f / g =
      .ofModel (.pack (div Format.binary64 f.toModel.unpack g.toModel.unpack)) := rfl
  rw [hdiv]
  rcases unpack_of_ofFloat? hc with ⟨hzero, hgu⟩ | ⟨hcpos, hgu⟩
  · rw [Binary.magnitude, hzero, Nat.cast_zero, zero_mul] at hy
    exact absurd hy (lt_irrefl 0)
  rcases unpack_of_ofFloat? hb with ⟨hzero, hfu⟩ | ⟨hbpos, hfu⟩
  · rw [hfu, hgu, Binary.magnitude, hzero, Nat.cast_zero, zero_mul, zero_div, hbn, hcn]
    exact yields_zero
  rw [hfu, hgu, hbn, hcn]
  obtain ⟨q, t, a, hcore, hbits, hlow, hhigh⟩ :=
    exists_divCore_eq hbpos hcpos b.exponent c.exponent
  unfold div
  dsimp only
  rw [hcore]
  exact yields_round a (le_lastPlace hbits) hlow hhigh

/-- A positive integer becomes a double up to a rounding. -/
theorem yields_ofNat (n : Nat) : Yields (.ofModel (.ofNat n)) n := by
  by_cases hn : n = 0
  · subst hn
    exact yields_zero
  have hpos : (0 : Int) < n := by omega
  have hround : Float.Model.ofNat n =
      .pack (Float.Model.UnpackedFloat.round Format.binary64 .positive n 0) := by
    unfold Float.Model.ofNat ofNat ofInt Float.Model.UnpackedFloat.normalize
    rw [Int.compare_eq_gt.mpr hpos]
    rfl
  rw [hround]
  unfold Float.Model.UnpackedFloat.round decreaseExponent
  rw [targetExponent_eq]
  dsimp only
  -- A short integer is extended to all bits of a double first, which changes nothing.
  set k := (0 - lastPlace n 0).toNat with hk
  have hvalue : ((n <<< k : Nat) : ℚ) * 2 ^ (0 - (k : Int)) = n := by
    rw [Nat.shiftLeft_eq, zero_sub, zpow_neg, zpow_natCast]
    push_cast
    field_simp
  refine yields_round_exact (le_lastPlace (.inl ?_)) hvalue
  have hlog : 52 ≤ n.log2 + k := by
    unfold lastPlace at hk
    omega
  rw [Nat.shiftLeft_eq]
  calc 2 ^ 52 ≤ 2 ^ (n.log2 + k) := Nat.pow_le_pow_right (by decide) hlog
    _ ≤ n * 2 ^ k := two_pow_log2_add_le hn k

/-- An unsigned 64-bit integer becomes a double up to a rounding. -/
theorem yields_toFloat (n : UInt64) : Yields n.toFloat n.toNat :=
  yields_ofNat n.toNat

/-- Whether a power of ten is a double without rounding. -/
def isExactPower (n : Nat) : Bool :=
  match Binary.ofFloat? (Float.ofScientific 1 false n) with
  | some b => !b.negative &&
      b.significand * 2 ^ b.exponent.toNat = 10 ^ n * 2 ^ (-b.exponent).toNat
  | none => false

/-- The powers up to the twenty-second are. -/
theorem isExactPower_of_le : ∀ n ≤ 22, isExactPower n = true := by
  decide +kernel

/-- Such a power is held by its double. -/
theorem Holds.of_isExactPower {n : Nat} (h : isExactPower n = true) :
    Holds false (Float.ofScientific 1 false n) (10 ^ n) := by
  unfold isExactPower at h
  split at h
  next b hb =>
    simp only [Bool.and_eq_true, Bool.not_eq_true', decide_eq_true_eq] at h
    refine ⟨b, hb, h.1, ?_⟩
    -- The check is made in integers, with the power of two on the side where its exponent
    -- is positive.
    have hpow : (2 : ℚ) ^ b.exponent = 2 ^ b.exponent.toNat / 2 ^ (-b.exponent).toNat := by
      rw [← zpow_natCast, ← zpow_natCast, ← zpow_sub₀ two_ne_zero]
      congr 1
      omega
    have hvalue : (b.significand : ℚ) * 2 ^ b.exponent.toNat =
        10 ^ n * 2 ^ (-b.exponent).toNat := by exact_mod_cast h.2
    unfold Binary.magnitude
    rw [hpow, ← mul_div_assoc, hvalue]
    field_simp
  next => cases h

/-- A power of ten becomes a double up to a rounding. -/
theorem yields_ofScientific {n : Nat} (h : n ≤ 308) :
    Yields (Float.ofScientific 1 false n) (10 ^ n) := by
  -- The small powers are computed one by one, the others are rounded once.
  by_cases hexact : n ≤ 22
  · exact .inl ⟨_, .of_isExactPower (isExactPower_of_le n hexact), by simp [Rounds]⟩
  have hmodel : Float.ofScientific 1 false n =
      .ofModel (.pack (ofScientific Format.binary64 1 (n : Int))) := by
    unfold Float.ofScientific
    rw [dif_neg (by omega)]
    rfl
  have hround : ofScientific Format.binary64 1 (n : Int) =
      roundWithAccuracy Format.binary64 .positive (2 ^ 53 * 10 ^ n) (-53) .exact := by
    have hlarge : ¬ (n : Int) > 2 ^ 11 := by omega
    have hsmall : ¬ (n : Int) < -((2 ^ 11 : Int) + ((Nat.log2 1 : Nat) : Int)) := by omega
    unfold ofScientific
    rw [dif_neg one_ne_zero, if_neg hlarge, if_neg hsmall, if_pos (by omega)]
    rfl
  have hvalue : ((2 ^ 53 * 10 ^ n : Nat) : ℚ) * 2 ^ (-53 : Int) = 10 ^ n := by
    push_cast
    rw [mul_comm, ← mul_assoc]
    norm_num
  rw [hmodel, hround]
  refine yields_round_exact (le_lastPlace (.inl ?_)) hvalue
  exact le_trans (by decide) (Nat.le_mul_of_pos_right (2 ^ 53) (by positivity))

/-- Negation turns the sign and changes nothing else. -/
theorem Holds.neg {negative : Bool} (h : Holds negative f x) : Holds (!negative) (-f) x := by
  obtain ⟨b, hb, hbn, rfl⟩ := h
  have hbc := Binary.canonical_of_ofFloat? hb
  have hneg : -f = .ofModel (.pack (neg f.toModel.unpack)) := rfl
  have hsign : isNegative (-signOf negative) = !negative := by cases negative <;> rfl
  rw [hneg, ← hsign]
  rcases unpack_of_ofFloat? hb with ⟨hzero, hu⟩ | ⟨hpos, hu⟩
  · rw [hu, hbn, Binary.magnitude, hzero, Nat.cast_zero, zero_mul]
    exact holds_pack_zero _
  · rw [hu, hbn]
    exact holds_pack_finite _ hpos hbc.significand_lt hbc.le_exponent hbc.normal hbc.exponent_le

/-- No double is greater than the greatest. -/
theorem Holds.le_greatest {negative : Bool} (h : Holds negative f x) : x ≤ greatest := by
  obtain ⟨b, hb, _, rfl⟩ := h
  have hbc := Binary.canonical_of_ofFloat? hb
  have hsignificand : b.significand ≤ 2 ^ 53 - 1 := by have := hbc.significand_lt; omega
  unfold Binary.magnitude greatest
  gcongr
  · exact one_le_two
  · exact hbc.exponent_le

/-- A finite double is not infinity. -/
theorem Holds.isInf_eq_false {negative : Bool} (h : Holds negative f x) : f.isInf = false := by
  obtain ⟨b, hb, _, _⟩ := h
  show f.toModel.unpack.isInf = false
  rcases unpack_of_ofFloat? hb with ⟨_, hu⟩ | ⟨_, hu⟩ <;> rw [hu] <;> rfl

/-- A double compares equal to zero exactly if it is zero, of either sign. -/
theorem Holds.beq_zero_iff {negative : Bool} (h : Holds negative f x) :
    (f == 0.0) = true ↔ x = 0 := by
  obtain ⟨b, hb, hbn, rfl⟩ := h
  have hzero : (0.0 : Float).toModel.unpack = .zero .positive := by
    have hbits : Binary.ofFloat? 0.0 = some ⟨false, 0, -1074, false⟩ := by decide +kernel
    rcases unpack_of_ofFloat? hbits with ⟨_, hu⟩ | ⟨hpos, _⟩
    · exact hu
    · exact absurd hpos (lt_irrefl 0)
  show (Float.Model.UnpackedFloat.beq f.toModel.unpack (0.0 : Float).toModel.unpack) = true ↔ _
  rw [hzero]
  unfold Binary.magnitude
  rcases unpack_of_ofFloat? hb with ⟨hs, hu⟩ | ⟨hpos, hu⟩
  · rw [hu, hs, Nat.cast_zero, zero_mul]
    exact iff_of_true rfl rfl
  · have hne : (b.significand : ℚ) * 2 ^ b.exponent ≠ 0 := by positivity
    rw [hu]
    refine iff_of_false ?_ hne
    cases b.negative <;> exact Bool.false_ne_true

end Operations

end Decimal

end DartModels
