import DartModels.Proofs.Doubles
import Mathlib.Tactic.LinearCombination

/-!
# The shortest decimal of a double

The decimal that is written for a double is one that rounds to it.

Comparisons are made in whole numbers, with both sides brought to one
denominator. Here they are put back into rational numbers. The search starts at
the place of the leading digit and tries one digit more each time. It cannot
fail: with seventeen digits two neighbouring decimals are closer to each other
than the double is to the numbers that do not round to it, so one of the two
around the double rounds to it.

## Main definitions

* `Decimal.Shortest.value`: The number that a decimal is.

## Theorems

* `Decimal.Binary.abs_sub_le_of_roundsTo`: What rounds to a double is near it.
* `Decimal.Binary.nearest?_ne_none`: Seventeen digits suffice.
* `Decimal.Binary.leadingPlace_spec`: The place of the leading digit.
* `Decimal.Binary.shortest_spec`: The decimal that is written.
-/

namespace DartModels

namespace Decimal

/-- The number that a decimal is. -/
def Shortest.value (d : Shortest) : ℚ :=
  d.significand * 10 ^ d.exponent

namespace Binary

variable {b : Binary} {c : Nat} {k : Int}

/-- The two factors of a comparison make it one of rational numbers. -/
theorem unitScale_mul_zpow (q k : Int) :
    (unitScale q k : ℚ) * 2 ^ q = 4 * quarterScale q k * 10 ^ k := by
  have htwo : ((2 : ℚ) ^ (2 - q).toNat) * 2 ^ q = 4 * 2 ^ (q - 2).toNat := by
    rw [← zpow_natCast, ← zpow_natCast, ← zpow_add₀ two_ne_zero]
    calc (2 : ℚ) ^ (((2 - q).toNat : Int) + q) = 2 ^ (2 + ((q - 2).toNat : Int)) := by
          congr 1
          omega
      _ = 4 * 2 ^ ((q - 2).toNat : Int) := by
          rw [zpow_add₀ two_ne_zero]
          norm_num
  have hten : ((10 : ℚ) ^ k.toNat) = 10 ^ (-k).toNat * 10 ^ k := by
    rw [← zpow_natCast, ← zpow_natCast, ← zpow_add₀ (by norm_num)]
    congr 1
    omega
  unfold unitScale quarterScale
  push_cast [Nat.pow_eq]
  rw [hten]
  linear_combination 10 ^ (-k).toNat * 10 ^ k * htwo

/-- Neither scale is zero. -/
theorem quarterScale_pos (q k : Int) : 0 < quarterScale q k := by
  unfold quarterScale
  simp only [Nat.pow_eq]
  positivity

/-- Neither is the other. -/
theorem unitScale_pos (q k : Int) : 0 < unitScale q k := by
  unfold unitScale
  simp only [Nat.pow_eq]
  positivity

/-- A multiple in the first scale is a multiple of a power of ten. -/
theorem mul_unitScale_eq (c : Nat) (q k : Int) :
    (c : ℚ) * unitScale q k * 2 ^ q = 4 * quarterScale q k * (c * 10 ^ k) := by
  linear_combination c * unitScale_mul_zpow q k

/-- A comparison in the two scales is one of the numbers: both sides are these, times
    a positive factor. -/
theorem mul_unitScale_le_iff {n : Nat} {q : Int} :
    c * unitScale q k ≤ n * quarterScale q k ↔ (c : ℚ) * 10 ^ k ≤ n / 4 * 2 ^ q := by
  have hq : (0 : ℚ) < quarterScale q k := by exact_mod_cast quarterScale_pos q k
  have hz : (0 : ℚ) < 2 ^ q := by positivity
  have hquarter : (n : ℚ) * quarterScale q k * 2 ^ q = 4 * quarterScale q k * (n / 4 * 2 ^ q) := by
    ring
  rw [← Nat.cast_le (α := ℚ), Nat.cast_mul, Nat.cast_mul, ← mul_le_mul_iff_left₀ hz,
    mul_unitScale_eq, hquarter]
  exact mul_le_mul_iff_right₀ (by positivity)

/-- And the other way round. -/
theorem mul_quarterScale_le_iff {n : Nat} {q : Int} :
    n * quarterScale q k ≤ c * unitScale q k ↔ (n : ℚ) / 4 * 2 ^ q ≤ c * 10 ^ k := by
  have hq : (0 : ℚ) < quarterScale q k := by exact_mod_cast quarterScale_pos q k
  have hz : (0 : ℚ) < 2 ^ q := by positivity
  have hquarter : (n : ℚ) * quarterScale q k * 2 ^ q = 4 * quarterScale q k * (n / 4 * 2 ^ q) := by
    ring
  rw [← Nat.cast_le (α := ℚ), Nat.cast_mul, Nat.cast_mul, ← mul_le_mul_iff_left₀ hz,
    mul_unitScale_eq, hquarter]
  exact mul_le_mul_iff_right₀ (by positivity)

/-- A decimal that rounds to a double is not farther from it than half of its
    last place. -/
theorem abs_sub_le_of_roundsTo (h : roundsTo b c k = true) :
    |(c : ℚ) * 10 ^ k - b.magnitude| ≤ 2 ^ b.exponent / 2 := by
  have hbounds :
      (4 * b.significand - (if b.edge then 1 else 2)) * quarterScale b.exponent k ≤
          c * unitScale b.exponent k ∧
        c * unitScale b.exponent k ≤ (4 * b.significand + 2) * quarterScale b.exponent k := by
    unfold roundsTo at h
    dsimp only at h
    split at h <;> rw [Bool.and_eq_true, decide_eq_true_eq, decide_eq_true_eq] at h
    · exact h
    · exact ⟨h.1.le, h.2.le⟩
  have hlow := mul_quarterScale_le_iff.mp hbounds.1
  have hhigh := mul_unitScale_le_iff.mp hbounds.2
  -- On the edge of a binade the distance below is half of that above, which is less still.
  have hsub : (4 * b.significand : ℚ) - 2 ≤
      ((4 * b.significand - (if b.edge then 1 else 2) : Nat) : ℚ) := by
    have : 4 * b.significand ≤ 4 * b.significand - (if b.edge then 1 else 2) + 2 := by
      split <;> omega
    have hcast : (4 * b.significand : ℚ) ≤
        ((4 * b.significand - (if b.edge then 1 else 2) : Nat) : ℚ) + 2 := by exact_mod_cast this
    linarith
  have hz : (0 : ℚ) < 2 ^ b.exponent := by positivity
  push_cast at hhigh
  unfold magnitude
  rw [abs_le]
  constructor <;> nlinarith

/-- A decimal that is close enough rounds to the double. Closest to a double
    is the neighbour below the least one of a binade, and it is closest to
    halfway if it is nearer than that. -/
theorem roundsTo_of_abs_lt (hb : b.Canonical) (hpos : 0 < b.significand)
    (h : |(c : ℚ) * 10 ^ k - b.magnitude| < b.magnitude / 2 ^ 54) : roundsTo b c k = true := by
  have hz : (0 : ℚ) < 2 ^ b.exponent := by positivity
  have hlt : (b.significand : ℚ) < 2 ^ 53 := by exact_mod_cast hb.significand_lt
  obtain ⟨hlow, hhigh⟩ := abs_lt.mp h
  unfold magnitude at hlow hhigh
  have habove : c * unitScale b.exponent k <
      (4 * b.significand + 2) * quarterScale b.exponent k := by
    rw [← not_le, mul_quarterScale_le_iff, not_le]
    push_cast
    nlinarith
  have hbelow : (4 * b.significand - (if b.edge then 1 else 2)) * quarterScale b.exponent k <
      c * unitScale b.exponent k := by
    rw [← not_le, mul_unitScale_le_iff, not_le]
    split
    next hedge =>
      -- Below the least double of a binade the neighbour is at half the distance.
      have hm := hb.edge hedge
      rw [hm] at hlow ⊢
      norm_num at hlow ⊢
      nlinarith
    next =>
      have hsub : ((4 * b.significand - 2 : Nat) : ℚ) = 4 * b.significand - 2 := by
        rw [Nat.cast_sub (by omega)]
        push_cast
        rfl
      rw [hsub]
      nlinarith
  unfold roundsTo
  dsimp only
  split <;> rw [Bool.and_eq_true, decide_eq_true_eq, decide_eq_true_eq]
  · exact ⟨hbelow.le, habove.le⟩
  · exact ⟨hbelow, habove⟩

/-! ### The search -/

/-- The part of the value that is a multiple of `10 ^ k`. -/
theorem floor_bounds (b : Binary) (k : Int) :
    ((4 * b.significand * quarterScale b.exponent k / unitScale b.exponent k : Nat) : ℚ) * 10 ^ k ≤
        b.magnitude ∧
      b.magnitude <
        (((4 * b.significand * quarterScale b.exponent k / unitScale b.exponent k : Nat) : ℚ) + 1) *
          10 ^ k := by
  have hu := unitScale_pos b.exponent k
  unfold magnitude
  constructor
  · have h := mul_unitScale_le_iff.mp
      (Nat.div_mul_le_self (4 * b.significand * quarterScale b.exponent k) (unitScale b.exponent k))
    push_cast at h
    linarith
  · have h := (Nat.div_lt_iff_lt_mul hu).mp (Nat.lt_succ_self
      (4 * b.significand * quarterScale b.exponent k / unitScale b.exponent k))
    rw [← not_le, mul_unitScale_le_iff, not_le] at h
    push_cast at h
    linarith

/-- Of the decimals of one length next to the value only those count that
    round to it, and one of them is chosen if there is any. -/
theorem nearest?_spec {d : Shortest} (h : nearest? b k = some d) :
    d.exponent = k ∧ roundsTo b d.significand k = true ∧
      d.significand ≤
        4 * b.significand * quarterScale b.exponent k / unitScale b.exponent k + 1 := by
  unfold nearest? at h
  dsimp only at h
  split_ifs at h with hboth htie hlow hhigh <;> cases h
  · exact ⟨rfl, (Bool.and_eq_true_iff.mp hboth).1, Nat.le_succ _⟩
  · exact ⟨rfl, (Bool.and_eq_true_iff.mp hboth).2, le_refl _⟩
  · exact ⟨rfl, hlow, Nat.le_succ _⟩
  · exact ⟨rfl, hhigh, le_refl _⟩

/-- With seventeen digits one of the two decimals next to the value rounds to
    it: half of their distance is less than what rounding allows. -/
theorem nearest?_ne_none (hb : b.Canonical) (hpos : 0 < b.significand)
    (hk : (10 : ℚ) ^ (k + 16) ≤ b.magnitude) : nearest? b k ≠ none := by
  intro h
  obtain ⟨hlow, hhigh⟩ := floor_bounds b k
  unfold nearest? at h
  dsimp only at h
  set below := 4 * b.significand * quarterScale b.exponent k / unitScale b.exponent k
  have hneither : ¬ roundsTo b below k = true ∧ ¬ roundsTo b (below + 1) k = true := by
    split_ifs at h with hboth htie hbelow habove
    exact ⟨hbelow, habove⟩
  have hunit : (10 : ℚ) ^ k / 2 < b.magnitude / 2 ^ 54 := by
    have hten : (0 : ℚ) < 10 ^ k := by positivity
    rw [zpow_add₀ (by norm_num)] at hk
    norm_num at hk ⊢
    linarith
  -- The nearer of the two is at half a step at most.
  by_cases hhalf : b.magnitude - below * 10 ^ k ≤ 10 ^ k / 2
  · refine hneither.1 (roundsTo_of_abs_lt hb hpos ?_)
    rw [abs_lt]
    constructor <;> linarith
  · refine hneither.2 (roundsTo_of_abs_lt hb hpos ?_)
    push_cast
    rw [abs_lt]
    constructor <;> nlinarith

/-- The number of digits of a number places it between two powers of ten. -/
theorem digitCount_bounds {n : Nat} (hn : 0 < n) :
    10 ^ (digitCount n - 1) ≤ n ∧ n < 10 ^ digitCount n := by
  have hlen : 0 < digitCount n := Nat.length_toDigits_pos
  refine ⟨?_, (Nat.length_toDigits_le_iff (by decide) hlen).mp (le_refl _)⟩
  by_cases hone : digitCount n = 1
  · rw [hone]
    exact hn
  · have h := (Nat.length_toDigits_le_iff (b := 10) (n := n) (k := digitCount n - 1) (by decide)
      (by omega)).not
    unfold digitCount at *
    omega

/-- The leading digit of a multiple of a power of ten. -/
theorem zpow_digitCount_bounds {n : Nat} (hn : 0 < n) (k : Int) :
    (10 : ℚ) ^ ((digitCount n : Int) - 1 + k) ≤ n * 10 ^ k ∧
      (n + 1) * 10 ^ k ≤ (10 : ℚ) ^ ((digitCount n : Int) + k) := by
  obtain ⟨hfew, hmany⟩ := digitCount_bounds hn
  have hcount : 0 < digitCount n := Nat.length_toDigits_pos
  have hten : (0 : ℚ) < 10 ^ k := by positivity
  have hpred : ((digitCount n : Int) - 1) = ((digitCount n - 1 : Nat) : Int) := by omega
  rw [zpow_add₀ (by norm_num), zpow_add₀ (by norm_num), hpred, zpow_natCast, zpow_natCast,
    mul_le_mul_iff_left₀ hten, mul_le_mul_iff_left₀ hten]
  exact ⟨by exact_mod_cast hfew, by exact_mod_cast hmany⟩

/-- A floor places the leading digit of the value. -/
theorem leadingPlace_of_floor {whole shift : Nat} (hpos : 0 < whole)
    (hlow : (whole : ℚ) * 10 ^ (-(shift : Int)) ≤ b.magnitude)
    (hhigh : b.magnitude < (whole + 1) * 10 ^ (-(shift : Int))) :
    (10 : ℚ) ^ ((digitCount whole : Int) - 1 - shift) ≤ b.magnitude ∧
      b.magnitude < 10 ^ ((digitCount whole : Int) - 1 - shift + 1) := by
  obtain ⟨hfew, hmany⟩ := zpow_digitCount_bounds hpos (-(shift : Int))
  have hplace : (digitCount whole : Int) - 1 - shift + 1 = digitCount whole + -(shift : Int) := by
    omega
  rw [hplace]
  exact ⟨hfew.trans hlow, hhigh.trans_le hmany⟩

/-- The leading digit of the value stands where the search looks for it, if
    there are tries enough to scale the value up to a whole part. -/
theorem leadingPlace_spec {tries shift : Nat}
    (h : (10 : ℚ) ^ (-((shift + tries : Nat) : Int)) ≤ b.magnitude) :
    (10 : ℚ) ^ leadingPlace b (tries + 1) shift ≤ b.magnitude ∧
      b.magnitude < 10 ^ (leadingPlace b (tries + 1) shift + 1) := by
  -- Each try that finds no whole part moves the point by one place.
  induction tries generalizing shift with
  | zero =>
      obtain ⟨hlow, hhigh⟩ := floor_bounds b (-(shift : Int))
      rw [leadingPlace]
      split
      next hzero =>
        rw [hzero, Nat.cast_zero, zero_add, one_mul] at hhigh
        exact absurd hhigh (not_lt.mpr h)
      next hwhole => exact leadingPlace_of_floor (Nat.pos_of_ne_zero hwhole) hlow hhigh
  | succ tries ih =>
      obtain ⟨hlow, hhigh⟩ := floor_bounds b (-(shift : Int))
      rw [leadingPlace]
      split
      next => exact ih (by rwa [Nat.succ_add_eq_add_succ])
      next hwhole => exact leadingPlace_of_floor (Nat.pos_of_ne_zero hwhole) hlow hhigh

/-- The search ends with a decimal that rounds to the value, of at most
    seventeen digits. -/
theorem search_spec (hb : b.Canonical) (hpos : 0 < b.significand) {place : Int} {tries digits : Nat}
    (hlow : (10 : ℚ) ^ place ≤ b.magnitude) (hhigh : b.magnitude < 10 ^ (place + 1))
    (htries : 0 < tries) (hdigits : digits + tries = 18) :
    roundsTo b (search b place tries digits).significand (search b place tries digits).exponent =
        true ∧
      (search b place tries digits).significand ≤ 10 ^ 17 := by
  induction tries generalizing digits with
  | zero => exact absurd htries (lt_irrefl 0)
  | succ tries ih =>
      rw [search]
      split
      next d hd =>
        obtain ⟨hexponent, hrounds, hle⟩ := nearest?_spec hd
        rw [hexponent]
        refine ⟨hrounds, hle.trans ?_⟩
        obtain ⟨hfloor, -⟩ := floor_bounds b (place - digits + 1)
        set below := 4 * b.significand * quarterScale b.exponent (place - digits + 1) /
          unitScale b.exponent (place - digits + 1)
        -- The part of the value in these units has as many digits as are tried.
        have hten : (0 : ℚ) < 10 ^ (place - digits + 1) := by positivity
        have hlt : (below : ℚ) * 10 ^ (place - digits + 1) <
            10 ^ digits * 10 ^ (place - digits + 1) :=
          calc (below : ℚ) * 10 ^ (place - digits + 1) ≤ b.magnitude := hfloor
            _ < 10 ^ (place + 1) := hhigh
            _ = 10 ^ digits * 10 ^ (place - digits + 1) := by
              rw [← zpow_natCast, ← zpow_add₀ (by norm_num)]
              congr 1
              omega
        have hbelow : below < 10 ^ digits := by
          exact_mod_cast (mul_lt_mul_iff_left₀ hten).mp hlt
        exact hbelow.trans_le (Nat.pow_le_pow_right (by decide) (by omega))
      next hnone =>
        by_cases hlast : tries = 0
        · -- The seventeenth digit leaves nothing to be missed.
          refine absurd hnone (nearest?_ne_none hb hpos ?_)
          have hplace : place - digits + 1 + 16 = place := by omega
          rwa [hplace]
        · exact ih (Nat.pos_of_ne_zero hlast) (by omega)

/-- The least value above zero has 325 places behind the point at most. -/
theorem Canonical.least_le_magnitude (hb : b.Canonical) (hpos : 0 < b.significand) :
    (2 : ℚ) ^ (-1074 : Int) ≤ b.magnitude := by
  have hone : (1 : ℚ) ≤ b.significand := by exact_mod_cast hpos
  calc (2 : ℚ) ^ (-1074 : Int) ≤ 2 ^ b.exponent := zpow_le_zpow_right₀ one_le_two hb.le_exponent
    _ ≤ b.magnitude := le_mul_of_one_le_left (by positivity) hone

/-- The decimal that is written for a double above zero has at most seventeen
    digits, is not zero, and lies within half of the last place of the double. -/
theorem shortest_spec (hb : b.Canonical) (hpos : 0 < b.significand) :
    0 < b.shortest.significand ∧ b.shortest.significand ≤ 10 ^ 17 ∧
      |b.shortest.value - b.magnitude| ≤ 2 ^ b.exponent / 2 := by
  -- There are tries enough even for the least double.
  have hleast : (10 : ℚ) ^ (-((0 + 325 : Nat) : Int)) ≤ b.magnitude := by
    refine le_trans ?_ (hb.least_le_magnitude hpos)
    rw [zpow_neg, zpow_neg, inv_le_inv₀ (by positivity) (by positivity)]
    calc (2 : ℚ) ^ (1074 : Int) ≤ (2 ^ 43) ^ (25 : Int) := by
          rw [← zpow_natCast, ← zpow_mul]
          exact zpow_le_zpow_right₀ one_le_two (by decide)
      _ ≤ (10 ^ 13) ^ (25 : Int) := zpow_le_zpow_left₀ (by decide) (by positivity) (by norm_num)
      _ = 10 ^ ((0 + 325 : Nat) : Int) := by
          rw [← zpow_natCast, ← zpow_mul]
          rfl
  obtain ⟨hlow, hhigh⟩ := leadingPlace_spec hleast
  obtain ⟨hrounds, hle⟩ :=
    search_spec hb hpos hlow hhigh (by decide : 0 < 17) (rfl : 1 + 17 = 18)
  have hshortest : b.shortest = search b (leadingPlace b 326 0) 17 1 :=
    if_neg (Nat.pos_iff_ne_zero.mp hpos)
  rw [← hshortest] at hrounds hle
  have hnear := abs_sub_le_of_roundsTo hrounds
  -- Zero is farther from the double than half of its last place.
  refine ⟨Nat.pos_of_ne_zero fun hzero => ?_, hle, hnear⟩
  have hz : (0 : ℚ) < 2 ^ b.exponent := by positivity
  have hone : (1 : ℚ) ≤ b.significand := by exact_mod_cast hpos
  rw [hzero, Nat.cast_zero, zero_mul, zero_sub, abs_neg, magnitude,
    abs_of_nonneg (by positivity)] at hnear
  nlinarith

end Binary

end Decimal

end DartModels
