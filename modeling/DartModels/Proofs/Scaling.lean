import DartModels.Proofs.DoubleArithmetic

/-!
# Decimals scaled to doubles

How far a double that was read is from the decimal in the text.

A significand is rounded to a double, a power of ten is rounded to a double, and
one operation joins them. That makes three roundings, and five where a small
number takes two divisions. Roundings in a row add up, except that next to zero
a rounding does not become smaller with the number. So an error has two parts:
one is relative, and one counts units of the least double.

A relative error stays what it is when it is multiplied or divided on. The
absolute part does not grow either, because the numbers that are divided by are
powers of ten.

## Main definitions

* `Decimal.Within`: A number up to several roundings.

## Theorems

* `Decimal.Within.trans`: Roundings in a row.
* `Decimal.Holds.scale_spec`: A double times a power of ten.
* `Decimal.ofSignificand_spec`: A significand with an exponent.
* `Decimal.exists_holds_of_ofSignificand`: What is read is finite.
-/

namespace DartModels

namespace Decimal

/-! ### Several roundings in a row -/

/-- The relative size of a rounding. -/
def roundingUnit : ℚ := 2 ^ (-52 : Int)

/-- The distance of the doubles next to zero. -/
def leastDouble : ℚ := 2 ^ (-1074 : Int)

/-- `y` is `x` up to `n` roundings, each of which may cost the absolute error
    `τ` beside the relative one. -/
def Within (τ : ℚ) (n : ℕ) (x y : ℚ) : Prop :=
  |y - x| ≤ n * (roundingUnit * x + τ)

/-- A rounding has a size. -/
theorem roundingUnit_pos : 0 < roundingUnit := by
  unfold roundingUnit
  positivity

/-- The doubles next to zero are not zero. -/
theorem leastDouble_pos : 0 < leastDouble := by
  unfold leastDouble
  positivity

section Within

variable {τ x y z p q : ℚ} {a b : ℕ}

/-- A rounding is one, in this way of counting. -/
theorem Rounds.within (h : Rounds x y) (hx : 0 ≤ x) : Within leastDouble 1 x y := by
  have hu := roundingUnit_pos
  have hl := leastDouble_pos
  refine le_trans h (max_le ?_ ?_) <;> rw [Nat.cast_one, one_mul]
  · exact le_add_of_nonneg_right hl.le
  · exact le_add_of_nonneg_left (mul_nonneg hu.le hx)

/-- Where doubles are not close to zero, a rounding is relative. -/
theorem Rounds.within_of_le (h : Rounds x y) (hx : 1 / 2 ≤ x) : Within 0 1 x y := by
  refine le_trans h (max_le ?_ ?_) <;> rw [Nat.cast_one, one_mul, add_zero] <;> unfold roundingUnit
  · exact le_refl _
  · calc (2 : ℚ) ^ (-1074 : Int) ≤ 2 ^ (-53 : Int) := by
          apply zpow_le_zpow_right₀ one_le_two
          decide
      _ = 2 ^ (-52 : Int) * (1 / 2) := by norm_num
      _ ≤ 2 ^ (-52 : Int) * x := by gcongr

/-- More roundings and a greater absolute error allow more. -/
theorem Within.mono {σ : ℚ} (h : Within τ a x y) (hx : 0 ≤ x) (hτ : 0 ≤ τ) (hab : a ≤ b)
    (hσ : τ ≤ σ) : Within σ b x y := by
  have hu := roundingUnit_pos
  have hcast : (a : ℚ) ≤ b := by exact_mod_cast hab
  refine le_trans h ?_
  gcongr

/-- The errors of two runs of roundings add up, to little more than their sum. -/
theorem Within.trans (hxy : Within τ a x y) (hyz : Within τ b y z) (hx : 0 ≤ x) (hτ : 0 ≤ τ)
    (hab : a * b ≤ 100) : Within τ (a + b + 1) x z := by
  have hu := roundingUnit_pos
  -- The errors of the errors are less than one further rounding.
  have hcast : (a : ℚ) * b * roundingUnit ≤ 1 := by
    calc (a : ℚ) * b * roundingUnit ≤ 100 * roundingUnit := by
          gcongr
          exact_mod_cast hab
      _ ≤ 1 := by norm_num [roundingUnit]
  have hy : y ≤ x + a * (roundingUnit * x + τ) := by
    have := (abs_le.mp hxy).2
    linarith
  have hsmall : 0 ≤ roundingUnit * x + τ := by positivity
  calc |z - x| ≤ |z - y| + |y - x| := abs_sub_le z y x
    _ ≤ b * (roundingUnit * y + τ) + a * (roundingUnit * x + τ) := add_le_add hyz hxy
    _ ≤ b * (roundingUnit * (x + a * (roundingUnit * x + τ)) + τ) +
          a * (roundingUnit * x + τ) := by gcongr
    _ = (a + b + a * b * roundingUnit) * (roundingUnit * x + τ) := by ring
    _ ≤ (a + b + 1) * (roundingUnit * x + τ) := by gcongr
    _ = ((a + b + 1 : ℕ) : ℚ) * (roundingUnit * x + τ) := by push_cast; ring

/-- One relative rounding does not take much away. -/
theorem Within.le (h : Within 0 1 x y) (hx : 0 ≤ x) : 3 / 4 * x ≤ y := by
  have hu : roundingUnit ≤ 1 / 4 := by norm_num [roundingUnit]
  have hlow := (abs_le.mp h).1
  rw [Nat.cast_one, one_mul, add_zero] at hlow
  nlinarith

/-- Relative errors stay what they are under multiplication. -/
theorem Within.mul_right (h : Within 0 a x y) (hp : 0 ≤ p) : Within 0 a (x * p) (y * p) := by
  unfold Within at h ⊢
  rw [← sub_mul, abs_mul, abs_of_nonneg hp]
  calc |y - x| * p ≤ a * (roundingUnit * x + 0) * p := by gcongr
    _ = a * (roundingUnit * (x * p) + 0) := by ring

/-- Division makes absolute errors smaller. -/
theorem Within.div_right (h : Within τ a x y) (hp : 1 ≤ p) (hτ : 0 ≤ τ) :
    Within τ a (x / p) (y / p) := by
  have hpos : 0 < p := lt_of_lt_of_le zero_lt_one hp
  unfold Within at h ⊢
  rw [← sub_div, abs_div, abs_of_pos hpos]
  calc |y - x| / p ≤ a * (roundingUnit * x + τ) / p := by gcongr
    _ = a * (roundingUnit * (x / p) + τ / p) := by field_simp
    _ ≤ a * (roundingUnit * (x / p) + τ) := by
        gcongr
        exact div_le_self hτ hp

/-- A divisor with a relative error of one rounding costs two. -/
theorem Within.div_left (h : Within 0 1 p q) (hp : 0 < p) (hx : 0 ≤ x) :
    Within 0 2 (x / p) (x / q) := by
  have hu := roundingUnit_pos
  have hhalf : roundingUnit ≤ 1 / 2 := by norm_num [roundingUnit]
  unfold Within at h ⊢
  rw [Nat.cast_one, one_mul, add_zero] at h
  -- The divisor loses less than half.
  have hq : p / 2 ≤ q := by
    have := (abs_le.mp h).1
    nlinarith
  have hqpos : 0 < q := lt_of_lt_of_le (by positivity) hq
  calc |x / q - x / p| = x * |q - p| / (p * q) := by
        rw [div_sub_div _ _ hqpos.ne' hp.ne', abs_div, abs_of_pos (mul_pos hqpos hp),
          mul_comm q x, ← mul_sub, abs_mul, abs_of_nonneg hx, abs_sub_comm, mul_comm q p]
    _ ≤ x * (roundingUnit * p) / (p * q) := by gcongr
    _ = roundingUnit * x / q := by field_simp
    _ ≤ roundingUnit * x / (p / 2) := by gcongr
    _ = (2 : ℕ) * (roundingUnit * (x / p) + 0) := by push_cast; field_simp; ring

end Within

/-! ### Powers of ten -/

/-- The powers in the table are in the range of doubles. -/
theorem pow_le_greatest {n : ℕ} (hn : n ≤ 308) : (10 : ℚ) ^ n < greatest := by
  have hmax : 10 ^ 308 < (2 ^ 53 - 1) * 2 ^ 971 := by decide +kernel
  calc (10 : ℚ) ^ n ≤ 10 ^ 308 := by gcongr; norm_num
    _ < ((2 ^ 53 - 1 : ℕ) : ℚ) * 2 ^ 971 := by exact_mod_cast hmax
    _ = greatest := by
        unfold greatest
        rw [← zpow_natCast]
        rfl

/-- The powers of ten are doubles up to one rounding each. -/
theorem exists_holds_powerOfTen {n : ℕ} (hn : n ≤ 308) :
    ∃ p, Holds false (powerOfTen n) p ∧ Within 0 1 (10 ^ n) p := by
  rcases yields_ofScientific hn with ⟨p, hp, hround⟩ | ⟨_, hgreat⟩
  · refine ⟨p, hp, hround.within_of_le ?_⟩
    exact le_trans (by norm_num) (one_le_pow₀ (by norm_num))
  · exact absurd hgreat (not_le.mpr (pow_le_greatest hn))

/-- A power above the first is still more than two when it is rounded. -/
theorem Within.two_le {n : ℕ} {p : ℚ} (h : Within 0 1 (10 ^ n) p) (hn : 1 ≤ n) : 2 ≤ p := by
  have hten : (10 : ℚ) ≤ 10 ^ n := le_self_pow₀ (by norm_num) (by omega)
  have := h.le (by positivity)
  linarith

/-! ### Scaling -/

section Scaling

variable {f g : Float} {x y : ℚ} {e : Int}

/-- One division by a power of ten. It leads to a double in any case. -/
theorem Holds.exists_div_power (hf : Holds false f x) {n : ℕ} (hn : 1 ≤ n) (hn' : n ≤ 308) :
    ∃ y p, Holds false (f / powerOfTen n) y ∧ Rounds (x / p) y ∧ Within 0 1 (10 ^ n) p ∧ 2 ≤ p := by
  obtain ⟨p, hp, hwithin⟩ := exists_holds_powerOfTen hn'
  have htwo := hwithin.two_le hn
  rcases hf.yields_div hp (by linarith) with ⟨y, hy, hround⟩ | ⟨_, hgreat⟩
  · exact ⟨y, p, hy, hround, hwithin, htwo⟩
  · have hpos : (0 : ℚ) < greatest := by unfold greatest; positivity
    -- A double divided by more than two is in the range of doubles.
    have hle : x / p ≤ greatest / 2 := div_le_div₀ hpos.le hf.le_greatest two_pos htwo
    linarith

/-- What scaling yields is a finite double. -/
theorem Holds.exists_of_scale (hf : Holds false f x) (h : scale f e = some g) :
    ∃ y, Holds false g y := by
  -- The induction follows the divisions by the greatest power in the table.
  induction f, e using scale.induct generalizing x with
  | case1 f e he hzero =>
      rw [scale, dif_pos he, if_pos hzero] at h
      cases h
      exact ⟨x, hf⟩
  | case2 f e he hzero ih =>
      rw [scale, dif_pos he, if_neg hzero] at h
      obtain ⟨y, _, hy, _⟩ := hf.exists_div_power (n := maxPower) (by decide) (le_refl _)
      -- One division is done, and the rest is the induction.
      exact ih hy h
  | case3 f e he hneg =>
      rw [scale, dif_neg he, if_pos hneg] at h
      cases h
      have hsize : e.natAbs ≤ 308 := by
        have : ¬ e < -308 := he
        omega
      obtain ⟨y, _, hy, _⟩ := hf.exists_div_power (n := e.natAbs) (by omega) hsize
      exact ⟨y, hy⟩
  | case4 f e he hneg hle =>
      rename_i hinf
      rw [scale, dif_neg he, if_neg hneg, if_pos hle] at h
      dsimp only at h
      rw [if_pos hinf] at h
      cases h
  | case5 f e he hneg hle =>
      rename_i hinf
      rw [scale, dif_neg he, if_neg hneg, if_pos hle] at h
      dsimp only at h
      rw [if_neg hinf] at h
      cases h
      have hsize : e.natAbs ≤ 308 := by
        have : e ≤ 308 := hle
        omega
      obtain ⟨p, hp, _⟩ := exists_holds_powerOfTen hsize
      rcases hf.yields_mul hp with ⟨y, hy, _⟩ | ⟨htop, _⟩
      · exact ⟨y, hy⟩
      · exact absurd htop hinf
  | case6 f e he hneg hle hzero =>
      rw [scale, dif_neg he, if_neg hneg, if_neg hle, if_pos hzero] at h
      cases h
      exact ⟨x, hf⟩
  | case7 f e he hneg hle hzero =>
      rw [scale, dif_neg he, if_neg hneg, if_neg hle, if_neg hzero] at h
      cases h

/-- Scaling upwards: three roundings, or a number that is too great. -/
theorem Holds.scale_up {m : ℚ} (hf : Holds false f x) (hx : Within 0 1 m x) (hm : 1 ≤ m)
    {n : ℕ} (hn : n ≤ 308) :
    (∃ g y, scale f n = some g ∧ Holds false g y ∧ Within 0 5 (m * 10 ^ n) y) ∨
      ∃ z, greatest ≤ z ∧ Within 0 3 (m * 10 ^ n) z := by
  obtain ⟨p, hp, hwithin⟩ := exists_holds_powerOfTen hn
  have hm' : (0 : ℚ) ≤ m * 10 ^ n := by positivity
  -- The product of the rounded factors, before it is rounded itself.
  have hexact : Within 0 3 (m * 10 ^ n) (x * p) := by
    have hfirst : Within 0 1 (m * 10 ^ n) (x * 10 ^ n) := hx.mul_right (by positivity)
    have hsecond : Within 0 1 (x * 10 ^ n) (x * p) := by
      rw [mul_comm x, mul_comm x]
      exact hwithin.mul_right hf.nonneg
    have h := hfirst.trans hsecond hm' (le_refl 0) (by decide)
    exact h
  have hscale : scale f n = if (f * powerOfTen n).isInf then none else some (f * powerOfTen n) := by
    rw [scale, dif_neg (by unfold maxPower; omega), if_neg (by omega),
      if_pos (by unfold maxPower; omega)]
    rfl
  rcases hf.yields_mul hp with ⟨y, hy, hround⟩ | ⟨_, hgreat⟩
  · refine .inl ⟨_, y, ?_, hy, ?_⟩
    · rw [hscale, hy.isInf_eq_false, if_neg Bool.false_ne_true]
    · -- It is not close to zero, so the last rounding is relative as well.
      have hlarge : 1 / 2 ≤ x * p := by
        have hpow : (1 : ℚ) ≤ 10 ^ n := one_le_pow₀ (by norm_num)
        have hx' := hx.le (by linarith)
        have hp' := hwithin.le (by positivity)
        calc (1 / 2 : ℚ) ≤ 3 / 4 * (3 / 4) := by norm_num
          _ ≤ x * p := by gcongr <;> linarith
      have h := hexact.trans (hround.within_of_le hlarge) hm' (le_refl 0) (by decide)
      exact h
  · exact .inr ⟨_, hgreat, hexact⟩

/-- Scaling downwards by one power of ten. -/
theorem Holds.scale_down {a : ℕ} {m : ℚ} (hf : Holds false f x) (hx : Within leastDouble a m x)
    (hm : 0 ≤ m) (ha : a ≤ 10) {n : ℕ} (hn : 1 ≤ n) (hn' : n ≤ 308) :
    ∃ y, Holds false (f / powerOfTen n) y ∧ Within leastDouble (a + 5) (m / 10 ^ n) y := by
  obtain ⟨y, p, hy, hround, hwithin, htwo⟩ := hf.exists_div_power hn hn'
  have hl := leastDouble_pos.le
  have hpow : (1 : ℚ) ≤ 10 ^ n := one_le_pow₀ (by norm_num)
  have hm' : (0 : ℚ) ≤ m / 10 ^ n := by positivity
  have hfirst : Within leastDouble a (m / 10 ^ n) (x / 10 ^ n) := hx.div_right hpow hl
  have hsecond : Within leastDouble 2 (x / 10 ^ n) (x / p) :=
    (hwithin.div_left (by positivity) hf.nonneg).mono
      (div_nonneg hf.nonneg (by positivity)) (le_refl 0) (le_refl 2) hl
  have hthird : Within leastDouble 1 (x / p) y :=
    hround.within (div_nonneg hf.nonneg (by linarith))
  -- The error of the double, that of the power of ten, and that of the division.
  have h := (hfirst.trans hsecond hm' hl (by omega)).trans hthird hm' hl (by omega)
  exact ⟨y, hy, h⟩

/-- Scaling downwards within the table is one division. -/
theorem scale_of_neg (hneg : e < 0) (hlow : -308 ≤ e) :
    scale f e = some (f / powerOfTen e.natAbs) := by
  rw [scale, dif_neg (by unfold maxPower; omega), if_pos hneg]

/-- A negative power is the inverse of a power. -/
theorem zpow_of_neg (hneg : e < 0) : (10 : ℚ) ^ e = (10 ^ e.natAbs)⁻¹ := by
  rw [← zpow_natCast, ← zpow_neg]
  congr 1
  omega

/-- Scaling far downwards takes two divisions: the first is by the greatest
    power in the table. -/
theorem Holds.scale_down_twice {m : ℚ} (hf : Holds false f x) (hx : Within 0 1 m x) (hm : 1 ≤ m)
    (hlow : -616 ≤ e) (hfar : e < -308) :
    ∃ g y, scale f e = some g ∧ Holds false g y ∧ Within leastDouble 11 (m * 10 ^ e) y := by
  have hm₀ : (0 : ℚ) ≤ m := by linarith
  have hstart : Within leastDouble 1 m x :=
    hx.mono hm₀ (le_refl 0) (le_refl 1) leastDouble_pos.le
  have hne : ¬ (f == 0.0) = true := by
    rw [hf.beq_zero_iff]
    have := hx.le hm₀
    intro hzero
    linarith
  obtain ⟨y₁, hy₁, hwithin₁⟩ := hf.scale_down hstart hm₀ (by decide) (n := maxPower) (by decide)
    (le_refl _)
  obtain ⟨y, hy, hwithin⟩ := hy₁.scale_down hwithin₁ (by positivity) (by decide)
    (n := (e + maxPower).natAbs) (by unfold maxPower; omega) (by unfold maxPower; omega)
  refine ⟨_, y, ?_, hy, ?_⟩
  · rw [scale, dif_pos (by unfold maxPower; omega), if_neg hne]
    exact scale_of_neg (by unfold maxPower; omega) (by unfold maxPower; omega)
  · -- The two powers that are divided by make up the whole one.
    have hexp : (10 : ℚ) ^ e = (10 ^ maxPower)⁻¹ * (10 ^ (e + maxPower).natAbs)⁻¹ := by
      rw [← mul_inv, ← pow_add, zpow_of_neg (by omega)]
      congr 2
      unfold maxPower
      omega
    rw [hexp, ← mul_assoc, ← div_eq_mul_inv, ← div_eq_mul_inv]
    exact hwithin

/-- Scaling a number by a power of ten: up to eleven roundings, or a number
    that is too great. -/
theorem Holds.scale_spec {m : ℚ} (hf : Holds false f x) (hx : Within 0 1 m x) (hm : 1 ≤ m)
    (hlow : -616 ≤ e) (hhigh : e ≤ 308) :
    (∃ g y, scale f e = some g ∧ Holds false g y ∧ Within leastDouble 11 (m * 10 ^ e) y) ∨
      ∃ z, greatest ≤ z ∧ Within 0 3 (m * 10 ^ e) z := by
  have hl := leastDouble_pos.le
  have hm₀ : (0 : ℚ) ≤ m := by linarith
  by_cases hup : 0 ≤ e
  · obtain ⟨n, rfl⟩ := Int.eq_ofNat_of_zero_le hup
    rw [zpow_natCast]
    rcases hf.scale_up hx hm (n := n) (by omega) with ⟨g, y, hg, hy, hwithin⟩ | h
    · exact .inl ⟨g, y, hg, hy, hwithin.mono (by positivity) (le_refl 0) (by decide) hl⟩
    · exact .inr h
  left
  by_cases hone : -308 ≤ e
  · have hstart : Within leastDouble 1 m x := hx.mono hm₀ (le_refl 0) (le_refl 1) hl
    obtain ⟨y, hy, hwithin⟩ := hf.scale_down hstart hm₀ (by decide) (n := e.natAbs) (by omega)
      (by omega)
    refine ⟨_, y, scale_of_neg (by omega) hone, hy, ?_⟩
    rw [zpow_of_neg (by omega), ← div_eq_mul_inv]
    exact hwithin.mono (by positivity) hl (by decide) (le_refl _)
  · exact hf.scale_down_twice hx hm hlow (by omega)

/-- An unsigned 64-bit integer becomes a finite double. -/
theorem exists_holds_toFloat (n : UInt64) :
    ∃ x, Holds false n.toFloat x ∧ Rounds n.toNat x := by
  rcases yields_toFloat n with h | ⟨_, hgreat⟩
  · exact h
  · have hlt : (n.toNat : ℚ) < 10 ^ 308 := by
      have : n.toNat < 10 ^ 308 := lt_trans n.toNat_lt (by decide +kernel)
      exact_mod_cast this
    exact absurd hgreat (not_le.mpr (lt_trans hlt (pow_le_greatest (le_refl _))))

/-- What a significand and an exponent are read as: the number up to eleven
    roundings, unless it is too great. -/
theorem ofSignificand_spec (negative : Bool) {m : ℕ} (hm : 0 < m) (hlt : m < 2 ^ 64) {e : Int}
    (hlow : -616 ≤ e) (hhigh : e ≤ 308) :
    (∃ g y, ofSignificand negative m e = some g ∧ Holds negative g y ∧
        Within leastDouble 11 (m * 10 ^ e) y) ∨
      ∃ z, greatest ≤ z ∧ Within 0 3 (m * 10 ^ e) z := by
  obtain ⟨x, hx, hround⟩ := exists_holds_toFloat m.toUInt64
  have hnat : m.toUInt64.toNat = m := Nat.mod_eq_of_lt hlt
  rw [hnat] at hround
  have hone : (1 : ℚ) ≤ m := by exact_mod_cast hm
  rcases hx.scale_spec (hround.within_of_le (by linarith)) hone hlow hhigh with
    ⟨g, y, hg, hy, hnear⟩ | h
  · left
    unfold ofSignificand
    rw [hg]
    cases negative
    · exact ⟨g, y, rfl, hy, hnear⟩
    · exact ⟨-g, y, rfl, hy.neg, hnear⟩
  · exact .inr h

/-- What a significand and an exponent are read as is a finite double, if it
    is a double at all. -/
theorem exists_holds_of_ofSignificand {negative : Bool} {m : ℕ} {e : Int}
    (h : ofSignificand negative m e = some g) : ∃ y, Holds negative g y := by
  obtain ⟨x, hx, _⟩ := exists_holds_toFloat m.toUInt64
  unfold ofSignificand at h
  obtain ⟨g₁, hg₁, rfl⟩ := Option.map_eq_some_iff.mp h
  obtain ⟨y, hy⟩ := hx.exists_of_scale hg₁
  cases negative
  · exact ⟨y, hy⟩
  · exact ⟨y, hy.neg⟩

end Scaling

end Decimal

end DartModels
