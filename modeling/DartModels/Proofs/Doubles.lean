import DartModels.Decimal.Shortest
import Mathlib.Algebra.Order.Field.Power
import Mathlib.Algebra.Order.Field.Rat
import Mathlib.Tactic.Linarith
import Mathlib.Tactic.Positivity
import Mathlib.Tactic.Ring

/-!
# Doubles as rational numbers

What a double is as a number, and what rounding to a double costs.

A finite double is taken apart into a sign, a significand and an exponent. That
is done from its bits, as the program does it, and it agrees with what the
arithmetic of doubles unpacks. So a statement about an operation can be made
with rational numbers: `Holds` says that a double is finite and which number it
is.

Every operation ends with a rounding. A mantissa is cut at the last place that a
double of its size has, and goes to one of its two neighbours there. The one
thing that can go wrong is that the result is greater than every double, and
then it is infinite.

## Main definitions

* `Decimal.Holds`: A double is finite, and is this number.
* `Decimal.lastPlace`: The exponent of the last place of a double of some size.
* `Decimal.Rounds`: A number up to one rounding.
* `Decimal.greatest`: The greatest double.

## Theorems

* `Decimal.Binary.canonical_of_ofFloat?`: The range of significands and exponents.
* `Decimal.unpack_of_ofFloat?`: Taking apart agrees with unpacking.
* `Decimal.holds_round`: What a rounding yields.
-/

namespace DartModels

namespace Decimal

open Float.Model (Format totalExponent)
open Float.Model.UnpackedFloat

/-! ### Doubles by their bits -/

/-- The absolute value of a double that was taken apart. -/
def Binary.magnitude (b : Binary) : ℚ :=
  b.significand * 2 ^ b.exponent

/-- What holds of every double that was taken apart. -/
structure Binary.Canonical (b : Binary) : Prop where
  significand_lt : b.significand < 2 ^ 53
  le_exponent : -1074 ≤ b.exponent
  exponent_le : b.exponent ≤ 971
  normal : 2 ^ 52 ≤ b.significand ∨ b.exponent = -1074
  edge : b.edge = true → b.significand = 2 ^ 52

/-- A double is finite, has this sign, and this absolute value. -/
def Holds (negative : Bool) (f : Float) (x : ℚ) : Prop :=
  ∃ b, Binary.ofFloat? f = some b ∧ b.negative = negative ∧ b.magnitude = x

/-- The parts of a double are in this form. -/
theorem Binary.canonical_of_ofFloat? {f : Float} {b : Binary} (h : Binary.ofFloat? f = some b) :
    b.Canonical := by
  unfold Binary.ofFloat? at h
  have hfraction : f.toBits.toNat % 2 ^ 52 < 2 ^ 52 := Nat.mod_lt _ (by decide)
  have hbiased : f.toBits.toNat / 2 ^ 52 % 2 ^ 11 < 2 ^ 11 := Nat.mod_lt _ (by decide)
  simp only [Nat.pow_eq] at h
  split_ifs at h with hinf hzero
  · cases h
    -- A double next to zero has no leading bit, and the least exponent.
    refine ⟨?_, ?_, ?_, .inr rfl, ?_⟩ <;> dsimp only
    · omega
    · omega
    · omega
    · simp
  · cases h
    -- Any other double has one that is not written.
    refine ⟨?_, ?_, ?_, .inl ?_, ?_⟩ <;> dsimp only
    · omega
    · omega
    · omega
    · omega
    · simp only [Bool.and_eq_true, decide_eq_true_eq]
      omega

/-- The sign of a packed double as a truth value. -/
def isNegative : Sign → Bool
  | .negative => true
  | .positive => false

/-- The bits of the parts of a double, put side by side. -/
theorem toNat_packComponents (s : Sign) (e : BitVec 11) (m : BitVec 52) :
    (packComponents Format.binary64 s e m).toNat =
      (if isNegative s then 2 ^ 63 else 0) + e.toNat * 2 ^ 52 + m.toNat := by
  have happend : ∀ {v w : Nat} (x : BitVec v) (y : BitVec w),
      (x ++ y).toNat = x.toNat * 2 ^ w + y.toNat := by
    intro v w x y
    rw [BitVec.toNat_append, ← Nat.shiftLeft_add_eq_or_of_lt y.isLt, Nat.shiftLeft_eq]
  have hs : s.toBitVec.toNat = if isNegative s then 1 else 0 := by cases s <;> rfl
  unfold packComponents
  rw [happend, happend, hs]
  split <;> ring

/-- The parts of a packed double are those it was packed from. -/
theorem ofFloat?_ofModel_pack (u : Float.Model.UnpackedFloat) {s : Sign} {e : BitVec 11}
    {m : BitVec 52} (h : u.pack Format.binary64 = packComponents Format.binary64 s e m) :
    Binary.ofFloat? (.ofModel (.pack u)) =
      if e.toNat = 2047 then none
      else if e.toNat = 0 then some ⟨isNegative s, m.toNat, -1074, false⟩
      else some ⟨isNegative s, 2 ^ 52 + m.toNat, (e.toNat : Int) - 1075,
        m.toNat = 0 && 1 < e.toNat⟩ := by
  -- The three fields of the bits are the sign, the exponent and the fraction.
  have hbits : (Float.toBits (.ofModel (.pack u))).toNat =
      (if isNegative s then 2 ^ 63 else 0) + e.toNat * 2 ^ 52 + m.toNat := by
    rw [← toNat_packComponents, ← h]
    rfl
  have hm : m.toNat < 2 ^ 52 := m.isLt
  have he : e.toNat < 2 ^ 11 := e.isLt
  have hbiased : (Float.toBits (.ofModel (.pack u))).toNat / 2 ^ 52 % 2 ^ 11 = e.toNat := by
    rw [hbits]
    split <;> omega
  have hfraction : (Float.toBits (.ofModel (.pack u))).toNat % 2 ^ 52 = m.toNat := by
    rw [hbits]
    split <;> omega
  have hnegative : decide (2 ^ 63 ≤ (Float.toBits (.ofModel (.pack u))).toNat) = isNegative s := by
    rw [hbits]
    cases isNegative s <;> simp <;> omega
  unfold Binary.ofFloat?
  simp only [Nat.pow_eq, hbiased, hfraction, hnegative]

/-- Zero is a double, of either sign. -/
theorem holds_pack_zero (s : Sign) : Holds (isNegative s) (.ofModel (.pack (.zero s))) 0 := by
  have h := ofFloat?_ofModel_pack (.zero s) (s := s) (e := 0) (m := 0) rfl
  exact ⟨_, h, rfl, by simp [Binary.magnitude]⟩

/-- The bits of a double by its significand and exponent. -/
theorem pack_finite (s : Sign) {m : Nat} {e : Int} (hm : 0 < m) (hlt : m < 2 ^ 53) :
    pack Format.binary64 (.finite s m e hm) =
      if 2047 ≤ (e + 1075).toNat then packComponents Format.binary64 s (-1#11) 0
      else if 2 ^ 52 ≤ m then
        packComponents Format.binary64 s (BitVec.ofNat 11 (e + 1075).toNat) (BitVec.ofNat 52 m)
      else packComponents Format.binary64 s 0 (BitVec.ofNat 52 m) := by
  have hlog : m.log2 + 1 = 53 ↔ 2 ^ 52 ≤ m := by
    rw [← Nat.le_log2 (by omega)]
    have := (Nat.log2_lt (by omega)).mpr hlt
    omega
  have hbias : e + (1023 : Int) + (52 : Int) = e + 1075 := by omega
  have hfit : 2 ^ 11 ≤ (e + 1075).toNat + 1 ↔ 2047 ≤ (e + 1075).toNat := by omega
  have hmantissa : Format.mantissaBits Format.binary64 = 53 := rfl
  have hexponent : (Format.exponentBias Format.binary64 : Int) = 1023 := rfl
  unfold pack packedInfinity
  dsimp only
  simp only [hmantissa, hexponent, Nat.cast_ofNat, hbias, hlog, hfit]
  rfl

/-- What has been rounded to the form of a double is packed without loss,
    unless its exponent is too great. -/
theorem holds_pack_finite (s : Sign) {m : Nat} {e : Int} (hm : 0 < m) (hlt : m < 2 ^ 53)
    (he : -1074 ≤ e) (hnormal : 2 ^ 52 ≤ m ∨ e = -1074) (hle : e ≤ 971) :
    Holds (isNegative s) (.ofModel (.pack (.finite s m e hm))) (m * 2 ^ e) := by
  have hpack := pack_finite s (e := e) hm hlt
  rw [if_neg (by omega)] at hpack
  -- With its leading bit the number is packed as such, without it next to zero.
  by_cases hbig : 2 ^ 52 ≤ m
  · rw [if_pos hbig] at hpack
    have hbits := ofFloat?_ofModel_pack _ hpack
    rw [BitVec.toNat_ofNat, BitVec.toNat_ofNat, Nat.mod_eq_of_lt (by omega), if_neg (by omega),
      if_neg (by omega)] at hbits
    refine ⟨_, hbits, rfl, ?_⟩
    have hsignificand : 2 ^ 52 + m % 2 ^ 52 = m := by omega
    have hexponent : ((e + 1075).toNat : Int) - 1075 = e := by omega
    simp only [Binary.magnitude, hsignificand, hexponent]
  · rw [if_neg hbig] at hpack
    have hbits := ofFloat?_ofModel_pack _ hpack
    rw [if_neg (by decide), if_pos (by decide), BitVec.toNat_ofNat,
      Nat.mod_eq_of_lt (by omega)] at hbits
    refine ⟨_, hbits, rfl, ?_⟩
    rw [hnormal.resolve_left hbig]
    rfl

/-- Beyond the greatest exponent stands infinity. -/
theorem pack_finite_of_overflow (s : Sign) {m : Nat} {e : Int} (hm : 0 < m) (hlt : m < 2 ^ 53)
    (he : 972 ≤ e) :
    pack Format.binary64 (.finite s m e hm) = packedInfinity Format.binary64 s := by
  rw [pack_finite s hm hlt, if_pos (by omega)]
  rfl

/-- A packed double is its bits. -/
theorem congrArg_pack {u v : Float.Model.UnpackedFloat}
    (h : u.pack Format.binary64 = v.pack Format.binary64) :
    Float.Model.pack u = Float.Model.pack v := by
  unfold Float.Model.pack
  rw [Float.Model.mk.injEq, h]

/-! ### What a double unpacks to -/

/-- The field of the exponent. -/
theorem toNat_unpackExponent (b : BitVec 64) :
    (@unpackExponent Format.binary64 b).toNat = b.toNat / 2 ^ 52 % 2 ^ 11 := by
  unfold unpackExponent
  simp [BitVec.extractLsb, Nat.shiftRight_eq_div_pow]

/-- The field of the fraction. -/
theorem toNat_unpackMantissa (b : BitVec 64) :
    (@unpackMantissa Format.binary64 b).toNat = b.toNat % 2 ^ 52 := by
  unfold unpackMantissa
  simp [BitVec.extractLsb]

/-- The field of the sign. -/
theorem toNat_unpackSign (b : BitVec 64) :
    (@unpackSign Format.binary64 b).toNat = b.toNat / 2 ^ 63 % 2 := by
  unfold unpackSign
  simp [BitVec.extractLsb, Nat.shiftRight_eq_div_pow]

/-- The sign that a truth value stands for. -/
def signOf (negative : Bool) : Sign :=
  if negative then .negative else .positive

/-- The sign is negative exactly if the highest bit is set. -/
theorem ofBitVec_unpackSign (b : BitVec 64) :
    Sign.ofBitVec (@unpackSign Format.binary64 b) = signOf (decide (2 ^ 63 ≤ b.toNat)) := by
  have hbit : @unpackSign Format.binary64 b = 0#1 ↔ b.toNat < 2 ^ 63 := by
    have hlt := b.isLt
    rw [← BitVec.toNat_inj, toNat_unpackSign]
    show b.toNat / 2 ^ 63 % 2 = 0 ↔ _
    omega
  unfold Sign.ofBitVec signOf
  simp only [hbit]
  by_cases h : b.toNat < 2 ^ 63
  · rw [if_pos h, decide_eq_false (not_le.mpr h)]
    rfl
  · rw [if_neg h, decide_eq_true (not_lt.mp h)]
    rfl

/-- Finite doubles are the same if their parts are. -/
theorem finite_congr {s s' : Sign} {m m' : Nat} {e e' : Int} {hpos : 0 < m} {hpos' : 0 < m'}
    (hs : s = s') (hm : m = m') (he : e = e') :
    Float.Model.UnpackedFloat.finite s m e hpos = .finite s' m' e' hpos' := by
  subst hs hm he
  rfl

/-- Unpacking, with the fields of the bits as numbers. -/
theorem unpack_eq (f : Float.Model) {biased fraction : Nat} {negative : Bool}
    (hbiased : f.toBits.toNat / 2 ^ 52 % 2 ^ 11 = biased)
    (hfraction : f.toBits.toNat % 2 ^ 52 = fraction)
    (hnegative : decide (2 ^ 63 ≤ f.toBits.toNat) = negative) :
    f.unpack =
      if biased = 2047 then if fraction = 0 then .infinity (signOf negative) else .notANumber
      else if biased = 0 then
        if h : 0 < fraction then .finite (signOf negative) fraction (-1074) h
        else .zero (signOf negative)
      else .finite (signOf negative) (2 ^ 52 + fraction) ((biased : Int) - 1075) (by omega) := by
  -- What unpacking asks of the fields, as questions about their numbers.
  have he : (@unpackExponent Format.binary64 f.toBits.toBitVec).toNat = biased := by
    rw [toNat_unpackExponent, ← hbiased]
    rfl
  have hm : (@unpackMantissa Format.binary64 f.toBits.toBitVec).toNat = fraction := by
    rw [toNat_unpackMantissa, ← hfraction]
    rfl
  have hs : Sign.ofBitVec (@unpackSign Format.binary64 f.toBits.toBitVec) =
      signOf negative := by
    rw [ofBitVec_unpackSign, ← hnegative]
    rfl
  have hinf : @unpackExponent Format.binary64 f.toBits.toBitVec = -1#11 ↔ biased = 2047 := by
    rw [← BitVec.toNat_inj, he]
    rfl
  have hzero : @unpackExponent Format.binary64 f.toBits.toBitVec = 0#11 ↔ biased = 0 := by
    rw [← BitVec.toNat_inj, he]
    rfl
  have hnone : @unpackMantissa Format.binary64 f.toBits.toBitVec = 0#52 ↔ fraction = 0 := by
    rw [← BitVec.toNat_inj, hm]
    rfl
  have hwhole : (1#1 ++ @unpackMantissa Format.binary64 f.toBits.toBitVec).toNat =
      2 ^ 52 + fraction := by
    rw [BitVec.toNat_append, ← Nat.shiftLeft_add_eq_or_of_lt (BitVec.isLt _),
      Nat.shiftLeft_eq, hm]
    rfl
  have hbias : ((Format.exponentBias Format.binary64 : Int) + (52 : Nat)) = 1075 := rfl
  unfold Float.Model.unpack unpack
  dsimp only
  rw [hs]
  by_cases htop : biased = 2047
  · rw [if_pos (hinf.mpr htop), if_pos htop]
    by_cases h₁ : fraction = 0
    · rw [if_pos (hnone.mpr h₁), if_pos h₁]
    · rw [if_neg (mt hnone.mp h₁), if_neg h₁]
  rw [if_neg (mt hinf.mp htop), if_neg htop]
  by_cases h₀ : biased = 0
  · rw [if_pos (hzero.mpr h₀), if_pos h₀]
    by_cases h₁ : fraction = 0
    · rw [dif_pos (hnone.mpr h₁), dif_neg (Nat.not_lt.mpr h₁.le)]
    · rw [dif_neg (mt hnone.mp h₁), dif_pos (Nat.pos_of_ne_zero h₁)]
      exact finite_congr rfl hm (by rw [he, hbias, h₀]; rfl)
  · rw [if_neg (mt hzero.mp h₀), if_neg h₀]
    exact finite_congr rfl hwhole (by rw [he, hbias])

/-- A finite double is unpacked to zero or to its significand and exponent. -/
theorem unpack_of_ofFloat? {f : Float} {b : Binary} (h : Binary.ofFloat? f = some b) :
    (b.significand = 0 ∧ f.toModel.unpack = .zero (signOf b.negative)) ∨
      ∃ hpos, f.toModel.unpack = .finite (signOf b.negative) b.significand b.exponent hpos := by
  rw [unpack_eq f.toModel rfl rfl rfl]
  unfold Binary.ofFloat? Float.toBits at h
  simp only [Nat.pow_eq] at h
  by_cases htop : f.toModel.toBits.toNat / 2 ^ 52 % 2 ^ 11 = 2047
  · rw [if_pos htop] at h
    cases h
  rw [if_neg htop] at h ⊢
  by_cases hnext : f.toModel.toBits.toNat / 2 ^ 52 % 2 ^ 11 = 0
  · rw [if_pos hnext] at h ⊢
    cases h
    by_cases hpos : 0 < f.toModel.toBits.toNat % 2 ^ 52
    · rw [dif_pos hpos]
      exact .inr ⟨hpos, rfl⟩
    · rw [dif_neg hpos]
      exact .inl ⟨Nat.eq_zero_of_not_pos hpos, rfl⟩
  · rw [if_neg hnext] at h ⊢
    cases h
    exact .inr ⟨Nat.add_pos_left (by decide) _, rfl⟩

/-! ### Rounding -/

/-- The exponent of the last place of a double next to `m * 2 ^ e`. -/
def lastPlace (m : Nat) (e : Int) : Int :=
  max ((m.log2 : Int) + e - 52) (-1074)

/-- Rounding aims at the last place. -/
theorem targetExponent_eq (m : Nat) (e : Int) :
    Format.targetExponent Format.binary64 (totalExponent m e) = lastPlace m e := by
  show max ((m.log2 : Int) + 1 + e - 53) (3 - 1024 - 53) = max ((m.log2 : Int) + e - 52) (-1074)
  omega

/-- A shift to the right divides by a power of two. -/
theorem mantissa_shiftRight (em : ExtendedMantissa) (k : Nat) :
    (em >>> k).mantissa = em.mantissa / 2 ^ k := by
  induction k generalizing em with
  | zero => simp [HShiftRight.hShiftRight, Nat.repeat]
  | succ k ih =>
      show (em >>> k).mantissa / 2 = em.mantissa / 2 ^ (k + 1)
      rw [ih, Nat.div_div_eq_div_mul, ← Nat.pow_succ]

/-- Rounding a mantissa takes it to one of its two neighbours. -/
theorem roundedMantissa_bounds (em : ExtendedMantissa) :
    em.mantissa ≤ em.roundedMantissa ∧ em.roundedMantissa ≤ em.mantissa + 1 := by
  obtain ⟨m, r, s⟩ := em
  cases r <;> cases s <;>
    simp only [ExtendedMantissa.roundedMantissa, ExtendedMantissa.accuracy,
      Accuracy.roundToNearestEven] <;> omega

/-- Shifting cuts the mantissa at the last place. -/
theorem shiftToTargetExponent_eq (m : Nat) (e : Int) (a : Accuracy) :
    (shiftToTargetExponent Format.binary64 m e a).1.mantissa =
        m / 2 ^ (lastPlace m e - e).toNat ∧
      (shiftToTargetExponent Format.binary64 m e a).2 = e + (lastPlace m e - e).toNat := by
  have hmantissa : (ExtendedMantissa.ofMantissaAndAccuracy m a).mantissa = m := by
    cases a with
    | exact => rfl
    | inexact o => cases o <;> rfl
  rw [← targetExponent_eq]
  refine ⟨(mantissa_shiftRight (.ofMantissaAndAccuracy m a) _).trans ?_, rfl⟩
  rw [hmantissa]

/-- A mantissa that fits is not shifted any more. -/
theorem shift_of_lt {m : Nat} {e : Int} (hm : m < 2 ^ 53) (he : -1074 ≤ e) :
    (shiftToTargetExponent Format.binary64 m e .exact).1.mantissa = m ∧
      (shiftToTargetExponent Format.binary64 m e .exact).2 = e := by
  have hlog : m.log2 < 53 := by
    by_cases h : m = 0
    · rw [h]
      decide
    · exact (Nat.log2_lt h).mpr hm
  have hshift : (lastPlace m e - e).toNat = 0 := by
    unfold lastPlace
    omega
  have h := shiftToTargetExponent_eq m e .exact
  rw [hshift] at h
  exact ⟨h.1.trans (Nat.div_one m), h.2.trans (Int.add_zero e)⟩

/-- A mantissa that rounding has carried to one more bit loses its last one. -/
theorem shift_of_carry {e : Int} (he : -1074 ≤ e) :
    (shiftToTargetExponent Format.binary64 (2 ^ 53) e .exact).1.mantissa = 2 ^ 52 ∧
      (shiftToTargetExponent Format.binary64 (2 ^ 53) e .exact).2 = e + 1 := by
  have hshift : (lastPlace (2 ^ 53) e - e).toNat = 1 := by
    unfold lastPlace
    rw [Nat.log2_two_pow]
    omega
  have h := shiftToTargetExponent_eq (2 ^ 53) e .exact
  rw [hshift] at h
  exact ⟨h.1, h.2⟩

/-- Cut at the last place, a mantissa fits. -/
theorem div_lastPlace_lt (m : Nat) (e : Int) : m / 2 ^ (lastPlace m e - e).toNat < 2 ^ 53 := by
  have hlog : m < 2 ^ (m.log2 + 1) := Nat.lt_log2_self
  have hle : m.log2 + 1 ≤ 53 + (lastPlace m e - e).toNat := by
    unfold lastPlace
    omega
  rw [Nat.div_lt_iff_lt_mul (by positivity), ← Nat.pow_add]
  exact lt_of_lt_of_le hlog (Nat.pow_le_pow_right (by decide) hle)

/-- Rounding cuts the mantissa at the last place and may add a unit there. -/
theorem exists_roundWithAccuracy_eq (s : Sign) (m : Nat) {e : Int} (a : Accuracy)
    (he : e ≤ lastPlace m e) :
    ∃ r, m / 2 ^ (lastPlace m e - e).toNat ≤ r ∧ r ≤ m / 2 ^ (lastPlace m e - e).toNat + 1 ∧
      roundWithAccuracy Format.binary64 s m e a =
        if h : r = 0 then .zero s
        else if r < 2 ^ 53 then .finite s r (lastPlace m e) (Nat.pos_of_ne_zero h)
        else .finite s (2 ^ 52) (lastPlace m e + 1) (by decide) := by
  have hfirst := shiftToTargetExponent_eq m e a
  have hlast : -1074 ≤ lastPlace m e := le_max_right _ _
  rw [show e + ((lastPlace m e - e).toNat : Int) = lastPlace m e by omega] at hfirst
  have hbounds := roundedMantissa_bounds (shiftToTargetExponent Format.binary64 m e a).1
  rw [hfirst.1] at hbounds
  refine ⟨_, hbounds.1, hbounds.2, ?_⟩
  have hfit := div_lastPlace_lt m e
  unfold roundWithAccuracy
  dsimp only
  rw [hfirst.2]
  generalize (shiftToTargetExponent Format.binary64 m e a).1.roundedMantissa = r at hbounds ⊢
  -- The second shift does nothing unless the rounding carried.
  by_cases hr : r < 2 ^ 53
  · obtain ⟨hmantissa, hexponent⟩ := shift_of_lt hr hlast
    by_cases hzero : r = 0
    · rw [dif_pos (hmantissa.trans hzero), dif_pos hzero]
    · rw [dif_neg (hmantissa.trans_ne hzero), dif_neg hzero, if_pos hr]
      exact finite_congr rfl hmantissa hexponent
  · have hcarry : r = 2 ^ 53 := by omega
    subst hcarry
    obtain ⟨hmantissa, hexponent⟩ := shift_of_carry hlast
    rw [dif_neg (by rw [hmantissa]; decide), dif_neg (by decide), if_neg hr]
    exact finite_congr rfl hmantissa hexponent

/-- `y` is `x` up to a rounding: up to the distance of two doubles there. -/
def Rounds (x y : ℚ) : Prop :=
  |y - x| ≤ max (2 ^ (-52 : Int) * x) (2 ^ (-1074 : Int))

/-- The last place of a number is small beside the number, unless it is the
    last place of all. -/
theorem zpow_lastPlace_le {m : Nat} {e : Int} {x : ℚ} (he : e ≤ lastPlace m e)
    (hx : m * 2 ^ e ≤ x) :
    (2 : ℚ) ^ lastPlace m e ≤ max (2 ^ (-52 : Int) * x) (2 ^ (-1074 : Int)) := by
  by_cases hlast : lastPlace m e = -1074
  · rw [hlast]
    exact le_max_right _ _
  · have hm : m ≠ 0 := by
      rintro rfl
      unfold lastPlace at he hlast
      rw [Nat.log2_zero] at he hlast
      omega
    have hlog : ((2 : ℚ) ^ (m.log2 : Int)) ≤ m := by
      rw [zpow_natCast]
      exact_mod_cast Nat.log2_self_le hm
    refine le_trans ?_ (le_max_left _ _)
    -- The last place is 52 places behind the first, which is not beyond the number.
    calc (2 : ℚ) ^ lastPlace m e = 2 ^ (-52 : Int) * (2 ^ (m.log2 : Int) * 2 ^ e) := by
          rw [← zpow_add₀ two_ne_zero, ← zpow_add₀ two_ne_zero]
          congr 1
          unfold lastPlace at hlast ⊢
          omega
      _ ≤ 2 ^ (-52 : Int) * x := by
          gcongr
          exact le_trans (by gcongr) hx

/-- Cut above the last place of all, a mantissa has all its bits. -/
theorem le_div_lastPlace {m : Nat} {e : Int} (he : e ≤ lastPlace m e)
    (hlast : lastPlace m e ≠ -1074) : 2 ^ 52 ≤ m / 2 ^ (lastPlace m e - e).toNat := by
  have hm : m ≠ 0 := by
    rintro rfl
    unfold lastPlace at he hlast
    rw [Nat.log2_zero] at he hlast
    omega
  have hlog : 52 + (lastPlace m e - e).toNat = m.log2 := by
    unfold lastPlace at he hlast ⊢
    omega
  rw [Nat.le_div_iff_mul_le (by positivity), ← Nat.pow_add, hlog]
  exact Nat.log2_self_le hm

/-- The neighbours of a number in the last place. -/
theorem floor_lastPlace {m : Nat} {e : Int} {x : ℚ} (he : e ≤ lastPlace m e)
    (hlow : m * 2 ^ e ≤ x) (hhigh : x ≤ (m + 1) * 2 ^ e) :
    ((m / 2 ^ (lastPlace m e - e).toNat : Nat) : ℚ) * 2 ^ lastPlace m e ≤ x ∧
      x ≤ (((m / 2 ^ (lastPlace m e - e).toNat : Nat) : ℚ) + 1) * 2 ^ lastPlace m e := by
  set k := (lastPlace m e - e).toNat with hk
  have hsplit : (2 : ℚ) ^ lastPlace m e = 2 ^ k * 2 ^ e := by
    rw [← zpow_natCast, ← zpow_add₀ two_ne_zero]
    congr 1
    omega
  have hfloor : ((m / 2 ^ k : Nat) : ℚ) * 2 ^ k ≤ m := by
    exact_mod_cast Nat.div_mul_le_self m (2 ^ k)
  have hceil : (m : ℚ) + 1 ≤ (((m / 2 ^ k : Nat) : ℚ) + 1) * 2 ^ k := by
    exact_mod_cast (Nat.div_lt_iff_lt_mul (by positivity)).mp (Nat.lt_succ_self (m / 2 ^ k))
  rw [hsplit, ← mul_assoc, ← mul_assoc]
  constructor
  · exact le_trans (by gcongr) hlow
  · exact le_trans hhigh (by gcongr)

/-- The greatest finite double. -/
def greatest : ℚ :=
  (2 ^ 53 - 1 : Nat) * 2 ^ (971 : Int)

/-- A number with all its bits in front of a place beyond the last one that a
    double can have is greater than every double. -/
theorem greatest_le_of_lt {t : Int} (ht : 971 < t) : greatest ≤ (2 ^ 52 : Nat) * 2 ^ t := by
  calc greatest ≤ (2 ^ 52 : Nat) * (2 * 2 ^ (971 : Int)) := by
        unfold greatest
        rw [← mul_assoc]
        gcongr
        norm_num
    _ = (2 ^ 52 : Nat) * 2 ^ (971 + 1 : Int) := by rw [zpow_add_one₀ two_ne_zero, mul_comm 2]
    _ ≤ (2 ^ 52 : Nat) * 2 ^ t := by
        gcongr
        · exact one_le_two
        · omega

/-- Either neighbour of a number is its rounding. -/
theorem rounds_of_neighbour {x : ℚ} {t : Int} {q r : Nat} (hfloor : q ≤ r) (hceil : r ≤ q + 1)
    (hbelow : (q : ℚ) * 2 ^ t ≤ x) (habove : x ≤ ((q : ℚ) + 1) * 2 ^ t)
    (hsmall : (2 : ℚ) ^ t ≤ max (2 ^ (-52 : Int) * x) (2 ^ (-1074 : Int))) :
    Rounds x (r * 2 ^ t) := by
  have hpos : (0 : ℚ) < 2 ^ t := by positivity
  have hqr : (q : ℚ) ≤ r := by exact_mod_cast hfloor
  have hrq : (r : ℚ) ≤ q + 1 := by exact_mod_cast hceil
  refine le_trans ?_ hsmall
  rw [abs_le]
  constructor <;> nlinarith

/-- A number between `m * 2 ^ e` and the next one is rounded to a double, or
    to infinity if it is too great. -/
theorem holds_round (s : Sign) {m : Nat} {e : Int} (a : Accuracy) {x : ℚ}
    (he : e ≤ lastPlace m e) (hlow : m * 2 ^ e ≤ x) (hhigh : x ≤ (m + 1) * 2 ^ e) :
    (∃ y, Holds (isNegative s) (.ofModel (.pack (roundWithAccuracy Format.binary64 s m e a))) y ∧
        Rounds x y) ∨
      (Float.Model.pack (roundWithAccuracy Format.binary64 s m e a) = .pack (.infinity s) ∧
        greatest ≤ x) := by
  obtain ⟨r, hfloor, hceil, hround⟩ := exists_roundWithAccuracy_eq s m a he
  obtain ⟨hbelow, habove⟩ := floor_lastPlace he hlow hhigh
  have hnormal := le_div_lastPlace he
  have hlast : -1074 ≤ lastPlace m e := le_max_right _ _
  have hfit := div_lastPlace_lt m e
  have hrounds := rounds_of_neighbour hfloor hceil hbelow habove (zpow_lastPlace_le he hlow)
  set t := lastPlace m e
  set q := m / 2 ^ (t - e).toNat
  have hoverflow : ∀ n : Nat, n ≤ q → (n : ℚ) * 2 ^ t ≤ x := by
    intro n hn
    have hcast : (n : ℚ) ≤ q := by exact_mod_cast hn
    exact le_trans (by gcongr) hbelow
  rw [hround]
  by_cases hzero : r = 0
  · -- Less than half of the least double is zero.
    rw [dif_pos hzero]
    rw [hzero, Nat.cast_zero, zero_mul] at hrounds
    exact .inl ⟨0, holds_pack_zero s, hrounds⟩
  rw [dif_neg hzero]
  by_cases hr : r < 2 ^ 53
  · rw [if_pos hr]
    by_cases hlarge : t ≤ 971
    · have hcanonical : 2 ^ 52 ≤ r ∨ t = -1074 := by
        by_cases ht : t = -1074
        · exact .inr ht
        · exact .inl (le_trans (hnormal ht) hfloor)
      exact .inl ⟨_, holds_pack_finite s _ hr hlast hcanonical hlarge, hrounds⟩
    · -- The exponent is too great, so the number was beyond the greatest double already.
      refine .inr ⟨congrArg_pack (pack_finite_of_overflow s _ hr (by omega)), ?_⟩
      exact le_trans (greatest_le_of_lt (by omega)) (hoverflow _ (hnormal (by omega)))
  -- The rounding has carried, so the mantissa had nothing but ones.
  · rw [if_neg hr]
    have hcarry : r = 2 ^ 53 := by omega
    by_cases hlarge : t + 1 ≤ 971
    · have hvalue : (r : ℚ) * 2 ^ t = (2 ^ 52 : Nat) * 2 ^ (t + 1) := by
        rw [hcarry, zpow_add_one₀ two_ne_zero]
        push_cast
        ring
      rw [hvalue] at hrounds
      exact .inl ⟨_, holds_pack_finite s _ (by decide) (by omega) (.inl (le_refl _)) hlarge,
        hrounds⟩
    · refine .inr ⟨congrArg_pack (pack_finite_of_overflow s _ (by decide) (by omega)), ?_⟩
      calc greatest ≤ (2 ^ 53 - 1 : Nat) * 2 ^ t := by
            unfold greatest
            gcongr
            · exact one_le_two
            · omega
        _ ≤ x := hoverflow _ (by omega)

end Decimal

end DartModels
