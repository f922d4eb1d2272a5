import DartModels.Proofs.NumberTexts
import DartModels.Proofs.Scaling

/-!
# Doubles written and read again

A finite double that is written and read again is the same up to rounding.

Three things come together: the decimal that is written is next to the double,
its text is read as a significand and an exponent, and from these a double is
computed that is next to the decimal. What remains is that the result could be
too great. The bounds exclude that for all but the seven greatest doubles, and
for these it is computed.

## Main definitions

* `Near`: Two doubles that are equal up to rounding.
* `Decimal.Binary.text`: The text of a double without its sign.

## Theorems

* `Decimal.Binary.Canonical.isDouble_text`: The text is that of the decimal.
* `Decimal.Binary.Canonical.eq_of_overflow`: The doubles that could overflow.
* `Decimal.Binary.exists_reread`: A double is read as one near to it.
-/

namespace DartModels

open Decimal Decimal.Binary Json.Reader

/-- Two doubles with the same sign that are equal up to rounding. -/
def Near (f g : Float) : Prop :=
  ∃ negative x y, Holds negative f x ∧ Holds negative g y ∧ Within leastDouble 13 x y

namespace Decimal

namespace Binary

variable {b c : Binary}

/-- The text of a double without its sign. -/
def text (b : Binary) : List Char :=
  Json.doubleLayout.spell false b.shortest

/-- The last place of a double is small beside the double, unless it is the
    last place of all. -/
theorem Canonical.zpow_exponent_le (hb : b.Canonical) :
    (2 : ℚ) ^ b.exponent ≤ max (2 ^ (-52 : Int) * b.magnitude) (2 ^ (-1074 : Int)) := by
  rcases hb.normal with hnormal | hleast
  · refine le_max_of_le_left ?_
    have hcast : (2 : ℚ) ^ 52 ≤ b.significand := by exact_mod_cast hnormal
    calc (2 : ℚ) ^ b.exponent = 2 ^ (-52 : Int) * (2 ^ 52 * 2 ^ b.exponent) := by
          rw [← mul_assoc]
          norm_num
      _ ≤ 2 ^ (-52 : Int) * b.magnitude := by
          unfold magnitude
          gcongr
  · exact le_max_of_le_right (by rw [hleast])

/-- What is written for a double is the double up to a rounding. -/
theorem Canonical.rounds_shortest (hb : b.Canonical) (hpos : 0 < b.significand) :
    Rounds b.magnitude b.shortest.value := by
  obtain ⟨-, -, hnear⟩ := shortest_spec hb hpos
  have hz : (0 : ℚ) < 2 ^ b.exponent := by positivity
  exact hnear.trans (le_trans (by linarith) hb.zpow_exponent_le)

/-- The size of what is written, as far as that of doubles is known. -/
theorem Canonical.value_bounds (hb : b.Canonical) (hpos : 0 < b.significand) :
    (10 : ℚ) ^ (-400 : Int) ≤ b.shortest.value ∧ b.shortest.value < 10 ^ (309 : Int) := by
  obtain ⟨-, -, hnear⟩ := shortest_spec hb hpos
  obtain ⟨hlow, hhigh⟩ := abs_le.mp hnear
  have hz : (0 : ℚ) < 2 ^ b.exponent := by positivity
  have hone : (1 : ℚ) ≤ b.significand := by exact_mod_cast hpos
  have hlt : (b.significand : ℚ) + 1 ≤ 2 ^ 53 := by exact_mod_cast hb.significand_lt
  unfold magnitude at hlow hhigh
  constructor
  · -- From below: half of the least double. From above: one more than the greatest.
    calc (10 : ℚ) ^ (-400 : Int) ≤ (2 ^ 3) ^ (-400 : Int) := by
          rw [zpow_neg, zpow_neg, inv_le_inv₀ (by positivity) (by positivity)]
          exact zpow_le_zpow_left₀ (by decide) (by norm_num) (by norm_num)
      _ ≤ 2 ^ (-1074 - 1 : Int) := by
          rw [← zpow_natCast, ← zpow_mul]
          exact zpow_le_zpow_right₀ one_le_two (by decide)
      _ ≤ 2 ^ (b.exponent - 1) := zpow_le_zpow_right₀ one_le_two (by linarith [hb.le_exponent])
      _ = 2 ^ b.exponent / 2 := by rw [zpow_sub_one₀ two_ne_zero, div_eq_mul_inv]
      _ ≤ b.shortest.value := by nlinarith
  · calc b.shortest.value < (b.significand + 1) * 2 ^ b.exponent := by nlinarith
      _ ≤ 2 ^ 53 * 2 ^ (971 : Int) := by
          gcongr
          · exact one_le_two
          · exact hb.exponent_le
      _ = 2 * (2 ^ 93) ^ (11 : Int) := by
          rw [← zpow_natCast, ← zpow_natCast, ← zpow_mul, ← zpow_add₀ two_ne_zero,
            ← zpow_one_add₀ two_ne_zero]
          rfl
      _ ≤ 2 * (10 ^ 28) ^ (11 : Int) := by
          gcongr
          exact zpow_le_zpow_left₀ (by decide) (by positivity) (by norm_num)
      _ < 10 * (10 ^ 28) ^ (11 : Int) := by
          gcongr
          norm_num
      _ = 10 ^ (309 : Int) := by
          rw [← zpow_natCast, ← zpow_mul, ← zpow_one_add₀ (by norm_num)]
          rfl

/-- The text of a double above zero is read as that of its decimal. -/
theorem Canonical.isDouble_text (hb : b.Canonical) (hpos : 0 < b.significand) :
    IsDouble b.text b.shortest.value := by
  obtain ⟨hsignificand, hfit, -⟩ := shortest_spec hb hpos
  obtain ⟨hlow, hhigh⟩ := hb.value_bounds hpos
  exact Layout.isDouble_spell rfl (le_refl _) hsignificand hfit hlow
    (hhigh.trans (zpow_lt_zpow_right₀ (by norm_num) (by decide)))

/-! ### The greatest doubles -/

/-- Whether a double is read from its text with at most one unit of its last
    place lost. -/
def isReread (b : Binary) : Bool :=
  match Json.Reader.number b.negative b.text with
  | .ok (.double g, _) =>
      match ofFloat? g with
      | some c =>
          c.negative == b.negative && c.exponent == b.exponent &&
            decide (c.significand ≤ b.significand + 1) && decide (b.significand ≤ c.significand + 1)
      | none => false
  | _ => false

/-- The seven greatest doubles do not turn into infinities, although the bound
    on the error alone would allow it. -/
theorem isReread_greatest (negative : Bool) :
    ∀ i < 7, isReread ⟨negative, 2 ^ 53 - 1 - i, 971, false⟩ = true := by
  cases negative <;> decide +kernel

/-- All the others are too far from infinity. -/
theorem Canonical.greatest_of_overflow (hb : b.Canonical) (hpos : 0 < b.significand) {z : ℚ}
    (hz : greatest ≤ z) (hwithin : Within 0 3 b.shortest.value z) :
    b.exponent = 971 ∧ 2 ^ 53 - 7 ≤ b.significand := by
  obtain ⟨-, -, hnear⟩ := shortest_spec hb hpos
  have hq : (0 : ℚ) < 2 ^ b.exponent := by positivity
  have htop : (0 : ℚ) < 2 ^ (971 : Int) := by positivity
  have hvalue : b.shortest.value ≤ (b.significand + 1 / 2) * 2 ^ b.exponent := by
    have := (abs_le.mp hnear).2
    unfold magnitude at this
    linarith
  -- What overflows is near the greatest double, even before its three roundings.
  have hgreat : greatest ≤ (1 + 3 * roundingUnit) * ((b.significand + 1 / 2) * 2 ^ b.exponent) := by
    have hhigh := (abs_le.mp hwithin).2
    have hu := roundingUnit_pos
    push_cast at hhigh
    calc greatest ≤ z := hz
      _ ≤ (1 + 3 * roundingUnit) * b.shortest.value := by linarith
      _ ≤ (1 + 3 * roundingUnit) * ((b.significand + 1 / 2) * 2 ^ b.exponent) := by gcongr
  unfold greatest roundingUnit at hgreat
  by_cases hexponent : b.exponent = 971
  · refine ⟨hexponent, ?_⟩
    by_contra hlow
    have hcast : (b.significand : ℚ) + 8 ≤ 2 ^ 53 := by
      have : b.significand + 8 ≤ 2 ^ 53 := by omega
      exact_mod_cast this
    rw [hexponent, ← mul_assoc] at hgreat
    have hprod := le_of_mul_le_mul_right hgreat htop
    norm_num at hprod hcast
    linarith only [hprod, hcast]
  · -- A binade further down everything is only half as great.
    have hsmall : (2 : ℚ) ^ b.exponent ≤ 2 ^ (971 : Int) / 2 := by
      calc (2 : ℚ) ^ b.exponent ≤ 2 ^ (971 - 1 : Int) := by
            apply zpow_le_zpow_right₀ one_le_two
            have := hb.exponent_le
            omega
        _ = 2 ^ (971 : Int) / 2 := by rw [zpow_sub_one₀ two_ne_zero, div_eq_mul_inv]
    have hcast : (b.significand : ℚ) + 1 ≤ 2 ^ 53 := by exact_mod_cast hb.significand_lt
    have hprod :
        (b.significand + 1 / 2) * (2 : ℚ) ^ b.exponent ≤ 2 ^ 53 * (2 ^ (971 : Int) / 2) := by
      gcongr
      linarith
    generalize (2 : ℚ) ^ (971 : Int) = top at htop hgreat hprod
    norm_num at hgreat hprod
    exact absurd hgreat (by linarith only [hprod, htop])

/-- So what overflows is one of the seven greatest doubles. -/
theorem Canonical.eq_of_overflow (hb : b.Canonical) (hpos : 0 < b.significand) {z : ℚ}
    (hz : greatest ≤ z) (hwithin : Within 0 3 b.shortest.value z) :
    ∃ i < 7, b = ⟨b.negative, 2 ^ 53 - 1 - i, 971, false⟩ := by
  obtain ⟨hexponent, hsignificand⟩ := hb.greatest_of_overflow hpos hz hwithin
  have hlt := hb.significand_lt
  have hedge : b.edge = false := by
    by_contra h
    have := hb.edge (Bool.of_not_eq_false h)
    omega
  refine ⟨2 ^ 53 - 1 - b.significand, by omega, ?_⟩
  obtain ⟨negative, m, q, edge⟩ := b
  simp only at hexponent hedge hsignificand hlt ⊢
  rw [hexponent, hedge]
  congr 1
  omega

/-- A significand and an exponent that stand for what is written for a double
    are read as one near to it. -/
theorem Canonical.near_of_ofSignificand (hb : b.Canonical) (hpos : 0 < b.significand) {m : Nat}
    {e : Int} (hm : 0 < m) (hfit : m ≤ maxSignificand)
    (hvalue : (m : ℚ) * 10 ^ e = b.shortest.value) :
    (∃ g y, ofSignificand b.negative m e = some g ∧ Holds b.negative g y ∧
        Within leastDouble 13 b.magnitude y) ∨
      ∃ z, greatest ≤ z ∧ Within 0 3 b.shortest.value z := by
  obtain ⟨hlow, hhigh⟩ := hb.value_bounds hpos
  have hten : (0 : ℚ) < 10 ^ e := by positivity
  have hone : (1 : ℚ) ≤ m := by exact_mod_cast hm
  have hlt : m < 2 ^ 64 := Nat.lt_of_le_pred (by decide) hfit
  have hcast : (m : ℚ) < 10 ^ (20 : Int) := by
    have : m < 10 ^ 20 := hlt.trans (by decide)
    exact_mod_cast this
  -- The significand has twenty digits at most, so the exponent is in the range of the
  -- reader.
  have hupper : (10 : ℚ) ^ e < 10 ^ (309 : Int) := by
    refine lt_of_le_of_lt ?_ (hvalue ▸ hhigh)
    exact le_mul_of_one_le_left hten.le hone
  have hlower : (10 : ℚ) ^ (-400 : Int) < 10 ^ (20 + e) := by
    rw [zpow_add₀ (by norm_num)]
    refine lt_of_le_of_lt (hvalue ▸ hlow) ?_
    exact mul_lt_mul_of_pos_right hcast hten
  rw [zpow_lt_zpow_iff_right₀ (by norm_num)] at hupper hlower
  have hmagnitude : 0 ≤ b.magnitude := by
    unfold magnitude
    positivity
  rcases ofSignificand_spec b.negative hm hlt (e := e) (by omega) (by omega) with
    ⟨g, y, hg, hy, hnear⟩ | h
  · left
    refine ⟨g, y, hg, hy, ?_⟩
    -- One rounding to write, and up to eleven to read.
    have htrans := ((hb.rounds_shortest hpos).within hmagnitude).trans (hvalue ▸ hnear) hmagnitude
      leastDouble_pos.le (by decide)
    exact htrans
  · exact .inr (hvalue ▸ h)

/-- A double that is found to be read again is read so in front of anything. -/
theorem Canonical.near_of_isReread (hb : b.Canonical) (h : isReread b = true) {m : Nat} {e : Int}
    (hread : ∀ rest, Stops rest → Json.Reader.number b.negative (b.text ++ rest) =
      finish b.negative m e rest) :
    ∃ g y, ofSignificand b.negative m e = some g ∧ Holds b.negative g y ∧
      Within leastDouble 13 b.magnitude y := by
  have hl := leastDouble_pos
  have hmagnitude : 0 ≤ b.magnitude := by
    unfold magnitude
    positivity
  have hempty := hread [] nofun
  rw [List.append_nil] at hempty
  unfold isReread at h
  rw [hempty, finish] at h
  cases hg : ofSignificand b.negative m e with
  | none => simp [hg, behind] at h
  | some g =>
      simp only [hg] at h
      cases hc : ofFloat? g with
      | none => simp [hc] at h
      | some c =>
          simp only [hc, Bool.and_eq_true, beq_iff_eq, decide_eq_true_eq] at h
          obtain ⟨⟨⟨hnegative, hexponent⟩, hle⟩, hge⟩ := h
          refine ⟨g, c.magnitude, rfl, ⟨c, hc, hnegative, rfl⟩, ?_⟩
          have hq : (0 : ℚ) < 2 ^ b.exponent := by positivity
          have hle' : (c.significand : ℚ) ≤ b.significand + 1 := by exact_mod_cast hle
          have hge' : (b.significand : ℚ) ≤ c.significand + 1 := by exact_mod_cast hge
          -- One unit of the last place is no more than a rounding.
          have hrounds : Rounds b.magnitude c.magnitude := by
            refine le_trans ?_ hb.zpow_exponent_le
            unfold magnitude
            rw [hexponent, abs_le]
            constructor <;> nlinarith
          exact (hrounds.within hmagnitude).mono hmagnitude hl.le (by decide) (le_refl _)

/-! ### Writing and reading -/

/-- A double that is zero has the parts of zero. -/
theorem Canonical.eq_of_zero (hb : b.Canonical) (h : b.significand = 0) :
    b = ⟨b.negative, 0, -1074, false⟩ := by
  have hexponent : b.exponent = -1074 := hb.normal.resolve_left (by rw [h]; decide)
  have hedge : b.edge = false := by
    by_contra hne
    have := hb.edge (Bool.of_not_eq_false hne)
    omega
  obtain ⟨negative, m, q, edge⟩ := b
  simp only at h hexponent hedge ⊢
  rw [h, hexponent, hedge]

/-- Zero is read again, with its sign. -/
theorem isReread_zero (negative : Bool) : isReread ⟨negative, 0, -1074, false⟩ = true := by
  cases negative <;> decide +kernel

/-- A zero is written with a point, and nothing is left to round. -/
theorem number_zero {negative : Bool} {rest : List Char} (hrest : Stops rest) :
    Json.Reader.number negative (['0', '.', '0'] ++ rest) = finish negative 0 (-1) rest := by
  have hpoint : Json.Reader.number negative (['0'] ++ '.' :: (['0'] ++ rest)) =
      exponentPart negative 0 (-1) rest :=
    number_point (AllDigits.zeros 2) (by simp) (fun _ => rfl) (by simp) rfl (Nat.zero_le _)
      hrest.noDigit
  exact hpoint.trans (exponentPart_of_stops hrest)

/-- A finite double that is written is read as one near to it. -/
theorem exists_reread {f : Float} (hf : ofFloat? f = some b) :
    ∃ g, Near f g ∧ ∀ rest, Stops rest →
      Json.Reader.number b.negative (b.text ++ rest) = .ok (.double g, rest) := by
  have hb := canonical_of_ofFloat? hf
  -- All that is needed is one significand with its exponent.
  have key {m : Nat} {e : Int}
      (hread : ∀ rest, Stops rest → Json.Reader.number b.negative (b.text ++ rest) =
        finish b.negative m e rest)
      (h : ∃ g y, ofSignificand b.negative m e = some g ∧ Holds b.negative g y ∧
        Within leastDouble 13 b.magnitude y) :
      ∃ g, Near f g ∧ ∀ rest, Stops rest →
        Json.Reader.number b.negative (b.text ++ rest) = .ok (.double g, rest) := by
    obtain ⟨g, y, hg, hy, hnear⟩ := h
    refine ⟨g, ⟨b.negative, b.magnitude, y, ⟨b, hf, rfl, rfl⟩, hy, hnear⟩, fun rest hrest => ?_⟩
    rw [hread rest hrest, finish, hg]
  by_cases hzero : b.significand = 0
  · have htext : b.text = ['0', '.', '0'] := by
      rw [text, shortest, if_pos hzero]
      rfl
    have hread (rest) (hrest : Stops rest) : Json.Reader.number b.negative (b.text ++ rest) =
        finish b.negative 0 (-1) rest := by
      rw [htext]
      exact number_zero hrest
    refine key hread (hb.near_of_isReread ?_ hread)
    rw [hb.eq_of_zero hzero]
    exact isReread_zero b.negative
  · have hpos := Nat.pos_of_ne_zero hzero
    obtain ⟨m, e, hm, hfit, hvalue, hread⟩ := hb.isDouble_text hpos
    refine key (hread b.negative) ?_
    -- The reader might only overflow for one of the greatest doubles, and these were tried.
    rcases hb.near_of_ofSignificand hpos hm hfit hvalue with h | ⟨z, hz, hwithin⟩
    · exact h
    · obtain ⟨i, hi, heq⟩ := hb.eq_of_overflow hpos hz hwithin
      exact hb.near_of_isReread (heq ▸ isReread_greatest b.negative i hi) (hread b.negative)

end Binary

end Decimal

end DartModels
