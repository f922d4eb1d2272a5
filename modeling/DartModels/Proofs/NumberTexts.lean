import DartModels.Json.Reader
import DartModels.Json.Printer
import DartModels.Proofs.Digits
import DartModels.Proofs.ShortestDecimals

/-!
# Numbers in writing

The text of a double is read as the significand and the exponent that it shows.

A decimal is laid out with its point in place or with an exponent. In each form
the digits on both sides of the point make one significand, and what the point
and the exponent say adds up to the exponent of the decimal. So a text stands
for a number, whatever is behind it, as long as that cannot be taken for more of
the number.

## Main definitions

* `Json.Reader.Stops`: What may stand behind a number.
* `Json.Reader.IsDouble`: A text that is read as a double for a number.

## Theorems

* `Json.Reader.number_point`: A point with digits on both sides.
* `Decimal.Layout.isDouble_positional`, `Decimal.Layout.isDouble_scientific`: The
  two forms.
* `Decimal.Layout.isDouble_spell`: A decimal that is spelled.
-/

namespace DartModels

open Nat (ofDigitChars)

namespace Json

namespace Reader

variable {negative down : Bool} {m : Nat} {e : Int} {digits rest : List Char}

/-- What may stand behind a number: the end, or something that ends it. -/
def Stops (rest : List Char) : Prop :=
  ∀ c ∈ rest.head?, c = ',' ∨ c = ']' ∨ c = '\x7d'

/-- What stands behind a row of digits is not a digit. -/
def NoDigit (rest : List Char) : Prop :=
  ∀ c ∈ rest.head?, c.isDigit = false

/-- What ends a number is not a digit. -/
theorem Stops.noDigit (h : Stops rest) : NoDigit rest := fun c hc => by
  rcases h c hc with rfl | rfl | rfl <;> rfl

/-- A digit in front is taken in first. -/
theorem ofDigitChars_cons (c : Char) (digits : List Char) (m : Nat) :
    ofDigitChars 10 (c :: digits) m = ofDigitChars 10 digits (m * 10 + digitValue c) := by
  rw [Nat.ofDigitChars_cons, Nat.mul_comm]
  rfl

/-- Digits that fit are all gathered. -/
theorem gather_eq (h : ofDigitChars 10 digits m ≤ maxSignificand) :
    gather m digits = (ofDigitChars 10 digits m, digits.length) := by
  induction digits generalizing m with
  | nil => rfl
  | cons c digits ih =>
      rw [ofDigitChars_cons] at h ⊢
      -- What is gathered so far is not greater than all of it.
      have hfit : m * 10 + digitValue c ≤ maxSignificand := le_trans (le_ofDigitChars digits _) h
      rw [gather, if_pos hfit]
      dsimp only
      rw [ih h]
      rfl

/-- A fraction extends the significand and lowers the exponent. -/
theorem fraction_eq (hdigits : AllDigits digits) (hne : digits ≠ [])
    (h : ofDigitChars 10 digits m ≤ maxSignificand) (hrest : NoDigit rest) :
    fraction negative m e (digits ++ rest) =
      exponentPart negative (ofDigitChars 10 digits m) (e - digits.length) rest := by
  unfold fraction
  dsimp only
  rw [takeWhile_append_eq hdigits hrest, dropWhile_append_eq hdigits hrest,
    if_neg (by simpa using hne), gather_eq h]

/-- An integer part that fits is read whole. A zero in front stands alone. -/
theorem number_eq (hdigits : AllDigits digits) (hne : digits ≠ [])
    (hzero : digits.head? = some '0' → digits = ['0'])
    (h : ofDigitChars 10 digits 0 ≤ maxSignificand) (hrest : NoDigit rest) :
    number negative (digits ++ rest) =
      afterInteger negative (ofDigitChars 10 digits 0) 0 rest := by
  cases digits with
  | nil => exact absurd rfl hne
  | cons c digits =>
      by_cases hc : c = '0'
      · -- Behind a zero in front no digit is looked for.
        cases hzero (congrArg some hc)
        cases rest with
        | nil => rfl
        | cons d rest =>
            rw [List.singleton_append, number]
            rw [if_neg (by rw [hrest d rfl]; decide)]
            rfl
      -- Any other digit in front is gathered with those behind it.
      · have htail : AllDigits digits := fun d hd => hdigits d (List.mem_cons_of_mem c hd)
        have hgather := gather_eq h
        rw [List.cons_append, number.eq_def]
        split
        next heq => cases heq
        next heq =>
          cases heq
          exact absurd rfl hc
        next heq =>
          cases heq
          dsimp only
          rw [if_pos (hdigits c List.mem_cons_self), takeWhile_append_eq htail hrest,
            dropWhile_append_eq htail hrest, hgather]
          dsimp only
          rw [Nat.sub_self]

/-- The digits of an exponent that fits are all read. -/
theorem exponentDigits_eq {acc : Nat} (hdigits : AllDigits digits)
    (h : ofDigitChars 10 digits acc ≤ maxExponent) (hrest : NoDigit rest) :
    exponentDigits negative down m e acc (digits ++ rest) =
      finish negative m
        (if down then e - ofDigitChars 10 digits acc else e + ofDigitChars 10 digits acc) rest := by
  induction digits generalizing acc with
  | nil =>
      cases rest with
      | nil => rfl
      | cons c rest =>
          rw [List.nil_append, exponentDigits, if_neg (by rw [hrest c rfl]; decide)]
          rfl
  | cons c digits ih =>
      rw [ofDigitChars_cons] at h ⊢
      have hfit : acc * 10 + digitValue c ≤ maxExponent := le_trans (le_ofDigitChars digits _) h
      rw [List.cons_append, exponentDigits, if_pos (hdigits c List.mem_cons_self)]
      dsimp only
      rw [if_pos hfit, ih (fun d hd => hdigits d (List.mem_cons_of_mem c hd)) h]

/-- And so is an exponent as a whole, which has a digit at least. -/
theorem exponentValue_eq (hdigits : AllDigits digits) (hne : digits ≠ [])
    (h : ofDigitChars 10 digits 0 ≤ maxExponent) (hrest : NoDigit rest) :
    exponentValue negative down m e (digits ++ rest) =
      finish negative m
        (if down then e - ofDigitChars 10 digits 0 else e + ofDigitChars 10 digits 0) rest := by
  cases digits with
  | nil => exact absurd rfl hne
  | cons c digits =>
      rw [ofDigitChars_cons, Nat.zero_mul, Nat.zero_add] at h ⊢
      rw [List.cons_append, exponentValue, if_pos (hdigits c List.mem_cons_self)]
      exact exponentDigits_eq (fun d hd => hdigits d (List.mem_cons_of_mem c hd)) h hrest

/-! ### What is spelled -/

/-- A text without a sign that is read as the double for `x`, whatever stands
    behind it. -/
def IsDouble (text : List Char) (x : ℚ) : Prop :=
  ∃ (m : Nat) (e : Int), 0 < m ∧ m ≤ maxSignificand ∧ (m : ℚ) * 10 ^ e = x ∧
    ∀ negative rest, Stops rest → number negative (text ++ rest) = finish negative m e rest

/-- What ends a number is no exponent. -/
theorem exponentPart_of_stops (h : Stops rest) :
    exponentPart negative m e rest = finish negative m e rest := by
  cases rest with
  | nil => rfl
  | cons c rest => rcases h c rfl with rfl | rfl | rfl <;> rfl

/-- Only the first character matters. -/
theorem noDigit_cons {c : Char} (hc : c.isDigit = false) (s : List Char) : NoDigit (c :: s) := by
  intro d hd
  cases hd
  exact hc

/-- A point with digits on both sides. -/
theorem number_point {whole places : List Char} {n : Nat} (hdigits : AllDigits (whole ++ places))
    (hwhole : whole ≠ []) (hzero : whole.head? = some '0' → whole = ['0']) (hplaces : places ≠ [])
    (hvalue : ofDigitChars 10 (whole ++ places) 0 = n) (hfit : n ≤ maxSignificand)
    (hrest : NoDigit rest) :
    number negative (whole ++ '.' :: (places ++ rest)) =
      exponentPart negative n (-(places.length : Int)) rest := by
  rw [Nat.ofDigitChars_append] at hvalue
  have hsmall : ofDigitChars 10 whole 0 ≤ maxSignificand :=
    le_trans (le_ofDigitChars places _) (hvalue.trans_le hfit)
  -- The digits in front of the point are read, then the point, then those behind it.
  calc number negative (whole ++ '.' :: (places ++ rest))
      = afterInteger negative (ofDigitChars 10 whole 0) 0 ('.' :: (places ++ rest)) :=
        number_eq hdigits.of_append_left hwhole hzero hsmall (noDigit_cons rfl _)
    _ = fraction negative (ofDigitChars 10 whole 0) 0 (places ++ rest) := rfl
    _ = exponentPart negative n (-(places.length : Int)) rest := by
        rw [fraction_eq hdigits.of_append_right hplaces (by rwa [hvalue]) hrest, hvalue]
        congr 1
        omega

/-- So a point with digits on both sides is read as the double that it stands for. -/
theorem isDouble_point {whole places : List Char} {n : Nat} (hdigits : AllDigits (whole ++ places))
    (hwhole : whole ≠ []) (hzero : whole.head? = some '0' → whole = ['0']) (hplaces : places ≠ [])
    (hvalue : ofDigitChars 10 (whole ++ places) 0 = n) (hpos : 0 < n) (hfit : n ≤ maxSignificand) :
    IsDouble (whole ++ '.' :: places) (n * 10 ^ (-(places.length : Int))) := by
  refine ⟨n, _, hpos, hfit, rfl, fun negative rest hrest => ?_⟩
  rw [List.append_assoc, List.cons_append,
    number_point hdigits hwhole hzero hplaces hvalue hfit hrest.noDigit,
    exponentPart_of_stops hrest]

end Reader

end Json

namespace Decimal

namespace Layout

open Json.Reader

variable {n : Nat} {place : Int}

/-- Below one, zeros stand between the point and the digits. -/
theorem isDouble_below (hn : 0 < n) (hfit : n ≤ maxSignificand) (zeros : Nat) :
    IsDouble (['0', '.'] ++ List.replicate zeros '0' ++ Nat.toDigits 10 n)
      (n * 10 ^ (-((zeros + (Nat.toDigits 10 n).length : Nat) : Int))) := by
  have htext : ['0', '.'] ++ List.replicate zeros '0' ++ Nat.toDigits 10 n =
      ['0'] ++ '.' :: (List.replicate zeros '0' ++ Nat.toDigits 10 n) := rfl
  have hlength : zeros + (Nat.toDigits 10 n).length =
      (List.replicate zeros '0' ++ Nat.toDigits 10 n).length := by
    rw [List.length_append, List.length_replicate]
  rw [htext, hlength]
  refine isDouble_point ((AllDigits.zeros 1).append ((AllDigits.zeros zeros).append (.toDigits n)))
    (by simp) (fun _ => rfl) (List.append_ne_nil_of_right_ne_nil _ Nat.toDigits_ne_nil) ?_ hn hfit
  rw [Nat.ofDigitChars_append, Nat.ofDigitChars_append, Nat.ofDigitChars_replicate_zero]
  exact Nat.ofDigitChars_ten_toDigits

/-- Where the digits end before the point does, a zero is put behind it. -/
theorem isDouble_whole (hn : 0 < n) {zeros : Nat} (hfit : n * 10 ^ (zeros + 1) ≤ maxSignificand) :
    IsDouble (Nat.toDigits 10 n ++ List.replicate zeros '0' ++ ['.', '0'])
      (n * 10 ^ (zeros : Int)) := by
  have hne : Nat.toDigits 10 n ≠ [] := Nat.toDigits_ne_nil
  -- The zero behind the point makes the significand ten times as great, and the exponent
  -- one less.
  have hnumber : (n : ℚ) * 10 ^ (zeros : Int) =
      (n * 10 ^ (zeros + 1) : Nat) * 10 ^ (-((['0'].length : Nat) : Int)) := by
    rw [Nat.cast_mul, Nat.cast_pow, mul_assoc, ← zpow_natCast, Nat.cast_ofNat,
      ← zpow_add₀ (by norm_num)]
    congr 2
    rw [List.length_singleton]
    omega
  rw [hnumber]
  refine isDouble_point (((AllDigits.toDigits n).append (.zeros zeros)).append (.zeros 1))
    (List.append_ne_nil_of_left_ne_nil hne _) ?_ (by simp) ?_ (by positivity) hfit
  · rw [List.head?_append_of_ne_nil _ hne]
    exact fun h => absurd h (head?_toDigits_ne hn)
  · rw [Nat.ofDigitChars_append, Nat.ofDigitChars_append, Nat.ofDigitChars_replicate_zero,
      Nat.ofDigitChars_ten_toDigits, ofDigitChars_cons, Nat.ofDigitChars_nil, pow_succ,
      ← Nat.mul_assoc, Nat.mul_comm n]
    rfl

/-- Otherwise the point stands among the digits. -/
theorem isDouble_among (hn : 0 < n) (hfit : n ≤ maxSignificand) {count : Nat} (hpos : 0 < count)
    (hcount : count < (Nat.toDigits 10 n).length) :
    IsDouble ((Nat.toDigits 10 n).take count ++ ['.'] ++ (Nat.toDigits 10 n).drop count)
      (n * 10 ^ (-(((Nat.toDigits 10 n).length - count : Nat) : Int))) := by
  have hvalue : ofDigitChars 10 (Nat.toDigits 10 n) 0 = n := Nat.ofDigitChars_ten_toDigits
  have hhead := head?_toDigits_ne hn
  have hall := AllDigits.toDigits n
  set whole := (Nat.toDigits 10 n).take count
  set places := (Nat.toDigits 10 n).drop count
  have hsplit : whole ++ places = Nat.toDigits 10 n := List.take_append_drop _ _
  -- There is a digit on either side of the point, and the first of them is no zero.
  have hwhole : whole ≠ [] := by
    rw [← List.length_pos_iff, List.length_take]
    omega
  have hplaces : places ≠ [] := by
    rw [← List.length_pos_iff, List.length_drop]
    omega
  have htext : whole ++ ['.'] ++ places = whole ++ '.' :: places := by
    rw [List.append_assoc]
    rfl
  rw [htext, ← List.length_drop]
  rw [← hsplit] at hvalue hhead hall
  rw [List.head?_append_of_ne_nil _ hwhole] at hhead
  exact isDouble_point hall hwhole (fun h => absurd h hhead) hplaces hvalue hn hfit

/-- The digits of a number with the point in place. -/
theorem isDouble_positional (hn : 0 < n) (hfit : n ≤ 10 ^ 17) (hplace : place ≤ 15) :
    IsDouble (positional (Nat.toDigits 10 n) place)
      (n * 10 ^ (place + 1 - (Nat.toDigits 10 n).length)) := by
  have hmax : 10 ^ 17 ≤ maxSignificand := by decide
  -- The three ways in which the digits and the point can lie.
  unfold positional
  dsimp only
  split
  next hneg =>
    have hexponent : place + 1 - (Nat.toDigits 10 n).length =
        -(((-place - 1).toNat + (Nat.toDigits 10 n).length : Nat) : Int) := by
      omega
    rw [hexponent]
    exact isDouble_below hn (hfit.trans hmax) _
  next hneg =>
    split
    next hshort =>
      have hexponent : place + 1 - (Nat.toDigits 10 n).length =
          ((place.toNat + 1 - (Nat.toDigits 10 n).length : Nat) : Int) := by
        omega
      rw [hexponent]
      refine isDouble_whole hn (le_trans ?_ hmax)
      have hlt : n < 10 ^ (Nat.toDigits 10 n).length :=
        (Nat.length_toDigits_le_iff (by decide) Nat.length_toDigits_pos).mp (le_refl _)
      calc n * 10 ^ (place.toNat + 1 - (Nat.toDigits 10 n).length + 1)
          ≤ 10 ^ (Nat.toDigits 10 n).length *
              10 ^ (place.toNat + 1 - (Nat.toDigits 10 n).length + 1) :=
            Nat.mul_le_mul_right _ hlt.le
        _ = 10 ^ ((Nat.toDigits 10 n).length +
              (place.toNat + 1 - (Nat.toDigits 10 n).length + 1)) := (pow_add 10 _ _).symm
        _ ≤ 10 ^ 17 := Nat.pow_le_pow_right (by decide) (by omega)
    next hlong =>
      have hexponent : place + 1 - (Nat.toDigits 10 n).length =
          -(((Nat.toDigits 10 n).length - (place.toNat + 1) : Nat) : Int) := by
        omega
      rw [hexponent]
      exact isDouble_among hn (hfit.trans hmax) (Nat.succ_pos _) (Nat.not_le.mp hlong)

/-- What stands behind the digits of a number with an exponent. -/
def exponentText (layout : Layout) (place : Int) : List Char :=
  (if place < 0 then ['-'] else if layout.plus then ['+'] else []) ++
    (List.replicate (layout.exponentWidth - (Nat.toDigits 10 place.natAbs).length) '0' ++
      Nat.toDigits 10 place.natAbs)

/-- An exponent is read as it was spelled, with its sign and its padding. -/
theorem exponentPart_eq {layout : Layout} (hplus : layout.plus = true)
    (hplace : place.natAbs ≤ maxExponent) {negative : Bool} {m : Nat} {e : Int} {rest : List Char}
    (hrest : NoDigit rest) :
    exponentPart negative m e ('e' :: (exponentText layout place ++ rest)) =
      finish negative m (e + place) rest := by
  unfold exponentText
  set padding := List.replicate (layout.exponentWidth - (Nat.toDigits 10 place.natAbs).length) '0'
  have hdigits : AllDigits (padding ++ Nat.toDigits 10 place.natAbs) :=
    (AllDigits.zeros _).append (AllDigits.toDigits _)
  have hne : padding ++ Nat.toDigits 10 place.natAbs ≠ [] :=
    List.append_ne_nil_of_right_ne_nil _ Nat.toDigits_ne_nil
  have hvalue : ofDigitChars 10 (padding ++ Nat.toDigits 10 place.natAbs) 0 = place.natAbs := by
    rw [Nat.ofDigitChars_append, Nat.ofDigitChars_replicate_zero, Nat.mul_zero,
      Nat.ofDigitChars_ten_toDigits]
  -- The zeros of the padding do not change the value.
  have hread (down : Bool) :
      exponentValue negative down m e (padding ++ Nat.toDigits 10 place.natAbs ++ rest) =
        finish negative m (if down then e - place.natAbs else e + place.natAbs) rest := by
    rw [exponentValue_eq hdigits hne (hvalue.trans_le hplace) hrest, hvalue]
  by_cases hneg : place < 0
  · rw [if_pos hneg]
    refine (hread true).trans ?_
    rw [if_pos rfl]
    congr 1
    omega
  · rw [if_neg hneg, if_pos hplus]
    refine (hread false).trans ?_
    rw [if_neg (by decide)]
    congr 1
    omega

/-- A single digit is followed by the exponent. -/
theorem scientific_singleton (layout : Layout) (d : Char) :
    layout.scientific [d] place = [d] ++ 'e' :: exponentText layout place := by
  unfold scientific exponentText
  simp only [List.append_assoc, List.cons_append, List.nil_append]

/-- Several digits have a point behind the first. -/
theorem scientific_cons_cons (layout : Layout) (d c : Char) (places : List Char) :
    layout.scientific (d :: c :: places) place =
      [d] ++ '.' :: (c :: places ++ 'e' :: exponentText layout place) := by
  unfold scientific exponentText
  simp only [List.append_assoc, List.cons_append, List.nil_append]

/-- The digits of a number with an exponent. -/
theorem isDouble_scientific {layout : Layout} (hplus : layout.plus = true) (hn : 0 < n)
    (hfit : n ≤ maxSignificand) (hplace : place.natAbs ≤ maxExponent) :
    IsDouble (layout.scientific (Nat.toDigits 10 n) place)
      (n * 10 ^ (place + 1 - (Nat.toDigits 10 n).length)) := by
  have hvalue : ofDigitChars 10 (Nat.toDigits 10 n) 0 = n := Nat.ofDigitChars_ten_toDigits
  have hall : AllDigits (Nat.toDigits 10 n) := AllDigits.toDigits n
  have hhead := head?_toDigits_ne hn
  refine ⟨n, _, hn, hfit, rfl, fun negative rest hrest => ?_⟩
  have hexponent (e : Int) :
      exponentPart negative n e ('e' :: (exponentText layout place ++ rest)) =
        finish negative n (e + place) rest :=
    exponentPart_eq hplus hplace hrest.noDigit
  -- A single digit stands without a point.
  rcases hdigits : Nat.toDigits 10 n with _ | ⟨d, _ | ⟨c, places⟩⟩ <;>
    rw [hdigits] at hvalue hall hhead
  · exact absurd hdigits Nat.toDigits_ne_nil
  · calc number negative (layout.scientific [d] place ++ rest)
        = number negative ([d] ++ 'e' :: (exponentText layout place ++ rest)) := by
          rw [scientific_singleton, List.append_assoc]
          rfl
      _ = exponentPart negative n 0 ('e' :: (exponentText layout place ++ rest)) := by
          rw [number_eq hall (by simp) (fun h => absurd h hhead) (hvalue.trans_le hfit)
            (noDigit_cons rfl _), hvalue]
          rfl
      _ = finish negative n (place + 1 - ([d].length : Nat)) rest := by
          rw [hexponent, List.length_singleton]
          congr 1
          omega
  · calc number negative (layout.scientific (d :: c :: places) place ++ rest)
        = number negative ([d] ++ '.' :: (c :: places ++
            'e' :: (exponentText layout place ++ rest))) := by
          rw [scientific_cons_cons]
          simp only [List.append_assoc, List.cons_append]
      _ = exponentPart negative n (-((c :: places).length : Int))
            ('e' :: (exponentText layout place ++ rest)) :=
          number_point hall (by simp) (fun h => absurd h hhead) (by simp) hvalue hfit
            (noDigit_cons rfl _)
      _ = finish negative n (place + 1 - ((d :: c :: places).length : Nat)) rest := by
          rw [hexponent, List.length_cons (a := d)]
          congr 1
          omega

/-- A decimal that is spelled reads as the number that it is. -/
theorem isDouble_spell {layout : Layout} (hplus : layout.plus = true)
    (hhighest : layout.highest ≤ 15) {d : Shortest} (hpos : 0 < d.significand)
    (hfit : d.significand ≤ 10 ^ 17)
    (hlow : (10 : ℚ) ^ (-400 : Int) ≤ d.value) (hhigh : d.value < 10 ^ (400 : Int)) :
    IsDouble (layout.spell false d) d.value := by
  -- Zeros at the end of the significand are not spelled, but go to the exponent.
  obtain ⟨n, zeros, hn, hsignificand, hstrip⟩ := exists_stripZeros_eq hpos
  have hle : n ≤ 10 ^ 17 := by
    refine le_trans ?_ hfit
    rw [hsignificand]
    exact Nat.le_mul_of_pos_right n (by positivity)
  have hvalue : d.value = n * 10 ^ (d.exponent + zeros + (Nat.toDigits 10 n).length - 1 + 1 -
      (Nat.toDigits 10 n).length) := by
    unfold Shortest.value
    rw [hsignificand, Nat.cast_mul, Nat.cast_pow, mul_assoc, ← zpow_natCast, Nat.cast_ofNat,
      ← zpow_add₀ (by norm_num)]
    congr 2
    omega
  set place := d.exponent + zeros + (Nat.toDigits 10 n).length - 1
  -- The leading digit stands where the size of the number says.
  have hnear : place.natAbs ≤ 400 := by
    obtain ⟨hfew, hmany⟩ := Binary.zpow_digitCount_bounds hn
      (place + 1 - (Nat.toDigits 10 n).length)
    have hten : (0 : ℚ) < 10 ^ (place + 1 - (Nat.toDigits 10 n).length) := by positivity
    rw [← hvalue] at hfew
    rw [add_mul, ← hvalue, one_mul] at hmany
    have hupper := (zpow_lt_zpow_iff_right₀ (by norm_num : (1 : ℚ) < 10)).mp (hfew.trans_lt hhigh)
    have hlower := (zpow_lt_zpow_iff_right₀ (by norm_num : (1 : ℚ) < 10)).mp
      (hlow.trans_lt ((lt_add_of_pos_right _ hten).trans_le hmany))
    unfold Binary.digitCount at hupper hlower
    omega
  have hspell : layout.spell false d =
      if layout.lowest ≤ place && place ≤ layout.highest then positional (Nat.toDigits 10 n) place
      else layout.scientific (Nat.toDigits 10 n) place := by
    unfold spell
    rw [if_neg (Nat.pos_iff_ne_zero.mp hpos), hstrip]
    rfl
  rw [hspell, hvalue]
  split
  next hrange =>
    rw [Bool.and_eq_true, decide_eq_true_eq, decide_eq_true_eq] at hrange
    exact isDouble_positional hn hle (hrange.2.trans hhighest)
  next =>
    exact isDouble_scientific hplus hn (hle.trans (by decide)) (hnear.trans (by decide))

end Layout

end Decimal

end DartModels
