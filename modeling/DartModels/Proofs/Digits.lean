import DartModels.Decimal.Layout
import Mathlib.Algebra.Group.Nat.Defs
import Mathlib.Data.List.DropRight
import Mathlib.Data.List.Induction

/-!
# Rows of digits

What the decimal digits of whole numbers look like.

The digits of a positive number do not begin with a zero, and any beginning of
them is the digits of a number again. So a number keeps its digits when the
zeros at its end are left out, only it is a smaller one.

A row of digits, or of characters of any other kind, can be taken off the front of
a text again as long as the text behind it does not begin with more of them.

## Main definitions

* `AllDigits`: A text of nothing but digits.

## Theorems

* `takeWhile_append_eq`, `dropWhile_append_eq`: A row in front of a text.
* `exists_toDigits_eq`: The beginning of the digits of a number.
* `head?_toDigits_ne`: Digits do not begin with a zero.
* `Decimal.Layout.exists_stripZeros_eq`: What is left without the zeros at the end.
-/

namespace DartModels

open Nat (ofDigitChars)

/-- A text of nothing but digits. -/
def AllDigits (s : List Char) : Prop :=
  ∀ c ∈ s, c.isDigit = true

namespace AllDigits

variable {s t : List Char}

/-- Digits behind digits. -/
theorem append (hs : AllDigits s) (ht : AllDigits t) : AllDigits (s ++ t) := fun c hc =>
  (List.mem_append.mp hc).elim (hs c) (ht c)

/-- Zeros are digits. -/
theorem zeros (n : Nat) : AllDigits (List.replicate n '0') := fun c hc => by
  rw [List.eq_of_mem_replicate hc]
  rfl

/-- A number is written with digits. -/
theorem toDigits (n : Nat) : AllDigits (Nat.toDigits 10 n) := fun _ hc =>
  Nat.isDigit_of_mem_toDigits (by decide) (by decide) hc

/-- A beginning of digits is digits. -/
theorem of_append_left (h : AllDigits (s ++ t)) : AllDigits s := fun c hc =>
  h c (List.mem_append_left t hc)

/-- And so is an end. -/
theorem of_append_right (h : AllDigits (s ++ t)) : AllDigits t := fun c hc =>
  h c (List.mem_append_right s hc)

end AllDigits

section Row

variable {p : Char → Bool} {row rest : List Char}

/-- A row is taken off whole, and nothing behind it is. -/
theorem takeWhile_append_eq (hrow : ∀ c ∈ row, p c = true)
    (hrest : ∀ c ∈ rest.head?, p c = false) : (row ++ rest).takeWhile p = row := by
  rw [List.takeWhile_append_of_pos hrow]
  cases rest with
  | nil => exact List.append_nil row
  | cons c rest => rw [List.takeWhile_cons_of_neg (by rw [hrest c rfl]; decide), List.append_nil]

/-- And what is left is what is behind the row. -/
theorem dropWhile_append_eq (hrow : ∀ c ∈ row, p c = true)
    (hrest : ∀ c ∈ rest.head?, p c = false) : (row ++ rest).dropWhile p = rest := by
  rw [List.dropWhile_append_of_pos hrow]
  cases rest with
  | nil => rfl
  | cons c rest => rw [List.dropWhile_cons_of_neg (by rw [hrest c rfl]; decide)]

end Row

/-- More digits make a number larger. -/
theorem le_ofDigitChars (s : List Char) (n : Nat) : n ≤ ofDigitChars 10 s n := by
  rw [Nat.ofDigitChars_eq_ofDigitChars_zero]
  exact Nat.le_add_right_of_le (Nat.le_mul_of_pos_left n (Nat.pow_pos (by decide)))

/-- The beginning of the digits of a positive number is the digits of one. -/
theorem exists_toDigits_eq {k : Nat} {front back : List Char} (hfront : front ≠ []) (hk : 0 < k)
    (h : Nat.toDigits 10 k = front ++ back) : ∃ n, 1 ≤ n ∧ front = Nat.toDigits 10 n := by
  -- Digits are taken off at the end, one at a time, whatever number they belong to.
  induction back using List.reverseRecOn generalizing k with
  | nil => exact ⟨k, hk, by rw [h, List.append_nil]⟩
  | append_singleton back c ih =>
      by_cases hlt : k < 10
      · -- A single digit leaves nothing for the front.
        have hlength := congrArg List.length h
        have hpos := List.length_pos_iff.mpr hfront
        rw [Nat.toDigits_of_lt_base hlt, List.length_append, List.length_append,
          List.length_singleton, List.length_singleton] at hlength
        omega
      · have hbase : 10 ≤ k := Nat.not_lt.mp hlt
        rw [Nat.toDigits_of_base_le (by decide) hbase, ← List.append_assoc] at h
        exact ih (by omega) (List.append_inj' h rfl).1

/-- The digits of a positive number do not begin with a zero. -/
theorem head?_toDigits_ne {n : Nat} (hn : 0 < n) : (Nat.toDigits 10 n).head? ≠ some '0' := by
  intro h
  cases hdigits : Nat.toDigits 10 n with
  | nil => exact Nat.toDigits_ne_nil hdigits
  | cons c rest =>
      rw [hdigits] at h
      cases h
      -- A zero by itself would be the digits of a positive number.
      obtain ⟨k, hk, hzero⟩ := exists_toDigits_eq (List.cons_ne_nil '0' []) hn hdigits
      have hvalue := Nat.ofDigitChars_ten_toDigits (n := k)
      rw [← hzero] at hvalue
      exact absurd hvalue (Nat.ne_of_lt hk)

namespace Decimal

namespace Layout

/-- The digits of a positive number without the zeros at their end are the
    digits of a number, and the zeros stand for a power of ten. -/
theorem exists_stripZeros_eq {n : Nat} (hn : 0 < n) :
    ∃ k zeros, 0 < k ∧ n = k * 10 ^ zeros ∧
      stripZeros (Nat.toDigits 10 n) = (Nat.toDigits 10 k, zeros) := by
  set digits := Nat.toDigits 10 n
  set kept := digits.rdropWhile (· == '0')
  set zeros := digits.rtakeWhile (· == '0')
  have hsplit : kept ++ zeros = digits := List.rdropWhile_append_rtakeWhile
  have hzeros : zeros = List.replicate zeros.length '0' :=
    List.eq_replicate_iff.mpr ⟨rfl, fun c hc =>
      eq_of_beq (List.mem_rtakeWhile_imp (p := (· == '0')) hc)⟩
  -- The digits that are kept, and behind them the zeros, stand for the number.
  have hvalue : n = 10 ^ zeros.length * ofDigitChars 10 kept 0 :=
    calc n = ofDigitChars 10 digits 0 := Nat.ofDigitChars_ten_toDigits.symm
      _ = ofDigitChars 10 (kept ++ List.replicate zeros.length '0') 0 := by rw [← hzeros, hsplit]
      _ = 10 ^ zeros.length * ofDigitChars 10 kept 0 := by
          rw [Nat.ofDigitChars_append, Nat.ofDigitChars_replicate_zero]
  -- The number is not zero, so not all of its digits are zeros.
  have hne : kept ≠ [] := by
    intro hnil
    rw [hnil, Nat.ofDigitChars_nil, Nat.mul_zero] at hvalue
    exact absurd hvalue (Nat.ne_of_gt hn)
  obtain ⟨k, hk, hfront⟩ := exists_toDigits_eq hne hn hsplit.symm
  refine ⟨k, zeros.length, hk, ?_, ?_⟩
  · rw [hvalue, hfront, Nat.ofDigitChars_ten_toDigits, Nat.mul_comm]
  · -- The number of zeros is the number of digits that are gone.
    have hcount : digits.length - kept.length = zeros.length := by
      rw [← hsplit, List.length_append, Nat.add_sub_cancel_left]
    rw [← hfront, ← hcount]
    rfl

end Layout

end Decimal

end DartModels
