import DartModels.Json.Printer
import DartModels.Json.Reader
import Mathlib.Data.Nat.Notation

/-!
# Quoted strings

A string that is printed is read as itself.

The printer escapes as little as it may. Every character it writes is read by
one step of the reader, whether it stands for itself or behind a backslash, and
that is what the induction over the string needs.

## Theorems

* `Json.Reader.stringRest_escape`: One character.
* `Json.Reader.string_quote`: A whole string.
-/

namespace DartModels

namespace Json

namespace Reader

open Printer (hexDigit)

/-- A hexadecimal digit is read as its number. -/
theorem hexValue_hexDigit (n : Nat) : hexValue (hexDigit n) = some (n % 16) := by
  have h : ∀ d < 16, hexValue (Nat.digitChar d) = some d := by decide
  exact h (n % 16) (Nat.mod_lt n (by decide))

/-- It is one byte long. -/
theorem utf8Size_hexDigit (n : Nat) : (hexDigit n).utf8Size = 1 := by
  have h : ∀ d < 16, (Nat.digitChar d).utf8Size = 1 := by decide
  exact h (n % 16) (Nat.mod_lt n (by decide))

/-- A control character without a name is read by its number. -/
theorem escape_number {c : Char} (hc : c.toNat < 0x20) (rest : List Char) :
    escape ('u' :: '0' :: '0' :: hexDigit (c.toNat / 16) :: hexDigit c.toNat :: rest) =
      .ok (c, rest) := by
  have hquad : hexQuad ('0' :: '0' :: hexDigit (c.toNat / 16) :: hexDigit c.toNat :: rest) =
      .ok (c.toNat, rest) := by
    -- The reader wants four bytes, and there are four.
    have hbytes : byteLength (['0', '0', hexDigit (c.toNat / 16), hexDigit c.toNat]) = 4 := by
      simp only [byteLength, List.foldl_cons, List.foldl_nil, utf8Size_hexDigit]
      rfl
    have hzero : hexValue '0' = some 0 := rfl
    unfold hexQuad
    rw [if_neg (by simp only [List.take_succ_cons, List.take_zero, hbytes]; decide)]
    simp only [hzero, hexValue_hexDigit]
    congr 2
    omega
  -- A number this small is no half of a surrogate pair.
  have hlow : ¬ (0xDC00 ≤ c.toNat && c.toNat ≤ 0xDFFF) = true := by
    rw [Bool.and_eq_true, decide_eq_true_eq]
    omega
  have hhigh : ¬ (0xD800 ≤ c.toNat && c.toNat ≤ 0xDBFF) = true := by
    rw [Bool.and_eq_true, decide_eq_true_eq]
    omega
  rw [escape, numberedEscape, hquad]
  simp only [bind, Except.bind]
  rw [if_neg hlow, if_neg hhigh, Char.ofNat_toNat]

/-- What is printed for a character is read as the character. -/
theorem stringRest_escape (fuel : Nat) (taken : List Char) (c : Char) (rest : List Char) :
    stringRest (fuel + 1) taken (Printer.escape c ++ rest) = stringRest fuel (c :: taken) rest := by
  unfold Printer.escape
  split
  -- The characters with a name of their own are read back by computation.
  case h_8 hquote hslash hb hf hn hr ht =>
    split
    next hlow =>
      rw [List.cons_append, stringRest]
      simp only [List.cons_append, List.nil_append, escape_number hlow, bind, Except.bind]
    next hlow =>
      -- A plain character is none at which the reader does something else.
      rw [List.singleton_append, stringRest, if_neg hlow]
      · exact hquote
      · exact hslash
  all_goals rfl

/-- The characters of a string are read one by one, up to the quote behind them. -/
theorem stringRest_flatMap_escape (cs : List Char) {fuel : Nat} (hfuel : cs.length < fuel)
    (taken rest : List Char) :
    stringRest fuel taken (cs.flatMap Printer.escape ++ '"' :: rest) =
      .ok (String.ofList (taken.reverse ++ cs), rest) := by
  -- Each character takes one step of the reader.
  induction cs generalizing fuel taken with
  | nil =>
      cases fuel with
      | zero => exact absurd hfuel (Nat.not_lt_zero _)
      | succ fuel => rw [List.append_nil]; rfl
  | cons c cs ih =>
      cases fuel with
      | zero => exact absurd hfuel (Nat.not_lt_zero _)
      | succ fuel =>
          rw [List.flatMap_cons, List.append_assoc, stringRest_escape,
            ih (Nat.lt_of_succ_lt_succ hfuel), List.reverse_cons, List.append_assoc,
            List.singleton_append]

/-- A character is printed as one at least. -/
theorem length_le_length_flatMap_escape (cs : List Char) :
    cs.length ≤ (cs.flatMap Printer.escape).length := by
  induction cs with
  | nil => exact Nat.le_refl 0
  | cons c cs ih =>
      have hone : 1 ≤ (Printer.escape c).length := by
        unfold Printer.escape
        split
        case h_8 => split <;> exact Nat.le_add_left 1 _
        all_goals exact Nat.le_add_left 1 _
      rw [List.flatMap_cons, List.length_append, List.length_cons]
      omega

/-- A quoted string is read as the string, behind its opening quote. -/
theorem string_quote (s : String) (rest : List Char) :
    string (s.toList.flatMap Printer.escape ++ '"' :: rest) = .ok (s, rest) := by
  have hlength := length_le_length_flatMap_escape s.toList
  rw [string, stringRest_flatMap_escape s.toList _ [] rest, List.reverse_nil, List.nil_append,
    String.ofList_toList]
  rw [List.length_append]
  omega

end Reader

end Json

end DartModels
