import DartModels.Identifier
import Mathlib

/-!
# Names of types

Every key makes a class name of the customary form: a capital, and behind it
letters and digits only.

Three things go into a name. The words of the key are capitalized and run
together, so the first character is a capital unless the key begins with a
digit. A digit is then kept off by a letter before it. If the name is taken a
number is put at its end, which adds digits only. Capitals are ASCII capitals
throughout, because everything that is not an ASCII letter or digit separates
words and is gone by then.

What is used about the case of ASCII letters is in Batteries and not in any one
module of Mathlib, so Mathlib is imported as a whole.

## Main definitions

* `Identifier.IsTypeName`: A capital, and behind it letters and digits.

## Theorems

* `Identifier.isTypeName_typeName`: Keys make well-formed names.
* `Identifier.isTypeName_firstFree`: So do their numbered variants.
-/

namespace DartModels

namespace Identifier

/-- A name in upper camel case: a capital, and behind it letters and digits. -/
def IsTypeName (name : String) : Prop :=
  ∃ c rest, name.toList = c :: rest ∧ c.isUpper = true ∧ ∀ d ∈ rest, d.isAlphanum = true

theorem isTypeName_root : IsTypeName "Root" :=
  ⟨'R', ['o', 'o', 't'], rfl, rfl, List.all_eq_true.mp rfl⟩

theorem isAlphanum_toLower {c : Char} (h : c.isAlphanum = true) : c.toLower.isAlphanum = true := by
  rw [Char.isAlphanum, Bool.or_eq_true] at h ⊢
  rcases h with ha | hd
  · exact Or.inl ((Char.isAlpha_toLower_eq_isAlpha c).trans ha)
  · by_cases hu : c.isUpper = true
    · rw [Char.isAlpha_toLower_eq_isAlpha, Char.isAlpha, hu]
      exact Or.inl rfl
    · rw [Char.toLower_eq_of_not_isUpper hu]
      exact Or.inr hd

theorem isUpper_or_isDigit_toUpper {c : Char} (h : c.isAlphanum = true) :
    c.toUpper.isUpper = true ∨ c.toUpper.isDigit = true := by
  rw [Char.isUpper_toUpper_eq_isAlpha]
  by_cases hl : c.isLower = true
  · rw [Char.isAlpha, hl, Bool.or_true]
    exact Or.inl rfl
  · rw [Char.toUpper_eq_of_not_isLower hl]
    rwa [Char.isAlphanum, Bool.or_eq_true] at h

theorem isAlphanum_of_isUpper_or_isDigit {c : Char} (h : c.isUpper = true ∨ c.isDigit = true) :
    c.isAlphanum = true := by
  rcases h with h | h <;> simp [Char.isAlphanum, Char.isAlpha, h]

/-- Nothing is in a word but letters and digits. -/
theorem isAlphanum_of_mem_split {s w : List Char} (hw : w ∈ Text.Words.split s) {c : Char}
    (hc : c ∈ w) : c.isAlphanum = true := by
  have hmem : c ∈ (Text.Words.split s).flatten := List.mem_flatten.mpr ⟨w, hw, hc⟩
  rw [Text.Words.flatten_split] at hmem
  exact (List.mem_filter.mp hmem).2

theorem isAlphanum_of_mem_words {s : String} {w : List Char} (hw : w ∈ Text.words s) {c : Char}
    (hc : c ∈ w) : c.isAlphanum = true :=
  isAlphanum_of_mem_split hw hc

/-- A word with a leading capital or digit, and nothing odd behind it. -/
theorem capitalize_spec {w : List Char} (hne : w ≠ []) (h : ∀ c ∈ w, c.isAlphanum = true) :
    ∃ c rest, Text.capitalize w = c :: rest ∧ (c.isUpper = true ∨ c.isDigit = true) ∧
      ∀ d ∈ rest, d.isAlphanum = true := by
  cases w with
  | nil => exact absurd rfl hne
  | cons c rest =>
      refine ⟨_, _, rfl, isUpper_or_isDigit_toUpper (h c List.mem_cons_self), ?_⟩
      intro d hd
      rcases List.mem_map.mp hd with ⟨e, he, rfl⟩
      exact isAlphanum_toLower (h e (List.mem_cons_of_mem c he))

/-- Capitalizing the words and running them together adds no other character. -/
theorem isAlphanum_of_mem_upperCamel {ws : List (List Char)} (hne : ∀ w ∈ ws, w ≠ [])
    (h : ∀ w ∈ ws, ∀ c ∈ w, c.isAlphanum = true) {c : Char} (hc : c ∈ upperCamel ws) :
    c.isAlphanum = true := by
  rcases List.mem_flatten.mp hc with ⟨_, hmem, hc⟩
  rcases List.mem_map.mp hmem with ⟨w, hw, rfl⟩
  rcases capitalize_spec (hne w hw) (h w hw) with ⟨d, rest, heq, hd, hrest⟩
  rw [heq] at hc
  rcases List.mem_cons.mp hc with rfl | hc
  · exact isAlphanum_of_isUpper_or_isDigit hd
  · exact hrest c hc

/-- A name that would begin with a digit is given a capital in front. -/
theorem isTypeName_guardDigit {c : Char} {rest : List Char}
    (hc : c.isUpper = true ∨ c.isDigit = true) (hrest : ∀ d ∈ rest, d.isAlphanum = true) :
    IsTypeName (String.ofList (guardDigit 'N' (c :: rest))) := by
  unfold guardDigit
  by_cases hd : c.isDigit = true
  · refine ⟨'N', c :: rest, ?_, rfl, ?_⟩
    · simp [hd]
    · intro d hmem
      rcases List.mem_cons.mp hmem with rfl | hmem
      · exact isAlphanum_of_isUpper_or_isDigit hc
      · exact hrest d hmem
  · exact ⟨c, rest, by simp [hd], hc.resolve_right hd, hrest⟩

/-- Whatever the key, the name made of it is well-formed. -/
theorem isTypeName_typeName (key : String) {fallback : String} (hf : IsTypeName fallback) :
    IsTypeName (typeName key fallback) := by
  unfold typeName
  cases hw : Text.words key with
  | nil =>
      rcases hf with ⟨c, rest, heq, hc, hrest⟩
      -- A key without words gets the fallback, which is well-formed already.
      have hempty : upperCamel [] = [] := rfl
      simp only [hempty, List.isEmpty_nil, if_true, heq]
      exact isTypeName_guardDigit (Or.inl hc) hrest
  | cons w ws =>
      have hne : ∀ u ∈ w :: ws, u ≠ [] := fun u hu => Text.Words.ne_nil_of_mem_split (hw ▸ hu)
      have hal : ∀ u ∈ w :: ws, ∀ c ∈ u, c.isAlphanum = true := fun u hu c hc =>
        isAlphanum_of_mem_words (hw ▸ hu) hc
      rcases capitalize_spec (hne w List.mem_cons_self) (hal w List.mem_cons_self) with
        ⟨c, rest, heq, hc, hrest⟩
      -- The first word gives the first character, or a guard before a digit.
      have hcamel : upperCamel (w :: ws) = c :: (rest ++ upperCamel ws) := by
        simp only [upperCamel, List.map_cons, List.flatten_cons, heq, List.cons_append]
      simp only [hcamel, List.isEmpty_cons, Bool.false_eq_true, if_false]
      refine isTypeName_guardDigit hc fun d hd => ?_
      rcases List.mem_append.mp hd with hd | hd
      · exact hrest d hd
      · exact isAlphanum_of_mem_upperCamel (fun u hu => hne u (List.mem_cons_of_mem w hu))
          (fun u hu => hal u (List.mem_cons_of_mem w hu)) hd

/-- A number behind a name adds digits only. -/
theorem isTypeName_variant {base : String} (h : IsTypeName base) (n : Nat) :
    IsTypeName (variant base n) := by
  rcases h with ⟨c, rest, heq, hc, hrest⟩
  refine ⟨c, rest ++ Nat.toDigits 10 n, ?_, hc, ?_⟩
  · rw [variant, String.toList_append, heq, List.cons_append,
      show toString n = String.ofList (Nat.toDigits 10 n) from
        Nat.toString_eq_ofList_toDigits, String.toList_ofList]
  · intro d hd
    rcases List.mem_append.mp hd with hd | hd
    · exact hrest d hd
    · exact isAlphanum_of_isUpper_or_isDigit
        (Or.inr (Nat.isDigit_of_mem_toDigits (by decide) (by decide) hd))

theorem isTypeName_firstFreeFrom {taken : String → Bool} {base name : String} {tries n : Nat}
    (hb : IsTypeName base) (h : firstFreeFrom taken base tries n = some name) :
    IsTypeName name := by
  induction tries generalizing n with
  | zero => simp [firstFreeFrom] at h
  | succ k ih =>
      simp only [firstFreeFrom] at h
      split at h
      · exact ih h
      · rw [← Option.some.inj h]
        exact isTypeName_variant hb n

/-- Whichever candidate is free, it is as well-formed as the base. -/
theorem isTypeName_firstFree {taken : String → Bool} {base name : String} {attempts : Nat}
    (hb : IsTypeName base) (h : firstFree taken base attempts = some name) : IsTypeName name := by
  unfold firstFree at h
  split at h
  · exact isTypeName_firstFreeFrom hb h
  · rw [← Option.some.inj h]
    exact hb

end Identifier

end DartModels
