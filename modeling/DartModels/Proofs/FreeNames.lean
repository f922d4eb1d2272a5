import DartModels.Identifier
import Mathlib.Data.List.Perm.Subperm
import Mathlib.Data.List.Nodup
import Std.Data.String.ToNat

/-!
# Free names

The search for a name that is not taken finds one whenever there is one.

`firstFree` tries its candidates as it makes them. Put in a row they are a list
without repetitions, since a number can be read back from its digits, and the
search is nothing but a search of that list. Two things follow. A search fails
only when every single candidate is taken, and when the names that are taken are
fewer than the candidates it cannot fail. The field names of a class are found
by a search of the second kind, so they are always different.

## Main definitions

* `candidates`: The names that are tried for a base.

## Theorems

* `firstFree_eq_find?`: The name that is found is the first free candidate.
* `firstFree_eq_none_iff`: There is none only if all candidates are taken.
* `nodup_candidates`: No name is tried twice.
* `exists_firstFree`: With few names taken one is free.
* `nodup_distinctFieldNames`: The fields of a class have different names.
-/

namespace DartModels

namespace Identifier

/-- The names that are tried for a base, in order. -/
def candidates (base : String) (attempts : Nat) : List String :=
  base :: (List.range' 2 (attempts - 1)).map (variant base)

theorem firstFreeFrom_eq_find? (taken : String → Bool) (base : String) (tries n : Nat) :
    firstFreeFrom taken base tries n =
      ((List.range' n tries).map (variant base)).find? fun name => !taken name := by
  induction tries generalizing n with
  | zero => rfl
  | succ k ih =>
      rw [firstFreeFrom, List.range'_succ, List.map_cons, List.find?_cons, ih]
      cases taken (variant base n) <;> rfl

/-- The name that is chosen is the first candidate that is not taken. -/
theorem firstFree_eq_find? (taken : String → Bool) (base : String) (attempts : Nat) :
    firstFree taken base attempts =
      (candidates base attempts).find? fun name => !taken name := by
  rw [firstFree, candidates, List.find?_cons, firstFreeFrom_eq_find?]
  cases taken base <;> rfl

/-- No name is free exactly if every candidate is taken. -/
theorem firstFree_eq_none_iff {taken : String → Bool} {base : String} {attempts : Nat} :
    firstFree taken base attempts = none ↔
      ∀ name ∈ candidates base attempts, taken name = true := by
  simp only [firstFree_eq_find?, List.find?_eq_none, Bool.not_eq_true', Bool.not_eq_false]

theorem variant_inj {base : String} {m n : Nat} (h : variant base m = variant base n) :
    m = n := by
  have hdigits : toString m = toString n := (String.append_right_inj base).mp h
  exact Nat.repr_inj.mp hdigits

/-- No variant is the base itself. -/
theorem ne_variant (base : String) (n : Nat) : base ≠ variant base n := by
  intro h
  -- A variant ends in at least one digit more than the base.
  have hlength := congrArg String.length h
  rw [variant, String.length_append] at hlength
  have hpos : 0 < (toString n).length := Nat.length_repr_pos
  omega

/-- No candidate is tried twice, so that as many names have to be taken as there are
    candidates before the search fails. -/
theorem nodup_candidates (base : String) (attempts : Nat) :
    (candidates base attempts).Nodup := by
  refine List.nodup_cons.mpr ⟨?_, ?_⟩
  · intro hmem
    rcases List.mem_map.mp hmem with ⟨n, _, hn⟩
    exact ne_variant base n hn.symm
  · exact (List.nodup_range' 1).map fun _ _ => variant_inj

theorem length_candidates (base : String) (attempts : Nat) :
    (candidates base (attempts + 1)).length = attempts + 1 := by
  simp only [candidates, List.length_cons, List.length_map, List.length_range',
    Nat.add_sub_cancel]

/-- Of more candidates than there are names taken, one is free. -/
theorem exists_firstFree (taken : List String) (base : String) :
    ∃ name, firstFree taken.contains base (taken.length + 1) = some name ∧ name ∉ taken := by
  cases hfree : firstFree taken.contains base (taken.length + 1) with
  | some name =>
      refine ⟨name, rfl, fun hmem => ?_⟩
      have hnot := firstFree_not_taken hfree
      rw [List.contains_iff_mem.mpr hmem] at hnot
      exact Bool.noConfusion hnot
  | none =>
      -- All candidates would be taken, but they are different, and there are too many of
      -- them.
      have hall : candidates base (taken.length + 1) ⊆ taken := fun name hname =>
        List.contains_iff_mem.mp (firstFree_eq_none_iff.mp hfree name hname)
      have hle := (List.subperm_of_subset (nodup_candidates base _) hall).length_le
      rw [length_candidates] at hle
      exact absurd hle (Nat.not_succ_le_self _)

/-- The names are chosen one by one, each avoiding those before it. What is proved along
    with this is that none of them was taken from the start, or the induction would not
    know it of the name in front. -/
theorem nodup_distinctFrom (taken keys : List String) :
    (distinctFrom taken keys).Nodup ∧ ∀ name ∈ distinctFrom taken keys, name ∉ taken := by
  induction keys generalizing taken with
  | nil => exact ⟨List.nodup_nil, fun _ h => absurd h List.not_mem_nil⟩
  | cons key rest ih =>
      rcases exists_firstFree taken (fieldName key) with ⟨name, hname, hnot⟩
      rcases ih (name :: taken) with ⟨hnodup, hfresh⟩
      rw [distinctFrom, hname, Option.getD_some]
      refine ⟨List.nodup_cons.mpr ⟨fun hmem => ?_, hnodup⟩, fun other hother => ?_⟩
      · exact hfresh name hmem List.mem_cons_self
      · rcases List.mem_cons.mp hother with rfl | hother
        · exact hnot
        · exact fun hmem => hfresh other hother (List.mem_cons_of_mem name hmem)

theorem nodup_distinctFieldNames (keys : List String) : (distinctFieldNames keys).Nodup :=
  (nodup_distinctFrom [] keys).1

end Identifier

end DartModels
