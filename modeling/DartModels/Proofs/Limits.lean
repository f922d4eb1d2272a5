import DartModels.Proofs.Reading
import DartModels.Proofs.Scaling

/-!
# The limits of documents

What a document cannot hold, however it is spelled.

A text can nest containers as deep as it likes and spell numbers of any size.
A document cannot: the reader gives up where too many containers are open, an
integer beyond 64 bits becomes a double, and a double is never infinite. So a
document that was read can be written and read again without any of the three
limits being met.

## Main definitions

* `Json.Number.WithinLimits`: A number as the reader makes them.
* `Json.WithinLimits`: A document that opens so many containers at most.

## Theorems

* `Json.Reader.number_withinLimits`: A number that was read.
* `Json.withinLimits_of_read`: A document that was read.
-/

namespace DartModels

open Decimal

namespace Json

/-- An integer of 64 bits with or without a sign, or a finite double. -/
def Number.WithinLimits : Number → Prop
  | .integer n => -2 ^ 63 ≤ n ∧ n < 2 ^ 64
  | .double f => ∃ negative x, Holds negative f x

mutual

/-- A document that opens `room` containers at most, with numbers as the reader
    makes them. -/
def WithinLimits (room : Nat) : Json → Prop
  | .number n => n.WithinLimits
  | .array items => 0 < room ∧ ItemsWithinLimits (room - 1) items
  | .object members => 0 < room ∧ MembersWithinLimits (room - 1) members
  | _ => True

/-- Such documents as the items of an array. -/
def ItemsWithinLimits (room : Nat) : List Json → Prop
  | [] => True
  | v :: rest => WithinLimits room v ∧ ItemsWithinLimits room rest

/-- Such documents as the members of an object. -/
def MembersWithinLimits (room : Nat) : List (String × Json) → Prop
  | [] => True
  | (_, v) :: rest => WithinLimits room v ∧ MembersWithinLimits room rest

end

/-- The items keep the limits one by one. -/
theorem itemsWithinLimits_iff {room : Nat} {items : List Json} :
    ItemsWithinLimits room items ↔ ∀ v ∈ items, v.WithinLimits room := by
  induction items with
  | nil => simp only [ItemsWithinLimits, List.not_mem_nil, false_implies, implies_true]
  | cons v rest ih => simp only [ItemsWithinLimits, ih, List.forall_mem_cons]

/-- A member that keeps the limits may be put among others, in the place of one or
    behind them. -/
theorem membersWithinLimits_insertMember {room : Nat} {members : List (String × Json)}
    (h : MembersWithinLimits room members) (key : String) {v : Json} (hv : v.WithinLimits room) :
    MembersWithinLimits room (insertMember members key v) := by
  induction members with
  | nil => exact ⟨hv, trivial⟩
  | cons m rest ih =>
      rcases m with ⟨k, u⟩
      rw [insertMember]
      split
      · exact ⟨hv, h.2⟩
      · exact ⟨h.1, ih h.2⟩

namespace Reader

variable {negative down : Bool} {m : Nat} {e : Int} {s : List Char} {r : Taken Number}

/-! ### Numbers -/

/-- What scaling comes to is a double or an error. -/
theorem finish_withinLimits (h : finish negative m e s = .ok r) : r.1.WithinLimits := by
  unfold finish at h
  split at h
  next hg =>
    cases h
    exact ⟨negative, exists_holds_of_ofSignificand hg⟩
  next => cases h

/-- A zero that an exponent takes out of range. -/
theorem holds_zero (negative : Bool) :
    ∃ sign x, Holds sign (if negative then -0.0 else 0.0) x := by
  have h : (Binary.ofFloat? (if negative then -0.0 else 0.0)).isSome = true := by
    cases negative <;> decide +kernel
  obtain ⟨b, hb⟩ := Option.isSome_iff_exists.mp h
  exact ⟨_, _, b, hb, rfl, rfl⟩

/-- With an exponent a number is scaled, or it is zero. -/
theorem exponentDigits_withinLimits {acc : Nat}
    (h : exponentDigits negative down m e acc s = .ok r) : r.1.WithinLimits := by
  induction s generalizing acc with
  | nil =>
      rw [exponentDigits] at h
      exact finish_withinLimits h
  | cons c rest ih =>
      rw [exponentDigits] at h
      split at h
      · dsimp only at h
        split at h
        · exact ih h
        -- An exponent that is too great is an error, unless the number is zero by it.
        · split at h
          · cases h
          · cases h
            exact holds_zero negative
      · exact finish_withinLimits h

/-- An exponent needs a digit. -/
theorem exponentValue_withinLimits (h : exponentValue negative down m e s = .ok r) :
    r.1.WithinLimits := by
  cases s with
  | nil => cases h
  | cons c rest =>
      rw [exponentValue] at h
      split at h
      · exact exponentDigits_withinLimits h
      · cases h

/-- It may have a sign. -/
theorem exponent_withinLimits (h : exponent negative m e s = .ok r) : r.1.WithinLimits := by
  unfold exponent at h
  split at h <;> exact exponentValue_withinLimits h

/-- It may be missing, and then the number is scaled as it is. -/
theorem exponentPart_withinLimits (h : exponentPart negative m e s = .ok r) :
    r.1.WithinLimits := by
  unfold exponentPart at h
  split at h
  · exact exponent_withinLimits h
  · exact exponent_withinLimits h
  · exact finish_withinLimits h

/-- With a fraction a number is a double. -/
theorem fraction_withinLimits (h : fraction negative m e s = .ok r) : r.1.WithinLimits := by
  unfold fraction at h
  dsimp only at h
  split_ifs at h
  · cases h
  · cases h
  · exact exponentPart_withinLimits h

/-- An integer whose digits fit has 64 bits with its sign, or becomes a double. -/
theorem signed_withinLimits (negative : Bool) (hm : m ≤ maxSignificand) :
    (signed negative m).WithinLimits := by
  have hmax : maxSignificand = 2 ^ 64 - 1 := rfl
  unfold signed
  split_ifs with hsign hrange
  · exact ⟨by omega, by omega⟩
  · rw [Bool.and_eq_true, decide_eq_true_eq, decide_eq_true_eq] at hrange
    have hlow : m ≤ 2 ^ 63 := hrange.2
    exact ⟨by omega, by omega⟩
  -- Below the signed range an integer becomes a double.
  · obtain ⟨x, hx, -⟩ := exists_holds_toFloat m.toUInt64
    exact ⟨true, x, hx.neg⟩

/-- What follows the integer part decides whether the number is a double. -/
theorem afterInteger_withinLimits {dropped : Nat} (hm : m ≤ maxSignificand)
    (h : afterInteger negative m dropped s = .ok r) : r.1.WithinLimits := by
  unfold afterInteger at h
  split at h
  · exact fraction_withinLimits h
  · exact exponent_withinLimits h
  · exact exponent_withinLimits h
  · split at h
    · cases h
      -- An integer only if no digit was left out.
      exact signed_withinLimits negative hm
    · exact finish_withinLimits h

/-- The digits that are gathered fit. -/
theorem gather_le (hm : m ≤ maxSignificand) : (gather m s).1 ≤ maxSignificand := by
  induction s generalizing m with
  | nil => exact hm
  | cons c rest ih =>
      rw [gather]
      dsimp only
      split
      next hfit => exact ih hfit
      next => exact hm

/-- So a number that was read is within the limits. -/
theorem number_withinLimits (h : number negative s = .ok r) : r.1.WithinLimits := by
  have hzero : 0 ≤ maxSignificand := Nat.zero_le maxSignificand
  unfold number at h
  split at h
  · cases h
  · split at h
    · split at h
      · cases h
      · exact afterInteger_withinLimits hzero h
    · exact afterInteger_withinLimits hzero h
  · split at h
    · dsimp only at h
      exact afterInteger_withinLimits (gather_le hzero) h
    · cases h

end Reader

/-! ### Documents -/

/-- The reader keeps its limits: it leaves one container less for what is inside one. -/
theorem kept_withinLimits :
    Reader.Kept WithinLimits ItemsWithinLimits MembersWithinLimits where
  null _ := trivial
  bool _ _ := trivial
  string _ _ := trivial
  number h := Reader.number_withinLimits h
  nil_items _ := trivial
  cons_items hv ht := ⟨hv, ht⟩
  array {_ taken} ht := by
    rw [itemsWithinLimits_iff] at ht
    exact ⟨Nat.succ_pos _, itemsWithinLimits_iff.mpr fun v hv => ht v (List.mem_reverse.mp hv)⟩
  nil_members _ := trivial
  insert_members key hv ht := membersWithinLimits_insertMember ht key hv
  object ht := ⟨Nat.succ_pos _, ht⟩

/-- A document that was read keeps within the limits of the reader. -/
theorem withinLimits_of_read {text : String} {v : Json} (h : read text = .ok v) :
    v.WithinLimits Reader.maxOpen :=
  kept_withinLimits.of_read h

end Json

end DartModels
