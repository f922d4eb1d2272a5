import DartModels.Json.Reader
import DartModels.Proofs.Steps

/-!
# What is read

What holds of every document because of how the reader makes documents.

The reader makes a scalar of a piece of text, takes items and members one by one,
and makes an array or an object of what it has taken. A property of documents
that each of these keeps holds of whatever it reads. The property may depend on
how many more containers may be opened where the document stands.

## Main definitions

* `Json.Reader.Kept`: A property that the reader keeps at each step.

## Theorems

* `Json.Reader.Kept.of_value`: It holds of a value that was read.
* `Json.Reader.Kept.of_read`: It holds of a document that was read.
-/

namespace DartModels

namespace Json

namespace Reader

/-- A property `P` of documents that the reader keeps. `I` and `M` hold of the
    items and the members that it has taken so far. -/
structure Kept (P : Nat → Json → Prop) (I : Nat → List Json → Prop)
    (M : Nat → List (String × Json) → Prop) : Prop where
  null : ∀ room, P room .null
  bool : ∀ room b, P room (.bool b)
  string : ∀ room s, P room (.string s)
  number : ∀ {room negative s r}, Reader.number negative s = .ok r → P room (.number r.1)
  nil_items : ∀ room, I room []
  cons_items : ∀ {room v taken}, P room v → I room taken → I room (v :: taken)
  array : ∀ {room taken}, I room taken → P (room + 1) (.array taken.reverse)
  nil_members : ∀ room, M room []
  insert_members : ∀ {room v taken} key, P room v → M room taken →
    M room (insertMember taken key v)
  object : ∀ {room taken}, M room taken → P (room + 1) (.object taken)

/-- A keyword is read as its value, or not at all. -/
theorem eq_of_keyword {v : Json} {expected s : List Char} {r : Taken Json}
    (h : keyword v expected s = .ok r) : r.1 = v := by
  induction expected generalizing s with
  | nil =>
      rw [keyword] at h
      cases h
      rfl
  | cons e es ih =>
      cases s with
      | nil => cases h
      | cons c rest =>
          rw [keyword] at h
          split at h
          · exact ih h
          · cases h

namespace Kept

variable {P : Nat → Json → Prop} {I : Nat → List Json → Prop}
  {M : Nat → List (String × Json) → Prop} {fuel room : Nat} {s : List Char} {r : Taken Json}

/-- What the reader makes of a text within `fuel` steps has the property, if
    what it has taken so far has. -/
structure Upto (P : Nat → Json → Prop) (I : Nat → List Json → Prop)
    (M : Nat → List (String × Json) → Prop) (fuel : Nat) : Prop where
  of_value : ∀ room s r, value fuel room s = .ok r → P room r.1
  of_items : ∀ room taken s r, I room taken → items fuel room taken s = .ok r → P (room + 1) r.1
  of_members : ∀ room first taken s r, M room taken → members fuel room first taken s = .ok r →
    P (room + 1) r.1

/-- One step further into a value. -/
theorem value_succ (h : Kept P I M) (ih : Upto P I M fuel)
    (hr : value (fuel + 1) room s = .ok r) : P room r.1 := by
  rw [value] at hr
  -- One case for each character that a value can start with.
  split at hr
  · cases hr
  · rw [eq_of_keyword hr]
    exact h.null room
  · rw [eq_of_keyword hr]
    exact h.bool room true
  · rw [eq_of_keyword hr]
    exact h.bool room false
  · -- A string, and then the brackets, which leave less room for what is inside.
    rcases Steps.bind_eq_ok_iff.mp hr with ⟨_, _, hr⟩
    cases hr
    exact h.string room _
  · split at hr
    · cases hr
    · exact ih.of_items _ [] _ r (h.nil_items _) hr
  · split at hr
    · cases hr
    · exact ih.of_members _ _ [] _ r (h.nil_members _) hr
  · rcases Steps.bind_eq_ok_iff.mp hr with ⟨_, hnumber, hr⟩
    cases hr
    exact h.number hnumber
  · split at hr
    · rcases Steps.bind_eq_ok_iff.mp hr with ⟨_, hnumber, hr⟩
      cases hr
      exact h.number hnumber
    · cases hr

/-- One item further. It stands in front of those that were taken, which are turned
    round at the end. -/
theorem items_succ (h : Kept P I M) (ih : Upto P I M fuel) {taken : List Json}
    (ht : I room taken) (hr : items (fuel + 1) room taken s = .ok r) : P (room + 1) r.1 := by
  rw [items] at hr
  rcases Steps.bind_eq_ok_iff.mp hr with ⟨next, _, hr⟩
  cases next with
  | none =>
      cases hr
      exact h.array ht
  | some rest =>
      rcases Steps.bind_eq_ok_iff.mp hr with ⟨⟨v, rest⟩, hv, hr⟩
      exact ih.of_items _ (v :: taken) _ r (h.cons_items (ih.of_value _ _ _ hv) ht) hr

/-- One member further. -/
theorem members_succ (h : Kept P I M) (ih : Upto P I M fuel) {first : Bool}
    {taken : List (String × Json)} (ht : M room taken)
    (hr : members (fuel + 1) room first taken s = .ok r) : P (room + 1) r.1 := by
  rw [members] at hr
  rcases Steps.bind_eq_ok_iff.mp hr with ⟨next, _, hr⟩
  cases next with
  | none =>
      cases hr
      exact h.object ht
  | some rest =>
      rcases Steps.bind_eq_ok_iff.mp hr with ⟨⟨key, rest⟩, _, hr⟩
      rcases Steps.bind_eq_ok_iff.mp hr with ⟨rest, _, hr⟩
      rcases Steps.bind_eq_ok_iff.mp hr with ⟨⟨v, rest⟩, hv, hr⟩
      exact ih.of_members _ _ _ _ r (h.insert_members key (ih.of_value _ _ _ hv) ht) hr

/-- By induction on the fuel the reader keeps the property, in a value and in the row of
    its items or members. -/
theorem upto (h : Kept P I M) (fuel : Nat) : Upto P I M fuel := by
  induction fuel with
  | zero =>
      refine ⟨fun room s r hr => ?_, fun room taken s r _ hr => ?_,
        fun room first taken s r _ hr => ?_⟩
      · rw [value] at hr
        cases hr
      · rw [items] at hr
        cases hr
      · rw [members] at hr
        cases hr
  | succ fuel ih =>
      exact ⟨fun _ _ _ hr => h.value_succ ih hr, fun _ _ _ _ ht hr => h.items_succ ih ht hr,
        fun _ _ _ _ _ ht hr => h.members_succ ih ht hr⟩

/-- The property holds of a value that was read. -/
theorem of_value (h : Kept P I M) (hr : value fuel room s = .ok r) : P room r.1 :=
  (h.upto fuel).of_value room s r hr

/-- The property holds of a document that was read. -/
theorem of_read (h : Kept P I M) {text : String} {v : Json} (hv : read text = .ok v) :
    P maxOpen v := by
  unfold read at hv
  rcases hd : document text.toList with f | w
  · simp only [hd, reduceCtorEq] at hv
  · simp only [hd, Except.ok.injEq] at hv
    subst hv
    rw [document] at hd
    rcases Steps.bind_eq_ok_iff.mp hd with ⟨⟨u, rest⟩, hu, hd⟩
    simp only at hd
    split at hd
    · cases hd
      exact h.of_value hu
    · cases hd

end Kept

end Reader

end Json

end DartModels
