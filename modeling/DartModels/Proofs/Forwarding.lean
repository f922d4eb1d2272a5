import DartModels.Proofs.Entries
import Mathlib.Logic.Relation

/-!
# Forwarding

Where the chains of pointers in a class table end.

That a chain ends is not visible from its entries. Numbers go down along most
pointers but up along one that leads to the pinned class, so they are no
measure. What is bounded is the length: each redirection adds a link to some
chains and takes one class away from the live ones. `Linked` keeps the two in
balance, and that also is why `resolve` may stop after as many steps as the
table has entries.

The rest of the development only ever asks where a number resolves to.
`resolve_redirect` answers that for the one change that moves pointers,
`resolve_push` for a new entry, and `Rewrites.resolve` for everything else.

## Main definitions

* `Linked`: Every chain of pointers ends at a live class in time.

## Theorems

* `follow_add`: A chain that has come to a live class stays there.
* `Linked.find?`: Every number that was given out stands for a class.
* `resolve_redirect`: Who was led to the class that gave way is led on.
* `resolve_push`: A new class leads nobody elsewhere.
* `Linked.redirect`, `Linked.push`, `Rewrites.linked`: Chains keep ending.
-/

namespace DartModels

namespace ClassTable

variable {t t' : ClassTable} {i j id source target : ClassId} {c : ClassDef}

/-- Every number that was given out leads to a live class, over at most as many
    pointers as classes have given way. -/
def Linked (t : ClassTable) : Prop :=
  ∀ i < t.entries.size, ∃ n c, n + t.size ≤ t.entries.size ∧
    t.at? (follow t.entries n i) = some c

/-- A number has a class, or a pointer, or was never given out. -/
theorem entry_cases (t : ClassTable) (i : ClassId) :
    (∃ c, t.at? i = some c) ∨ (∃ j, t.PointsTo i j) ∨ t.entries[i]? = none := by
  unfold PointsTo at?
  rcases t.entries[i]? with _ | ⟨c⟩ | ⟨into⟩
  · exact Or.inr (Or.inr rfl)
  · exact Or.inl ⟨c, rfl⟩
  · exact Or.inr (Or.inl ⟨into, rfl⟩)

@[simp]
theorem follow_zero (entries : Array Entry) (i : ClassId) : follow entries 0 i = i := rfl

theorem follow_succ_of_pointsTo (h : t.PointsTo i j) (n : Nat) :
    follow t.entries (n + 1) i = follow t.entries n j := by
  rw [PointsTo] at h
  simp only [follow, h]

theorem follow_of_not_pointsTo (h : ∀ j, ¬ t.PointsTo i j) (n : Nat) :
    follow t.entries n i = i := by
  cases n with
  | zero => rfl
  | succ n =>
      rcases he : t.entries[i]? with _ | ⟨c⟩ | ⟨into⟩
      · simp only [follow, he]
      · simp only [follow, he]
      · exact absurd he (h into)

theorem follow_of_at? (h : t.at? i = some c) (n : Nat) : follow t.entries n i = i :=
  follow_of_not_pointsTo (fun _ => not_pointsTo_of_at? h) n

/-- A chain that has come to a live class stays there. -/
theorem follow_add {n : Nat} (h : t.at? (follow t.entries n i) = some c) (k : Nat) :
    follow t.entries (n + k) i = follow t.entries n i := by
  induction n generalizing i with
  | zero =>
      rw [follow_zero] at h ⊢
      rw [Nat.zero_add, follow_of_at? h k]
  | succ n ih =>
      rw [Nat.add_right_comm]
      by_cases hp : ∃ j, t.PointsTo i j
      · rcases hp with ⟨j, hp⟩
        rw [follow_succ_of_pointsTo hp] at h ⊢
        rw [follow_succ_of_pointsTo hp]
        exact ih h
      · have hnot : ∀ j, ¬ t.PointsTo i j := fun j hj => hp ⟨j, hj⟩
        rw [follow_of_not_pointsTo hnot, follow_of_not_pointsTo hnot]

/-- Following a chain is a walk along its pointers. -/
theorem reflTransGen_follow (t : ClassTable) (n : Nat) (i : ClassId) :
    Relation.ReflTransGen t.PointsTo i (follow t.entries n i) := by
  induction n generalizing i with
  | zero => exact Relation.ReflTransGen.refl
  | succ n ih =>
      by_cases hp : ∃ j, t.PointsTo i j
      · rcases hp with ⟨j, hj⟩
        rw [follow_succ_of_pointsTo hj]
        exact Relation.ReflTransGen.head hj (ih j)
      · rw [follow_of_not_pointsTo fun j hj => hp ⟨j, hj⟩]

/-- Where a chain has come to a live class, that is what the number stands for. The
    count of steps need only be within the number of entries. -/
theorem resolve_eq_follow {n : Nat} (h : t.at? (follow t.entries n i) = some c)
    (hn : n ≤ t.entries.size) : t.resolve i = follow t.entries n i := by
  -- The steps that are left when the chain has ended change nothing.
  rw [resolve, show t.entries.size = n + (t.entries.size - n) by omega, follow_add h]

/-- A class that gave way stands for what its pointer stands for. -/
theorem Linked.resolve_of_pointsTo (h : t.Linked) (hp : t.PointsTo i j) :
    t.resolve i = t.resolve j := by
  rcases Array.getElem?_eq_some_iff.mp hp with ⟨hi, _⟩
  rcases h i hi with ⟨n, c, hn, hc⟩
  cases n with
  | zero =>
      rw [follow_zero] at hc
      -- A chain without links ends where it begins, but there is a pointer.
      exact absurd hp (not_pointsTo_of_at? hc)
  | succ n =>
      rw [resolve_eq_follow hc (by omega)]
      rw [follow_succ_of_pointsTo hp] at hc ⊢
      exact (resolve_eq_follow hc (by omega)).symm

/-- Every number that was given out stands for a class, for good. This is why no
    operation has to say what it does with a stale number. -/
theorem Linked.find? (h : t.Linked) (hi : i < t.entries.size) : ∃ c, t.find? i = some c := by
  rcases h i hi with ⟨n, c, hn, hc⟩
  refine ⟨c, ?_⟩
  rw [find?_eq_at?, resolve_eq_follow hc (by omega)]
  exact hc

theorem Linked.resolve_lt (h : t.Linked) (hi : i < t.entries.size) :
    t.resolve i < t.entries.size := by
  rcases h.find? hi with ⟨c, hc⟩
  exact lt_of_at? hc

theorem Linked.resolve_resolve (h : t.Linked) (hi : i < t.entries.size) :
    t.resolve (t.resolve i) = t.resolve i := by
  rcases h.find? hi with ⟨c, hc⟩
  exact resolve_of_at? hc

/-- A number that was not given out leads nowhere. -/
theorem resolve_of_size_le (h : t.entries.size ≤ i) : t.resolve i = i := by
  have hnone : t.entries[i]? = none := Array.getElem?_eq_none h
  exact follow_of_not_pointsTo (fun j hj => by simp [PointsTo, hnone] at hj) _

/-- The number of a class stands for itself, whether or not it was given out. -/
theorem Linked.resolve_idem (h : t.Linked) (i : ClassId) :
    t.resolve (t.resolve i) = t.resolve i := by
  by_cases hi : i < t.entries.size
  · exact h.resolve_resolve hi
  · rw [resolve_of_size_le (Nat.le_of_not_lt hi), resolve_of_size_le (Nat.le_of_not_lt hi)]

/-- Only numbers that were given out lead where such a number leads. -/
theorem Linked.lt_of_resolve_eq (h : t.Linked) (hj : j < t.entries.size)
    (he : t.resolve i = t.resolve j) : i < t.entries.size := by
  by_contra hi
  have hlt := h.resolve_lt hj
  rw [← he, resolve_of_size_le (Nat.le_of_not_lt hi)] at hlt
  exact hi hlt

/-- Chains depend on nothing but the pointers. -/
theorem follow_congr (hp : ∀ i j, t'.PointsTo i j ↔ t.PointsTo i j) (n : Nat) (i : ClassId) :
    follow t'.entries n i = follow t.entries n i := by
  induction n generalizing i with
  | zero => rfl
  | succ n ih =>
      by_cases h : ∃ j, t.PointsTo i j
      · rcases h with ⟨j, hj⟩
        rw [follow_succ_of_pointsTo hj, follow_succ_of_pointsTo ((hp i j).mpr hj), ih]
      · have hnot : ∀ j, ¬ t.PointsTo i j := fun j hj => h ⟨j, hj⟩
        rw [follow_of_not_pointsTo hnot,
          follow_of_not_pointsTo fun j hj => hnot j ((hp i j).mp hj)]

theorem resolve_congr (hsize : t'.entries.size = t.entries.size)
    (hp : ∀ i j, t'.PointsTo i j ↔ t.PointsTo i j) (i : ClassId) :
    t'.resolve i = t.resolve i := by
  rw [resolve, resolve, hsize, follow_congr hp]

/-- Whatever happens to classes where they stand, no number leads elsewhere. -/
theorem Rewrites.resolve {f : ClassId → ClassDef → ClassDef} (h : Rewrites f t t')
    (i : ClassId) : t'.resolve i = t.resolve i :=
  resolve_congr h.entries_size h.pointsTo_iff i

theorem Rewrites.linked {f : ClassId → ClassDef → ClassDef} (h : Rewrites f t t')
    (hl : t.Linked) : t'.Linked := by
  intro i hi
  rcases hl i (h.entries_size ▸ hi) with ⟨n, c, hn, hc⟩
  refine ⟨n, f (follow t.entries n i) c, by rw [h.entries_size, h.size]; exact hn, ?_⟩
  rw [follow_congr h.pointsTo_iff, h.at?_eq, hc, Option.map_some]

/-- A redirected chain goes one step further if it ended at the class that gave
    way, and ends where it ended before otherwise. -/
theorem follow_redirect {cs ct : ClassDef} (hs : t.at? source = some cs)
    (ht : t.at? target = some ct) (hne : source ≠ target) {n : Nat}
    (h : t.at? (follow t.entries n i) = some c) :
    follow (t.redirect source target).entries (n + 1) i =
      if follow t.entries n i = source then target else follow t.entries n i := by
  have htarget : (t.redirect source target).at? target = some ct := by
    rw [at?_redirect, if_neg hne.symm, ht]
  have hsource : (t.redirect source target).PointsTo source target := by
    rw [pointsTo_redirect hs, if_pos rfl]
  -- The length of the chain is that up to where it ended before, so the induction
  -- takes its first link off and meets the redirected entry only at the end.
  induction n generalizing i with
  | zero =>
      rw [follow_zero] at h ⊢
      by_cases hi : i = source
      · subst hi
        rw [if_pos rfl, follow_succ_of_pointsTo hsource, follow_zero]
      · rw [if_neg hi]
        exact follow_of_at? (by rw [at?_redirect, if_neg hi, h]) 1
  | succ n ih =>
      by_cases hp : ∃ j, t.PointsTo i j
      · rcases hp with ⟨j, hj⟩
        -- The class that gives way is live, so no pointer leads on from it and this link is
        -- not the one that is redirected.
        have hi : i ≠ source := fun hi => not_pointsTo_of_at? hs (hi ▸ hj)
        have hj' : (t.redirect source target).PointsTo i j := by
          rw [pointsTo_redirect hs, if_neg hi]
          exact hj
        rw [follow_succ_of_pointsTo hj] at h ⊢
        rw [follow_succ_of_pointsTo hj']
        exact ih h
      · have hnot : ∀ j, ¬ t.PointsTo i j := fun j hj => hp ⟨j, hj⟩
        rw [follow_of_not_pointsTo hnot] at h ⊢
        by_cases hi : i = source
        · subst hi
          rw [if_pos rfl, follow_succ_of_pointsTo hsource, follow_of_at? htarget]
        · rw [if_neg hi]
          exact follow_of_at? (by rw [at?_redirect, if_neg hi, h]) _

/-- Whoever was led to the class that gave way is led to the one it gave way to, and
    nobody else is led elsewhere. -/
theorem resolve_redirect (hl : t.Linked) {cs ct : ClassDef} (hs : t.at? source = some cs)
    (ht : t.at? target = some ct) (hne : source ≠ target) (hi : i < t.entries.size) :
    (t.redirect source target).resolve i =
      if t.resolve i = source then target else t.resolve i := by
  rcases hl i hi with ⟨n, c, hn, hc⟩
  -- A class gives way, so the chain has room for one link more.
  have hpos : 0 < t.size := by
    have := size_redirect hs target
    omega
  rw [resolve_eq_follow hc (by omega), ← follow_redirect hs ht hne hc]
  have hend : ∃ c', (t.redirect source target).at?
      (follow (t.redirect source target).entries (n + 1) i) = some c' := by
    rw [follow_redirect hs ht hne hc]
    by_cases hf : follow t.entries n i = source
    · exact ⟨ct, by rw [if_pos hf, at?_redirect, if_neg hne.symm, ht]⟩
    · exact ⟨c, by rw [if_neg hf, at?_redirect, if_neg hf, hc]⟩
  rcases hend with ⟨c', hc'⟩
  exact resolve_eq_follow hc' (by rw [entries_size_redirect]; omega)

/-- A redirection makes chains longer, but there is one live class less to make up for
    it. -/
theorem Linked.redirect (h : t.Linked) {cs ct : ClassDef} (hs : t.at? source = some cs)
    (ht : t.at? target = some ct) (hne : source ≠ target) :
    (t.redirect source target).Linked := by
  intro i hi
  rw [entries_size_redirect] at hi
  rcases h i hi with ⟨n, c, hn, hc⟩
  have hsize := size_redirect hs target
  -- The chain is one link longer at most, and one class less is live.
  have hroom : n + 1 + (t.redirect source target).size ≤
      (t.redirect source target).entries.size := by
    rw [entries_size_redirect]
    omega
  by_cases hf : follow t.entries n i = source
  · exact ⟨n + 1, ct, hroom, by
      rw [follow_redirect hs ht hne hc, if_pos hf, at?_redirect, if_neg hne.symm, ht]⟩
  · exact ⟨n + 1, c, hroom, by
      rw [follow_redirect hs ht hne hc, if_neg hf, at?_redirect, if_neg hf, hc]⟩

/-- Chains that end inside the table are not touched by an entry behind it. -/
theorem follow_push (name : String) (fields : List Field) {n : Nat}
    (h : t.at? (follow t.entries n i) = some c) :
    follow (t.push name fields).2.entries n i = follow t.entries n i := by
  induction n generalizing i with
  | zero => rfl
  | succ n ih =>
      rcases entry_cases t i with ⟨c', hc'⟩ | ⟨j, hj⟩ | hnone
      · have hne : i ≠ t.entries.size := Nat.ne_of_lt (lt_of_at? hc')
        have hpush : (t.push name fields).2.at? i = some c' := by
          rw [at?_push, if_neg hne, hc']
        rw [follow_of_at? hc', follow_of_at? hpush]
      · have hlt : i < t.entries.size := (Array.getElem?_eq_some_iff.mp hj).1
        rw [follow_succ_of_pointsTo hj] at h ⊢
        rw [follow_succ_of_pointsTo ((pointsTo_push_of_lt t name fields hlt).mpr hj)]
        exact ih h
      · -- Beyond the table there is no live class for a chain to end at.
        have hnot : ∀ j, ¬ t.PointsTo i j := fun j hj => by
          rw [PointsTo, hnone] at hj
          exact absurd hj (by simp only [reduceCtorEq, not_false_eq_true])
        rw [follow_of_not_pointsTo hnot, at?, hnone] at h
        exact absurd h (by simp only [Option.bind_none, reduceCtorEq, not_false_eq_true])

/-- A new class takes nobody over who was led to another. -/
theorem resolve_push (hl : t.Linked) (name : String) (fields : List Field)
    (hi : i < t.entries.size) : (t.push name fields).2.resolve i = t.resolve i := by
  rcases hl i hi with ⟨n, c, hn, hc⟩
  have hfollow := follow_push name fields hc
  have hne : follow t.entries n i ≠ t.entries.size := Nat.ne_of_lt (lt_of_at? hc)
  rw [resolve_eq_follow hc (by omega), ← hfollow]
  refine resolve_eq_follow (c := c) ?_ (by rw [entries_size_push]; omega)
  rw [hfollow, at?_push, if_neg hne, hc]

/-- A new entry is live, so it is the end of a chain of its own. -/
theorem Linked.push (h : t.Linked) (name : String) (fields : List Field) :
    (t.push name fields).2.Linked := by
  intro i hi
  rw [entries_size_push] at hi ⊢
  rw [size_push]
  by_cases hlast : i = t.entries.size
  -- The new class stands for itself.
  · have hle := size_le t
    exact ⟨0, ⟨t.entries.size, name, fields⟩, by omega, by rw [follow_zero, at?_push, if_pos hlast]⟩
  · rcases h i (by omega) with ⟨n, c, hn, hc⟩
    have hne : follow t.entries n i ≠ t.entries.size := Nat.ne_of_lt (lt_of_at? hc)
    exact ⟨n, c, by omega, by rw [follow_push name fields hc, at?_push, if_neg hne, hc]⟩

end ClassTable

end DartModels
