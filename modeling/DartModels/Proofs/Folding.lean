import DartModels.Proofs.WellFormed
import Mathlib.Logic.Function.Iterate

/-!
# Folding

Making equal classes one, round by round.

A round looks for all pairs of equal classes before it makes the first of them
one. By the time a pair has its turn, both of its classes may have given way
already, the later one to another class of the same group and the earlier one
to the pinned class. What the pairs stand for by then is what is made one. Only
at the end of a round are references brought up to date, and since that makes
other classes equal, another round follows.

No property should have to be followed through all this again. So the loop over
the pairs and the loop over the rounds are each gone through once, as principles
of induction. `Foldable` names what a property has to survive if it does not
matter which classes are made one.

Each round with a pair leaves fewer live classes. The bound on the rounds is
therefore never reached: folding ends because there are no equal classes left,
after as many rounds as it takes.

## Main definitions

* `foldRound`: One round.
* `Foldable`: A property that survives the steps of folding.

## Theorems

* `Valid.mem_duplicates`: The pairs are of classes with equal signatures.
* `Valid.foldPairs_induction`: What each pair preserves is preserved by a row of
  pairs.
* `WellFormed.foldDuplicates_eq_iterate`: Folding repeats rounds until there are
  no equal classes.
* `WellFormed.foldDuplicates_induction`: What each round preserves is preserved
  by folding.
* `Foldable.foldDuplicates`: What survives the steps survives folding.
-/

namespace DartModels

namespace ClassTable

variable {t t' : ClassTable} {a b i j id source target : ClassId} {c : ClassDef}

/-! ### Pairs of equal classes -/

/-- A pair is a class and an earlier one of the same signature, in the row or
    among those that were seen before. -/
theorem mem_duplicates {seen : Std.TreeMap String ClassId} {cs : List ClassDef}
    {p : ClassId × ClassId} (h : p ∈ duplicates seen cs) :
    ∃ d ∈ cs, d.id = p.2 ∧ (seen[d.signature]? = some p.1 ∨
      ∃ c, [c, d].Sublist cs ∧ c.id = p.1 ∧ c.signature = d.signature) := by
  induction cs generalizing seen with
  | nil => exact absurd h List.not_mem_nil
  | cons c rest ih =>
      simp only [duplicates] at h
      cases hs : seen[c.signature]? with
      | some first =>
          rw [hs] at h
          -- The class in front makes a pair with the one that was seen, or the pair is
          -- found further on.
          rcases List.mem_cons.mp h with rfl | h
          · exact ⟨c, List.mem_cons_self, rfl, Or.inl hs⟩
          · rcases ih h with ⟨d, hd, hid, hfirst⟩
            exact ⟨d, List.mem_cons_of_mem c hd, hid,
              hfirst.imp_right fun ⟨e, he, heid⟩ => ⟨e, he.cons c, heid⟩⟩
      | none =>
          rw [hs] at h
          rcases ih h with ⟨d, hd, hid, hfirst | ⟨e, he, heid⟩⟩
          · refine ⟨d, List.mem_cons_of_mem c hd, hid, ?_⟩
            -- The class in front was the first with its signature, and is now seen.
            rw [Std.TreeMap.getElem?_insert] at hfirst
            split at hfirst
            · rename_i hsig
              exact Or.inr ⟨c, (List.singleton_sublist.mpr hd).cons_cons c,
                Option.some.inj hfirst, Std.LawfulEqCmp.compare_eq_iff_eq.mp hsig⟩
            · exact Or.inl hfirst
          · exact ⟨d, List.mem_cons_of_mem c hd, hid, Or.inr ⟨e, he.cons c, heid⟩⟩

/-- There is no pair exactly if all signatures are different and new. -/
theorem duplicates_eq_nil_iff {seen : Std.TreeMap String ClassId} {cs : List ClassDef} :
    duplicates seen cs = [] ↔
      (cs.map ClassDef.signature).Nodup ∧ ∀ c ∈ cs, seen[c.signature]? = none := by
  induction cs generalizing seen with
  | nil => simp only [duplicates, List.map_nil, List.nodup_nil, List.not_mem_nil, false_imp_iff,
      implies_true, and_self]
  | cons c rest ih =>
      rw [duplicates, List.map_cons, List.nodup_cons, List.forall_mem_cons]
      cases hs : seen[c.signature]? with
      | some first => simp only [reduceCtorEq, false_and, and_false]
      | none =>
          simp only [ih, Std.TreeMap.getElem?_insert, Std.LawfulEqCmp.compare_eq_iff_eq,
            true_and]
          constructor
          · rintro ⟨hnodup, hseen⟩
            refine ⟨⟨fun hmem => ?_, hnodup⟩, fun d hd => ?_⟩
            · -- A later class with the signature of the first would have been seen by then.
              rcases List.mem_map.mp hmem with ⟨d, hd, hsig⟩
              have hnone := hseen d hd
              rw [if_pos hsig.symm] at hnone
              exact absurd hnone (by simp only [reduceCtorEq, not_false_eq_true])
            · have hnone := hseen d hd
              split at hnone
              · exact absurd hnone (by simp only [reduceCtorEq, not_false_eq_true])
              · exact hnone
          · rintro ⟨⟨hnot, hnodup⟩, hseen⟩
            refine ⟨hnodup, fun d hd => ?_⟩
            rw [if_neg fun hsig => hnot (List.mem_map.mpr ⟨d, hd, Eq.symm hsig⟩)]
            exact hseen d hd

/-- A table has no pair exactly if no two of its classes have the same signature. -/
theorem duplicates_empty_eq_nil_iff :
    duplicates ∅ t.classes = [] ↔ (t.classes.map ClassDef.signature).Nodup := by
  rw [duplicates_eq_nil_iff]
  exact and_iff_left fun _ _ => Std.TreeMap.getElem?_emptyc

/-- The pairs of a table are of two live classes with the same signature, the
    older one first. -/
theorem Valid.mem_duplicates (h : t.Valid) {p : ClassId × ClassId}
    (hp : p ∈ duplicates ∅ t.classes) : ∃ c d, t.at? p.1 = some c ∧ t.at? p.2 = some d ∧
      p.1 < p.2 ∧ c.signature = d.signature := by
  rcases ClassTable.mem_duplicates hp with ⟨d, hd, hid, hfirst | ⟨c, hsub, hcid, hsig⟩⟩
  · exact absurd hfirst (by rw [Std.TreeMap.getElem?_emptyc]; simp only [reduceCtorEq,
      not_false_eq_true])
  · have hc : c ∈ t.classes := hsub.subset List.mem_cons_self
    have hlt : c.id < d.id :=
      (List.pairwise_cons.mp (h.classes_sorted.sublist hsub)).1 d (List.mem_singleton_self d)
    refine ⟨c, d, ?_, ?_, ?_, hsig⟩
    · rw [← hcid, h.at?_id hc]
    · rw [← hid, h.at?_id hd]
    · rwa [← hcid, ← hid]

/-- When a pair has its turn its classes may have become one, and then nothing is done.
    Otherwise what they stand for by now is made one. -/
theorem Valid.foldPair_cases (h : t.Valid) (ha : a < t.entries.size) (hb : b < t.entries.size) :
    t.foldPair a b = t ∧ t.resolve a = t.resolve b ∨
      ∃ stays gives, t.foldPair a b = t.redirect gives stays ∧
        t.GivesWay gives stays ∧ (stays = t.resolve a ∧ gives = t.resolve b ∨
          stays = t.resolve b ∧ gives = t.resolve a) := by
  unfold foldPair
  by_cases hab : t.resolve a = t.resolve b
  · left
    have hpair : t.orderPair (t.resolve b) (t.resolve b) = (t.resolve b, t.resolve b) := by
      rw [orderPair, ite_self]
    rw [hab, hpair]
    exact ⟨if_pos rfl, rfl⟩
  · rcases h.linked.find? ha with ⟨ca, hca⟩
    rcases h.linked.find? hb with ⟨cb, hcb⟩
    rcases orderPair_givesWay hca hcb hab with ⟨stays, gives, hpair, hg, hcase⟩
    rw [hpair]
    exact Or.inr ⟨stays, gives, if_neg hg.ne.symm, hg, hcase⟩

/-- What holds of a table and is preserved when the classes of a pair are made
    one holds when those of all pairs were. -/
theorem Valid.foldPairs_induction {P : ClassTable → Prop} (h : t.Valid) (ht : P t)
    (pairs : List (ClassId × ClassId))
    (hpairs : ∀ p ∈ pairs, p.1 < t.entries.size ∧ p.2 < t.entries.size)
    (step : ∀ t' stays gives, ∀ p ∈ pairs, t'.Valid → P t' → t'.GivesWay gives stays →
      (stays = t'.resolve p.1 ∧ gives = t'.resolve p.2 ∨
        stays = t'.resolve p.2 ∧ gives = t'.resolve p.1) → P (t'.redirect gives stays)) :
    (pairs.foldl (fun t p => t.foldPair p.1 p.2) t).Valid ∧
      P (pairs.foldl (fun t p => t.foldPair p.1 p.2) t) := by
  induction pairs generalizing t with
  | nil => exact ⟨h, ht⟩
  | cons p rest ih =>
      have hrest : ∀ q ∈ rest, q.1 < t.entries.size ∧ q.2 < t.entries.size :=
        fun q hq => hpairs q (List.mem_cons_of_mem p hq)
      have hstep := fun t' stays gives q hq => step t' stays gives q (List.mem_cons_of_mem p hq)
      rcases hpairs p List.mem_cons_self with ⟨ha, hb⟩
      rw [List.foldl_cons]
      rcases h.foldPair_cases ha hb with ⟨heq, _⟩ | ⟨stays, gives, heq, hg, hcase⟩
      · rw [heq]
        exact ih h ht hrest hstep
      -- A class gave way, and the numbers of the pairs to come are still given out.
      · rw [heq]
        refine ih (h.redirect hg) (step t stays gives p List.mem_cons_self h ht hg hcase) ?_ hstep
        rw [entries_size_redirect]
        exact hrest

/-- A property of tables that stays true when a class gives way, and when the
    references are brought up to date after that. -/
structure Foldable (P : ClassTable → Prop) : Prop where
  redirect : ∀ t source target, Valid t → P t → GivesWay t source target →
    P (t.redirect source target)
  settle : ∀ t, Valid t → P t → P t.settle

/-- What survives one redirection survives those of a row of pairs. -/
theorem Foldable.foldPairs {P : ClassTable → Prop} (hP : Foldable P) (h : t.Valid) (ht : P t)
    (pairs : List (ClassId × ClassId))
    (hpairs : ∀ p ∈ pairs, p.1 < t.entries.size ∧ p.2 < t.entries.size) :
    (pairs.foldl (fun t p => t.foldPair p.1 p.2) t).Valid ∧
      P (pairs.foldl (fun t p => t.foldPair p.1 p.2) t) :=
  h.foldPairs_induction ht pairs hpairs fun t' stays gives _ _ hv hp hg _ =>
    hP.redirect t' gives stays hv hp hg

/-! ### Rounds -/

/-- A round: the pairs are found, the classes of each are made one, and then
    references are brought up to date. -/
def foldRound (t : ClassTable) : ClassTable :=
  ((duplicates ∅ t.classes).foldl (fun t p => t.foldPair p.1 p.2) t).settle

/-- One round more, unless there is no pair. -/
theorem foldRounds_succ (rounds : Nat) (t : ClassTable) :
    foldRounds (rounds + 1) t =
      if duplicates ∅ t.classes = [] then t else foldRounds rounds t.foldRound := by
  rw [foldRounds, foldRound]
  split
  · rename_i h
    rw [if_pos h]
  · rename_i h
    rw [if_neg h]

theorem Valid.mem_duplicates_lt (h : t.Valid) :
    ∀ p ∈ duplicates ∅ t.classes, p.1 < t.entries.size ∧ p.2 < t.entries.size := by
  intro p hp
  rcases h.mem_duplicates hp with ⟨c, d, hc, hd, _⟩
  exact ⟨lt_of_at? hc, lt_of_at? hd⟩

/-- What survives the steps survives a round, and the round makes the table well-formed
    again. -/
theorem Foldable.foldRound {P : ClassTable → Prop} (hP : Foldable P) (h : t.WellFormed)
    (ht : P t) : t.foldRound.WellFormed ∧ P t.foldRound := by
  rcases hP.foldPairs h.toValid ht _ h.toValid.mem_duplicates_lt with ⟨hv, hp⟩
  exact ⟨hv.settle, hP.settle _ hv hp⟩

theorem WellFormed.foldRound (h : t.WellFormed) : t.foldRound.WellFormed :=
  (Foldable.foldRound (P := fun _ => True) ⟨fun _ _ _ _ _ _ => trivial, fun _ _ _ => trivial⟩ h
    trivial).1

/-- Folding makes no class live. -/
theorem foldable_size_le (n : Nat) : Foldable fun t => t.size ≤ n where
  redirect t source target _ hn hg := by
    rcases hg.source_live with ⟨c, hc⟩
    have hsize := size_redirect hc target
    omega
  settle t _ hn := (rewrites_settle t).size ▸ hn

/-- If there is a pair, a round leaves fewer live classes. -/
theorem WellFormed.size_foldRound_lt (h : t.WellFormed) (hne : duplicates ∅ t.classes ≠ []) :
    t.foldRound.size < t.size := by
  have hlt := h.toValid.mem_duplicates_lt
  rcases List.exists_cons_of_ne_nil hne with ⟨p, rest, hpairs⟩
  rcases h.toValid.mem_duplicates (hpairs ▸ List.mem_cons_self) with ⟨c, d, hc, hd, hpq, _⟩
  rw [ClassTable.foldRound, hpairs, List.foldl_cons, (rewrites_settle _).size]
  rw [hpairs] at hlt
  rcases hlt p List.mem_cons_self with ⟨ha, hb⟩
  rcases h.toValid.foldPair_cases ha hb with ⟨_, heq⟩ | ⟨stays, gives, heq, hg, _⟩
  -- The classes of the first pair are both live and not the same, so one gives way.
  · rw [resolve_of_at? hc, resolve_of_at? hd] at heq
    exact absurd heq (Nat.ne_of_lt hpq)
  · rcases hg.source_live with ⟨e, he⟩
    have hsize := size_redirect he stays
    -- The pairs behind the first one can only lower the number further.
    have hle := ((foldable_size_le _).foldPairs (h.toValid.redirect hg) (Nat.le_refl _) rest
      fun q hq => by
        rw [entries_size_redirect]
        exact hlt q (List.mem_cons_of_mem p hq)).2
    rw [heq]
    omega

/-- With more rounds to spare than there are live classes the bound is not met: folding
    stops where no pair is left, and each round before that had one. -/
theorem WellFormed.foldRounds_eq_iterate (h : t.WellFormed) {rounds : Nat}
    (hr : t.size < rounds) : ∃ n, foldRounds rounds t = ClassTable.foldRound^[n] t ∧
      (∀ m < n, duplicates ∅ (ClassTable.foldRound^[m] t).classes ≠ []) ∧
      duplicates ∅ (foldRounds rounds t).classes = [] := by
  induction rounds generalizing t with
  | zero => exact absurd hr (Nat.not_lt_zero _)
  | succ rounds ih =>
      rw [foldRounds_succ]
      by_cases hne : duplicates ∅ t.classes = []
      · rw [if_pos hne]
        exact ⟨0, rfl, fun m hm => absurd hm (Nat.not_lt_zero m), hne⟩
      · rw [if_neg hne]
        -- A round with a pair leaves one live class less, so the rounds that are left are
        -- enough for what it leaves.
        have hsize := h.size_foldRound_lt hne
        rcases ih h.foldRound (by omega) with ⟨n, heq, hbefore, hend⟩
        refine ⟨n + 1, heq, fun m hm => ?_, hend⟩
        cases m with
        | zero => exact hne
        | succ m => exact hbefore m (Nat.lt_of_succ_lt_succ hm)

/-- Folding is one round after the other, for as long as there is a pair, and it
    ends when there is none. -/
theorem WellFormed.foldDuplicates_eq_iterate (h : t.WellFormed) :
    ∃ n, t.foldDuplicates = ClassTable.foldRound^[n] t ∧
      (∀ m < n, duplicates ∅ (ClassTable.foldRound^[m] t).classes ≠ []) ∧
      duplicates ∅ t.foldDuplicates.classes = [] :=
  h.foldRounds_eq_iterate (Nat.lt_succ_self _)

/-- Rounds repeated any number of times. -/
theorem WellFormed.iterate_foldRound {P : ClassTable → Prop} (h : t.WellFormed) (ht : P t)
    (step : ∀ t', t'.WellFormed → P t' → P t'.foldRound) (n : Nat) :
    (ClassTable.foldRound^[n] t).WellFormed ∧ P (ClassTable.foldRound^[n] t) := by
  induction n generalizing t with
  | zero => exact ⟨h, ht⟩
  | succ n ih => exact ih h.foldRound (step t h ht)

/-- What holds of a table and is preserved by every round holds when folding
    ends. -/
theorem WellFormed.foldDuplicates_induction {P : ClassTable → Prop} (h : t.WellFormed)
    (ht : P t) (step : ∀ t', t'.WellFormed → P t' → P t'.foldRound) :
    t.foldDuplicates.WellFormed ∧ P t.foldDuplicates := by
  rcases h.foldDuplicates_eq_iterate with ⟨n, heq, _⟩
  rw [heq]
  exact h.iterate_foldRound ht step n

/-- What stays true from one fold to the next is true when folding ends. -/
theorem Foldable.foldDuplicates {P : ClassTable → Prop} (hP : Foldable P) (h : t.WellFormed)
    (ht : P t) : t.foldDuplicates.WellFormed ∧ P t.foldDuplicates :=
  h.foldDuplicates_induction ht fun _ hw hp => (hP.foldRound hw hp).2

/-- A table without equal classes is left as it is. -/
theorem foldDuplicates_of_duplicates_eq_nil (h : duplicates ∅ t.classes = []) :
    t.foldDuplicates = t := by
  rw [ClassTable.foldDuplicates, foldRounds_succ, if_pos h]

end ClassTable

end DartModels
