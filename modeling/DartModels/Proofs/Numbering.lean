import DartModels.CommandLine.Source
import DartModels.Proofs.Digits
import DartModels.Proofs.FreeNames

/-!
# Numbers behind names

When the names of documents stay different once the repeated ones are numbered.

The second document of a name gets a 2 behind it, the third a 3. What is counted
are the names as they were before, and nothing is looked up among the names that
come out. So the first document of each name keeps it, and two documents of one
name always part. But a document may be called `User2` of itself, and then it
meets the second `User`.

Which names can meet is a matter of digits. Where two numbered names are one
text, the longer base is the shorter one with the beginning of its number behind
it, and that beginning is a number again. If it is 2 or more, then the shorter
base has at least that many documents, and the longer base itself, without a
number, meets one of them. If it is 1, nothing of the kind happens, since no
document gets a 1. Then the number behind the longer base decides, and the least
that it can be is 2. The twelfth `User` meets the second `User1`.

## Main definitions

* `numbered`: A name behind earlier ones that are the same.
* `StaysApart`: Names of which none meets a number of another.
* `documentsNamed`: Documents that have a name and nothing else.

## Theorems

* `getElem?_numberRepeated`: The name at each place.
* `variant_eq_variant`: Two bases with numbers that are one text.
* `nodup_numberRepeated_iff`: When the names that come out are different.
* `distinguish_apart`: When documents have different names, and which keep theirs.
-/

namespace DartModels

open Identifier

/-- A name behind `earlier` ones that are the same. -/
def numbered (name : String) (earlier : Nat) : String :=
  if earlier = 0 then name else variant name (earlier + 1)

/-- The first keeps its name. -/
theorem numbered_zero (name : String) : numbered name 0 = name :=
  if_pos rfl

/-- Any other gets its number. -/
theorem numbered_of_pos {n : Nat} (h : n ≠ 0) (name : String) :
    numbered name n = variant name (n + 1) :=
  if_neg h

/-- A name is numbered by how often it stood before. -/
theorem numberRepeatedAfter_cons (before : List String) (name : String) (rest : List String) :
    numberRepeatedAfter before (name :: rest) =
      numbered name (before.count name) :: numberRepeatedAfter (name :: before) rest :=
  rfl

/-! ### Places -/

/-- The name at a place is numbered by how often it stood before and stands further
    left. -/
theorem getElem?_numberRepeatedAfter (before names : List String) (i : Nat) :
    (numberRepeatedAfter before names)[i]? =
      names[i]?.map fun name => numbered name (before.count name + (names.take i).count name) := by
  induction names generalizing before i with
  | nil => rfl
  | cons head rest ih =>
      rw [numberRepeatedAfter_cons]
      cases i with
      | zero => simp only [List.getElem?_cons_zero, Option.map_some, List.take_zero,
          List.count_nil, Nat.add_zero]
      | succ i =>
          rw [List.getElem?_cons_succ, List.getElem?_cons_succ, ih]
          congr 1
          funext name
          -- The head moves from the names to come to those before.
          rw [List.take_succ_cons, List.count_cons, List.count_cons]
          congr 1
          omega

/-- The name at a place is numbered by how often it stands further left. -/
theorem getElem?_numberRepeated (names : List String) (i : Nat) :
    (numberRepeated names)[i]? =
      names[i]?.map fun name => numbered name ((names.take i).count name) := by
  rw [numberRepeated, getElem?_numberRepeatedAfter]
  simp only [List.count_nil, Nat.zero_add]

/-- One more stands to the left of every later place. -/
theorem count_take_lt {names : List String} {name : String} {i j : Nat}
    (hi : names[i]? = some name) (hij : i < j) :
    (names.take i).count name < (names.take j).count name := by
  have hsucc : (names.take (i + 1)).count name = (names.take i).count name + 1 := by
    rw [List.take_add_one, hi, Option.toList_some, List.count_append, List.count_singleton_self]
  have hle : (names.take (i + 1)).count name ≤ (names.take j).count name :=
    (List.take_prefix_take_left hij).sublist.count_le name
  omega

/-- Below the number of its places, every number belongs to a place of the name. -/
theorem exists_place {names : List String} {name : String} {n : Nat}
    (h : n < names.count name) :
    ∃ i, names[i]? = some name ∧ (names.take i).count name = n := by
  -- The places of the name are counted from the left.
  induction names generalizing n with
  | nil => exact absurd h (Nat.not_lt_zero n)
  | cons head rest ih =>
      by_cases hhead : head = name
      · subst hhead
        rw [List.count_cons_self] at h
        cases n with
        | zero => exact ⟨0, rfl, rfl⟩
        | succ n =>
            rcases ih (Nat.lt_of_succ_lt_succ h) with ⟨i, hi, hcount⟩
            refine ⟨i + 1, hi, ?_⟩
            rw [List.take_succ_cons, List.count_cons_self, hcount]
      · rw [List.count_cons_of_ne hhead] at h
        rcases ih h with ⟨i, hi, hcount⟩
        refine ⟨i + 1, hi, ?_⟩
        rw [List.take_succ_cons, List.count_cons_of_ne hhead, hcount]

/-- Further left a name stands less often than in all. -/
theorem lt_count_of_getElem? {names : List String} {name : String} {i : Nat}
    (hi : names[i]? = some name) : (names.take i).count name < names.count name :=
  Nat.lt_of_lt_of_le (count_take_lt hi (Nat.lt_succ_self i))
    ((List.take_sublist (i + 1) names).count_le name)

/-- Names come out different exactly if no two of them meet with numbers that they
    get. -/
theorem nodup_numberRepeated_iff_inj {names : List String} :
    (numberRepeated names).Nodup ↔
      ∀ a m b n, m < names.count a → n < names.count b → numbered a m = numbered b n →
        a = b ∧ m = n := by
  constructor
  · intro hnodup a m b n hm hn heq
    rcases exists_place hm with ⟨i, hi, hm⟩
    rcases exists_place hn with ⟨j, hj, hn⟩
    have hi' : (numberRepeated names)[i]? = some (numbered a m) := by
      rw [getElem?_numberRepeated, hi, Option.map_some, hm]
    have hj' : (numberRepeated names)[j]? = some (numbered a m) := by
      rw [getElem?_numberRepeated, hj, Option.map_some, hn, heq]
    -- One name that comes out has one place.
    have hlt : i < (numberRepeated names).length := (List.getElem?_eq_some_iff.mp hi').1
    have hij : i = j := (List.getElem?_inj hlt hnodup).mp (hi'.trans hj'.symm)
    subst hij
    have hab : a = b := Option.some.inj (hi.symm.trans hj)
    subst hab
    exact ⟨rfl, hm.symm.trans hn⟩
  · intro hinj
    rw [List.nodup_iff_getElem?_ne_getElem?]
    intro i j hij hlen heq
    rw [numberRepeated_length] at hlen
    rw [getElem?_numberRepeated, getElem?_numberRepeated,
      List.getElem?_eq_getElem (Nat.lt_trans hij hlen), List.getElem?_eq_getElem hlen,
      Option.map_some, Option.map_some, Option.some.injEq] at heq
    have hi := List.getElem?_eq_getElem (Nat.lt_trans hij hlen)
    have hj := List.getElem?_eq_getElem hlen
    rcases hinj _ _ _ _ (lt_count_of_getElem? hi) (lt_count_of_getElem? hj) heq with ⟨hab, hmn⟩
    -- A later place of the same name has a greater number.
    have hlt := count_take_lt hi hij
    rw [hmn, hab] at hlt
    exact absurd hlt (Nat.lt_irrefl _)

/-! ### Numbers that are one text -/

/-- A variant is its name with the digits behind it. -/
theorem toList_variant (name : String) (n : Nat) :
    (variant name n).toList = name.toList ++ Nat.toDigits 10 n := by
  rw [variant, String.toList_append, Nat.toString_eq_ofList_toDigits, String.toList_ofList]

/-- What stands before the digits of `l` in those of `k` is the digits of a number,
    and `k` is ten times that number at least, with `l` on top. -/
theorem toDigits_eq_append {k l : Nat} {front : List Char} (hfront : front ≠ []) (hk : 0 < k)
    (h : Nat.toDigits 10 k = front ++ Nat.toDigits 10 l) :
    ∃ n, 1 ≤ n ∧ front = Nat.toDigits 10 n ∧ 10 * n + l ≤ k := by
  rcases exists_toDigits_eq hfront hk h with ⟨n, hn, rfl⟩
  refine ⟨n, hn, rfl, ?_⟩
  -- The digits behind are at least one, so those in front count ten times at least.
  have hvalue : k = 10 ^ (Nat.toDigits 10 l).length * n + l := by
    rw [← Nat.ofDigitChars_ten_toDigits (n := k), h, Nat.ofDigitChars_append,
      Nat.ofDigitChars_ten_toDigits, Nat.ofDigitChars_eq_ofDigitChars_zero,
      Nat.ofDigitChars_ten_toDigits]
  have hlength : 0 < (Nat.toDigits 10 l).length := List.length_pos_iff.mpr Nat.toDigits_ne_nil
  have hten : 10 ^ 1 ≤ 10 ^ (Nat.toDigits 10 l).length := Nat.pow_le_pow_right (by decide) hlength
  have hmul := Nat.mul_le_mul_right n hten
  omega

/-- A base that is longer than another by the beginning of its number. -/
theorem exists_variant {a b : String} {k l : Nat} {more : List Char} (hne : a ≠ b) (hk : 0 < k)
    (hb : b.toList = a.toList ++ more)
    (hdigits : Nat.toDigits 10 k = more ++ Nat.toDigits 10 l) :
    ∃ n, 1 ≤ n ∧ b = variant a n ∧ 10 * n + l ≤ k := by
  have hmore : more ≠ [] := by
    rintro rfl
    rw [List.append_nil] at hb
    exact hne (String.toList_inj.mp hb.symm)
  rcases toDigits_eq_append hmore hk hdigits with ⟨n, hn, rfl, hle⟩
  refine ⟨n, hn, String.toList_inj.mp ?_, hle⟩
  rw [hb, toList_variant]

/-- Two bases with numbers that are one text: the longer base is the shorter one with a
    number behind it. -/
theorem variant_eq_variant {a b : String} {k l : Nat} (hne : a ≠ b) (hk : 0 < k) (hl : 0 < l)
    (h : variant a k = variant b l) :
    (∃ n, 1 ≤ n ∧ b = variant a n ∧ 10 * n + l ≤ k) ∨
      ∃ n, 1 ≤ n ∧ a = variant b n ∧ 10 * n + k ≤ l := by
  have hchars := congrArg String.toList h
  rw [toList_variant, toList_variant] at hchars
  rcases List.append_eq_append_iff.mp hchars with ⟨more, hb, hdigits⟩ | ⟨more, ha, hdigits⟩
  · exact Or.inl (exists_variant hne hk hb hdigits)
  · exact Or.inr (exists_variant hne.symm hl ha hdigits)

/-- Of one name, different numbers make different names. -/
theorem numbered_inj {name : String} {m n : Nat} (h : numbered name m = numbered name n) :
    m = n := by
  by_cases hm : m = 0 <;> by_cases hn : n = 0
  · rw [hm, hn]
  · rw [hm, numbered_zero, numbered_of_pos hn] at h
    exact absurd h (ne_variant name _)
  · rw [hn, numbered_zero, numbered_of_pos hm] at h
    exact absurd h.symm (ne_variant name _)
  · rw [numbered_of_pos hm, numbered_of_pos hn] at h
    exact Nat.succ_inj.mp (variant_inj h)

/-! ### Names that meet -/

/-- No name is one that a number of another makes, and no name that has twelve places
    stands twice with a 1 behind it. -/
def StaysApart (names : List String) : Prop :=
  ∀ name ∈ names, (∀ n ≤ names.count name, 2 ≤ n → variant name n ∉ names) ∧
    (12 ≤ names.count name → names.count (variant name 1) < 2)

instance (names : List String) : Decidable (StaysApart names) :=
  inferInstanceAs (Decidable (∀ name ∈ names, _ ∧ _))

/-- With a number of its own, a name stays out of reach of the numbers of its base. -/
theorem StaysApart.lt_of_variant {names : List String} (h : StaysApart names) {name : String}
    {n k l : Nat} (hn : 1 ≤ n) (hl : 2 ≤ l) (hcount : l ≤ names.count (variant name n))
    (hle : 10 * n + l ≤ k) : names.count name < k := by
  by_contra hk
  have hmem : name ∈ names := List.count_pos_iff.mp (by omega)
  rcases h name hmem with ⟨hfree, hone⟩
  by_cases heq : n = 1
  · subst heq
    have := hone (by omega)
    omega
  · exact hfree n (by omega) (by omega) (List.count_pos_iff.mp (by omega))

/-- Names come out different exactly if they stay apart. -/
theorem nodup_numberRepeated_iff {names : List String} :
    (numberRepeated names).Nodup ↔ StaysApart names := by
  rw [nodup_numberRepeated_iff_inj]
  constructor
  · intro hinj name hname
    have hpos : 0 < names.count name := List.count_pos_iff.mpr hname
    refine ⟨fun n hle htwo hmem => ?_, fun htwelve => ?_⟩
    · -- The name with the number is one that comes out for both.
      have heq : numbered name (n - 1) = numbered (variant name n) 0 := by
        rw [numbered_zero, numbered_of_pos (by omega), Nat.sub_add_cancel (by omega)]
      have hmeet := hinj _ _ _ _ (by omega) (List.count_pos_iff.mpr hmem) heq
      exact ne_variant name n hmeet.1
    · by_contra htwice
      -- The twelfth of the name is the second of the name with a 1.
      have heq : numbered name 11 = numbered (variant name 1) 1 := by
        rw [numbered_of_pos (by decide), numbered_of_pos (by decide), variant, variant, variant,
          String.append_assoc]
        rfl
      have hmeet := hinj _ _ _ _ (by omega) (by omega) heq
      exact ne_variant name 1 hmeet.1
  · intro h a m b n hm hn heq
    by_cases hab : a = b
    · subst hab
      exact ⟨rfl, numbered_inj heq⟩
    exfalso
    have ha : a ∈ names := List.count_pos_iff.mp (by omega)
    have hb : b ∈ names := List.count_pos_iff.mp (by omega)
    -- Neither has a number, one of them has, or both.
    by_cases hm0 : m = 0 <;> by_cases hn0 : n = 0
    · rw [hm0, hn0, numbered_zero, numbered_zero] at heq
      exact hab heq
    · rw [hm0, numbered_zero, numbered_of_pos hn0] at heq
      exact (h b hb).1 (n + 1) (by omega) (by omega) (heq ▸ ha)
    · rw [hn0, numbered_zero, numbered_of_pos hm0] at heq
      exact (h a ha).1 (m + 1) (by omega) (by omega) (heq ▸ hb)
    · -- Both have a number, so one base is the other with a number behind it.
      rw [numbered_of_pos hm0, numbered_of_pos hn0] at heq
      rcases variant_eq_variant hab (by omega) (by omega) heq with
        ⟨v, hv, rfl, hle⟩ | ⟨v, hv, rfl, hle⟩
      · have := h.lt_of_variant hv (by omega) hn hle
        omega
      · have := h.lt_of_variant hv (by omega) hm hle
        omega

/-! ### Documents -/

/-- A document gets the number of its place among those of its name. -/
theorem getElem?_distinguish (ds : List Document) (i : Nat) :
    (distinguish ds)[i]? = ds[i]?.map fun d =>
      { d with className :=
          numbered d.className (((ds.take i).map Document.className).count d.className) } := by
  rw [distinguish, List.getElem?_zipWith, getElem?_numberRepeated, List.getElem?_map,
    ← List.map_take]
  cases ds[i]? <;> rfl

/-- The names of documents are numbered, and nothing else decides about them. -/
theorem map_className_distinguish (ds : List Document) :
    (distinguish ds).map Document.className = numberRepeated (ds.map Document.className) := by
  refine List.ext_getElem? fun i => ?_
  rw [List.getElem?_map, getElem?_distinguish, getElem?_numberRepeated, List.getElem?_map,
    ← List.map_take]
  cases ds[i]? <;> rfl

/-- Documents have different names exactly if their names stay apart, and the first
    document of each name keeps it. -/
theorem distinguish_apart (ds : List Document) :
    (((distinguish ds).map Document.className).Nodup ↔
        StaysApart (ds.map Document.className)) ∧
      ∀ i d, ds[i]? = some d → d.className ∉ (ds.take i).map Document.className →
        (distinguish ds)[i]? = some d := by
  refine ⟨by rw [map_className_distinguish, nodup_numberRepeated_iff], fun i d hd hfirst => ?_⟩
  rw [getElem?_distinguish, hd, Option.map_some, List.count_eq_zero.mpr hfirst, numbered_zero]

/-- Documents that have a name and nothing else. -/
def documentsNamed (names : List String) : List Document :=
  names.map fun name => ⟨"", [], name, .null⟩

/-- Three documents of one name stay apart from each other, and another one between them
    keeps its name. -/
theorem distinguish_apart_namesakes :
    ((distinguish (documentsNamed ["User", "User", "Post", "User"])).map
        Document.className).Nodup ∧
      (distinguish (documentsNamed ["User", "User", "Post", "User"]))[2]? =
        some ⟨"", [], "Post", .null⟩ := by
  rcases distinguish_apart (documentsNamed ["User", "User", "Post", "User"]) with ⟨hiff, hkeeps⟩
  have hapart : StaysApart ((documentsNamed ["User", "User", "Post", "User"]).map
      Document.className) := by
    decide +kernel
  have hfirst : "Post" ∉ ((documentsNamed ["User", "User", "Post", "User"]).take 2).map
      Document.className := by
    decide +kernel
  exact ⟨hiff.mpr hapart, hkeeps 2 _ rfl hfirst⟩

/-- Names may come out the same: the second `User` and a `User2` of itself. -/
theorem not_forall_nodup_distinguish :
    ¬ ∀ ds : List Document, ((distinguish ds).map Document.className).Nodup := by
  intro h
  have hnodup := h (documentsNamed ["User", "User", "User2"])
  rw [map_className_distinguish, nodup_numberRepeated_iff] at hnodup
  exact absurd hnodup (by decide +kernel)

end DartModels
