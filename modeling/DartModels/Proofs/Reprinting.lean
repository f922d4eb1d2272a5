import DartModels.Proofs.Distinct
import DartModels.Proofs.Likeness
import DartModels.Proofs.Limits
import DartModels.Proofs.QuotedTexts

/-!
# Documents written and read again

A document that is printed and read again is the same but for the rounding of
its doubles.

The reader makes documents within its limits and without repeated keys, and for
such documents the text that is printed is read without a fault. The induction
follows the document. For each part it says what is read from the text of the
part with anything behind it that may stand there: a comma or a closing bracket.
The length of the text bounds the steps, because every step takes a character.

## Main definitions

* `Json.Reader.Begins`: What begins like a value.
* `Json.Printer.Rereads`: What is printed for a document is read as one like it.

## Theorems

* `Json.Printer.exists_reread_number`: Numbers.
* `Json.Printer.rereads`: Values, items and members.
* `Json.exists_read_compact`: Whole documents.
-/

namespace DartModels

open Decimal

namespace Json

namespace Reader

variable {fuel room : Nat} {negative : Bool} {s rest : List Char}

/-! ### Numbers -/

/-- What is read as a number begins with a digit. -/
theorem exists_digit_of_number {r : Taken Number} (h : number negative s = .ok r) :
    ∃ c cs, s = c :: cs ∧ c.isDigit = true := by
  unfold number at h
  split at h
  next => cases h
  next cs => exact ⟨'0', cs, rfl, rfl⟩
  next c cs _ =>
    split at h
    next hc => exact ⟨c, cs, rfl, hc⟩
    next => cases h

/-- Nothing is skipped in front of what is no blank. -/
theorem skip_cons {c : Char} (hc : isSpace c = false) (s : List Char) : skip (c :: s) = c :: s := by
  rw [skip, List.dropWhile_cons_of_neg (by rw [hc]; decide)]

/-- A digit is no blank. -/
theorem isSpace_of_isDigit {c : Char} (hc : c.isDigit = true) : isSpace c = false := by
  unfold isSpace
  by_contra h
  simp only [Bool.not_eq_false, Bool.or_eq_true, beq_iff_eq] at h
  rcases h with ((rfl | rfl) | rfl) | rfl <;> exact absurd hc (by decide)

/-- The sign of a number stands in front of its digits. -/
def withSign (negative : Bool) (s : List Char) : List Char :=
  if negative then '-' :: s else s

/-- A number is read as a value. -/
theorem value_of_number {n : Number} (h : number negative s = .ok (n, rest)) :
    value (fuel + 1) room (withSign negative s) = .ok (.number n, rest) := by
  cases negative with
  | true =>
      show (number true s).bind (fun r => .ok (Json.number r.1, r.2)) = _
      rw [h]
      rfl
  | false =>
      obtain ⟨c, cs, rfl, hc⟩ := exists_digit_of_number h
      have hne {d : Char} (hd : d.isDigit = false) : c ≠ d := fun he => by
        rw [he, hd] at hc
        cases hc
      show value (fuel + 1) room (c :: cs) = _
      rw [value, skip_cons (isSpace_of_isDigit hc)]
      split
      next heq => cases heq
      -- No other kind of value begins with a digit.
      iterate 7
        next heq =>
          cases heq
          exact absurd hc (by decide)
      next heq =>
        cases heq
        rw [if_pos hc, h]
        rfl

/-- An integer that fits is read as itself. -/
theorem number_toDigits {n : Nat} (hn : n ≤ maxSignificand) (hrest : Stops rest) :
    number negative (Nat.toDigits 10 n ++ rest) = .ok (signed negative n, rest) := by
  have hvalue : Nat.ofDigitChars 10 (Nat.toDigits 10 n) 0 = n := Nat.ofDigitChars_ten_toDigits
  have hzero : (Nat.toDigits 10 n).head? = some '0' → Nat.toDigits 10 n = ['0'] := by
    intro h
    rcases Nat.eq_zero_or_pos n with rfl | hpos
    · rfl
    · exact absurd h (head?_toDigits_ne hpos)
  rw [number_eq (AllDigits.toDigits n) Nat.toDigits_ne_nil hzero (hvalue.trans_le hn)
    hrest.noDigit, hvalue]
  cases rest with
  | nil => rfl
  | cons c rest => rcases hrest c rfl with rfl | rfl | rfl <;> rfl

end Reader

namespace Printer

open Reader

variable {rest : List Char}

/-- An integer is printed as its digits behind its sign. -/
theorem number_integer (n : Int) :
    number (.integer n) = withSign (decide (n < 0)) (Nat.toDigits 10 n.natAbs) := by
  have hnat (m : Nat) : (Nat.repr m).toList = Nat.toDigits 10 m := by
    rw [← Nat.toString_eq_repr, Nat.toString_eq_ofList_toDigits, String.toList_ofList]
  cases n with
  | ofNat m =>
      have hsign : decide (Int.ofNat m < 0) = false :=
        decide_eq_false (Int.not_lt.mpr (Int.natCast_nonneg m))
      rw [hsign]
      exact hnat m
  | negSucc m =>
      have hsign : decide (Int.negSucc m < 0) = true := decide_eq_true (Int.negSucc_lt_zero m)
      rw [hsign]
      show ("-" ++ Nat.repr (m + 1)).toList = '-' :: Nat.toDigits 10 (m + 1)
      rw [String.toList_append, hnat]
      rfl

/-- A double is printed as the text of its absolute value behind its sign. -/
theorem number_double {f : Float} {b : Binary} (hf : Binary.ofFloat? f = some b) :
    number (.double f) = withSign b.negative b.text := by
  have hwrite : doubleLayout.write? f =
      some (String.ofList (doubleLayout.spell b.negative b.shortest)) := by
    rw [Layout.write?, hf]
    rfl
  rw [number, hwrite]
  show (String.ofList _).toList = _
  rw [String.toList_ofList, Binary.text]
  unfold withSign Layout.spell
  cases b.negative <;> simp only [if_true, if_false, Bool.false_eq_true, List.nil_append]
  split
  · rfl
  · split <;> rfl

/-- A number within the limits is read from its text as a number like it. -/
theorem exists_reread_number {n : Number} (h : n.WithinLimits) :
    ∃ negative digits n', number n = withSign negative digits ∧ n.Alike n' ∧
      ∀ rest, Stops rest → Reader.number negative (digits ++ rest) = .ok (n', rest) := by
  cases n with
  | integer n =>
      obtain ⟨hlow, hhigh⟩ := h
      have hmax : maxSignificand = 2 ^ 64 - 1 := rfl
      refine ⟨_, _, signed (decide (n < 0)) n.natAbs, number_integer n, ?_, fun rest hrest =>
        number_toDigits (by omega) hrest⟩
      -- A negative integer is in the signed range, so that it does not become a double.
      unfold signed
      by_cases hneg : n < 0
      · have hrange : (0 < n.natAbs && n.natAbs ≤ Nat.pow 2 63) = true := by
          rw [Bool.and_eq_true, decide_eq_true_eq, decide_eq_true_eq]
          have : Nat.pow 2 63 = 2 ^ 63 := rfl
          omega
        rw [decide_eq_true hneg, if_neg (by decide), if_pos hrange]
        show n = -(n.natAbs : Int)
        omega
      · rw [decide_eq_false hneg, if_pos (by decide)]
        show n = (n.natAbs : Int)
        omega
  | double f =>
      obtain ⟨negative, x, b, hf, -, -⟩ := h
      obtain ⟨g, hnear, hread⟩ := Binary.exists_reread hf
      exact ⟨_, _, .double g, number_double hf, hnear, hread⟩

end Printer

/-! ### Values -/

namespace Reader

variable {fuel room : Nat} {s t u rest : List Char}

/-- What begins like a value: with no blank, and nothing that ends an array or
    parts its items. -/
def Begins (s : List Char) : Prop :=
  ∃ c cs, s = c :: cs ∧ isSpace c = false ∧ c ≠ ']' ∧ c ≠ ','

/-- Only the beginning counts. -/
theorem Begins.append (h : Begins s) (t : List Char) : Begins (s ++ t) := by
  obtain ⟨c, cs, rfl, hc⟩ := h
  exact ⟨c, cs ++ t, rfl, hc⟩

/-- A value is read where the next item begins. -/
theorem items_cons {taken : List Json} {v : Json} (hnext : nextItem taken.isEmpty s = .ok (some t))
    (hv : value fuel room t = .ok (v, u)) :
    items (fuel + 1) room taken s = items fuel room (v :: taken) u := by
  rw [items, hnext]
  show (value fuel room t).bind _ = _
  rw [hv]
  rfl

/-- A key, a colon and a value are read where the next key begins. -/
theorem members_cons {first : Bool} {taken : List (String × Json)} {key : String} {v : Json}
    (hnext : nextKey first s = .ok (some (key.toList.flatMap Printer.escape ++ '"' :: ':' :: t)))
    (hv : value fuel room t = .ok (v, u)) :
    members (fuel + 1) room first taken s =
      members fuel room false (insertMember taken key v) u := by
  rw [members, hnext]
  show (string (key.toList.flatMap Printer.escape ++ '"' :: ':' :: t)).bind _ = _
  rw [string_quote]
  show (value fuel room t).bind _ = _
  rw [hv]
  rfl

/-- The first item is read where it begins. -/
theorem nextItem_first (h : Begins s) : nextItem true s = .ok (some s) := by
  obtain ⟨c, cs, rfl, hspace, hclose, hcomma⟩ := h
  rw [nextItem, skip_cons hspace]
  split
  next heq => cases heq
  next heq =>
    cases heq
    exact absurd rfl hclose
  next heq =>
    cases heq
    exact absurd rfl hcomma
  next => rfl

/-- Any other is read behind a comma. -/
theorem nextItem_comma (h : Begins s) : nextItem false (',' :: s) = .ok (some s) := by
  obtain ⟨c, cs, rfl, hspace, hclose, -⟩ := h
  rw [nextItem, skip_cons rfl]
  simp only [Bool.false_eq_true, if_false, skip_cons hspace]
  split
  next heq => cases heq
  next heq =>
    cases heq
    exact absurd rfl hclose
  next => rfl

end Reader

namespace Printer

open Reader

/-- A number that is printed begins like a value. -/
theorem begins_number {n : Number} (h : n.WithinLimits) : Begins (number n) := by
  obtain ⟨negative, digits, n', htext, -, hread⟩ := exists_reread_number h
  rw [htext]
  cases negative with
  | true => exact ⟨'-', digits, rfl, by decide⟩
  | false =>
      have hdigits := hread [] nofun
      rw [List.append_nil] at hdigits
      -- It can be read, so it has a digit in front.
      obtain ⟨c, cs, rfl, hc⟩ := exists_digit_of_number hdigits
      refine ⟨c, cs, rfl, isSpace_of_isDigit hc, ?_, ?_⟩ <;>
        exact fun he => absurd (he ▸ hc) (by decide)

/-- And so does any document that is printed. -/
theorem begins_value {d : Json} {room : Nat} (h : d.WithinLimits room) : Begins (value d) := by
  cases d with
  | null => exact ⟨'n', _, rfl, by decide⟩
  | bool b => cases b <;> exact ⟨_, _, rfl, by decide⟩
  | number n =>
      rw [WithinLimits] at h
      rw [value]
      exact begins_number h
  | string s =>
      rw [value]
      exact ⟨'"', _, rfl, by decide⟩
  | array vs => cases vs <;> exact ⟨'[', _, rfl, by decide⟩
  | object vs => cases vs <;> exact ⟨'\x7b', _, rfl, by decide⟩

/-- Behind an item there is a comma or the bracket. -/
theorem stops_items (vs : List Json) (rest : List Char) : Stops (items vs ++ rest) := by
  intro c hc
  cases vs with
  | nil =>
      cases hc
      exact .inr (.inl rfl)
  | cons v vs =>
      cases hc
      exact .inl rfl

/-- Behind a member there is a comma or the brace. -/
theorem stops_members (vs : List (String × Json)) (rest : List Char) :
    Stops (members vs ++ rest) := by
  intro c hc
  cases vs with
  | nil =>
      cases hc
      exact .inr (.inr rfl)
  | cons v vs =>
      cases hc
      exact .inl rfl

/-- At least the bracket is printed. -/
theorem length_items_pos (vs : List Json) : 0 < (items vs).length := by
  cases vs <;> exact Nat.succ_pos _

/-- At least the brace is. -/
theorem length_members_pos (vs : List (String × Json)) : 0 < (members vs).length := by
  cases vs <;> exact Nat.succ_pos _

/-- A key in front of its value. -/
theorem quote_append (key : String) (s : List Char) :
    quote key ++ ':' :: s = '"' :: (key.toList.flatMap escape ++ '"' :: ':' :: s) := by
  unfold quote
  rw [List.cons_append, List.append_assoc]
  rfl

/-- What is printed for a document is read as a document like it, whatever comes
    behind it. Every step takes a character at least. -/
def Rereads (room : Nat) (d : Json) : Prop :=
  ∀ {fuel : Nat} {rest : List Char}, (value d).length ≤ fuel → Stops rest →
    ∃ d', d.Alike d' ∧ Reader.value fuel room (value d ++ rest) = .ok (d', rest)

/-- The same of the items behind the first of an array. -/
def RereadsItems (room : Nat) (vs : List Json) : Prop :=
  ∀ {fuel : Nat} {taken : List Json} {rest : List Char}, (items vs).length ≤ fuel →
    taken.isEmpty = false →
    ∃ ws, AlikeItems vs ws ∧
      Reader.items fuel room taken (items vs ++ rest) = .ok (.array (taken.reverse ++ ws), rest)

/-- The same of the members behind the first of an object. -/
def RereadsMembers (room : Nat) (vs : List (String × Json)) : Prop :=
  ∀ {fuel : Nat} {taken : List (String × Json)} {rest : List Char}, (members vs).length ≤ fuel →
    ((taken ++ vs).map Prod.fst).Nodup →
    ∃ ws, AlikeMembers vs ws ∧
      Reader.members fuel room false taken (members vs ++ rest) = .ok (.object (taken ++ ws), rest)

section Rereads

variable {room : Nat}

/-- Fuel for a text that is not empty allows a step. -/
theorem exists_succ {length fuel : Nat} (hpos : 0 < length) (h : length ≤ fuel) :
    ∃ k, fuel = k + 1 :=
  Nat.exists_eq_succ_of_ne_zero (Nat.ne_of_gt (hpos.trans_le h))

/-- The keyword is read back by computation. -/
theorem rereads_null : Rereads room .null := by
  intro fuel rest hfuel _
  obtain ⟨fuel, rfl⟩ := exists_succ (Nat.succ_pos _) hfuel
  exact ⟨.null, trivial, rfl⟩

/-- And so are the other two. -/
theorem rereads_bool (b : Bool) : Rereads room (.bool b) := by
  intro fuel rest hfuel _
  refine ⟨.bool b, rfl, ?_⟩
  cases b <;> obtain ⟨fuel, rfl⟩ := exists_succ (Nat.succ_pos _) hfuel <;> rfl

/-- A number within the limits is read back up to rounding. -/
theorem rereads_number {n : Number} (h : n.WithinLimits) : Rereads room (.number n) := by
  intro fuel rest hfuel hrest
  obtain ⟨negative, digits, n', htext, halike, hread⟩ := exists_reread_number h
  obtain ⟨c, cs, hcons, -⟩ := begins_number h
  obtain ⟨fuel, rfl⟩ := exists_succ (by rw [value, hcons]; exact Nat.succ_pos _) hfuel
  refine ⟨.number n', halike, ?_⟩
  have hsign : withSign negative digits ++ rest = withSign negative (digits ++ rest) := by
    cases negative <;> rfl
  rw [value, htext, hsign]
  exact value_of_number (hread rest hrest)

/-- A string is read back behind its quote. -/
theorem rereads_string (s : String) : Rereads room (.string s) := by
  intro fuel rest hfuel _
  obtain ⟨fuel, rfl⟩ := exists_succ (by rw [value]; exact Nat.succ_pos _) hfuel
  refine ⟨.string s, rfl, ?_⟩
  have htext : value (.string s) ++ rest = '"' :: (s.toList.flatMap escape ++ '"' :: rest) := by
    rw [value, quote, List.cons_append, List.append_assoc]
    rfl
  rw [htext]
  show (Reader.string (s.toList.flatMap escape ++ '"' :: rest)).bind _ = _
  rw [string_quote]
  rfl

/-- The bracket ends the array. -/
theorem rereadsItems_nil : RereadsItems room [] := by
  intro fuel taken rest hfuel _
  obtain ⟨fuel, rfl⟩ := exists_succ (Nat.succ_pos _) hfuel
  exact ⟨[], trivial, by rw [List.append_nil]; rfl⟩

/-- Behind the comma the item is read, and then the others. -/
theorem rereadsItems_cons {v : Json} {vs : List Json} (hbegins : Begins (value v))
    (hv : Rereads room v) (hvs : RereadsItems room vs) : RereadsItems room (v :: vs) := by
  intro fuel taken rest hfuel htaken
  have hlength : (items (v :: vs)).length = (value v).length + (items vs).length + 1 := by
    rw [items, List.length_cons, List.length_append]
  -- The comma pays for the step that reads the item.
  obtain ⟨fuel, rfl⟩ := exists_succ (length_items_pos (v :: vs)) hfuel
  obtain ⟨w, hw, hvalue⟩ := hv (by omega : (value v).length ≤ fuel) (stops_items vs rest)
  obtain ⟨ws, hws, hitems⟩ := @hvs fuel (w :: taken) rest (by omega) rfl
  refine ⟨w :: ws, ⟨hw, hws⟩, ?_⟩
  have htext : items (v :: vs) ++ rest = ',' :: (value v ++ (items vs ++ rest)) := by
    rw [items, List.cons_append, List.append_assoc]
  rw [htext, items_cons (htaken ▸ nextItem_comma (hbegins.append _)) hvalue, hitems,
    List.reverse_cons, List.append_assoc, List.singleton_append]

/-- Both brackets of an array take a step. -/
theorem rereads_array_nil : Rereads (room + 1) (.array []) := by
  intro fuel rest hfuel _
  obtain ⟨fuel, rfl⟩ := exists_succ (Nat.succ_pos _) hfuel
  obtain ⟨fuel, rfl⟩ := exists_succ Nat.one_pos (Nat.le_of_succ_le_succ hfuel)
  exact ⟨.array [], trivial, rfl⟩

/-- An array is read back if its first item is, and the others are. -/
theorem rereads_array_cons {v : Json} {vs : List Json} (hbegins : Begins (value v))
    (hv : Rereads room v) (hvs : RereadsItems room vs) : Rereads (room + 1) (.array (v :: vs)) := by
  intro fuel rest hfuel _
  have hlength : (value (.array (v :: vs))).length = (value v).length + (items vs).length + 1 := by
    rw [value, List.length_cons, List.length_append]
  have hpos := length_items_pos vs
  have hsome : 0 < (value v).length := by
    obtain ⟨c, cs, heq, -⟩ := hbegins
    rw [heq]
    exact Nat.succ_pos _
  -- The bracket pays for opening the array. No comma pays for the first item, but
  -- the item and what closes the array need only a step for each of their characters.
  obtain ⟨fuel, rfl⟩ := exists_succ (hlength ▸ Nat.succ_pos _) hfuel
  obtain ⟨fuel, rfl⟩ := exists_succ hpos (by omega : (items vs).length ≤ fuel)
  obtain ⟨w, hw, hvalue⟩ := hv (by omega : (value v).length ≤ fuel) (stops_items vs rest)
  obtain ⟨ws, hws, hitems⟩ := @hvs fuel [w] rest (by omega) rfl
  refine ⟨.array (w :: ws), ⟨hw, hws⟩, ?_⟩
  have htext : value (.array (v :: vs)) ++ rest = '[' :: (value v ++ (items vs ++ rest)) := by
    rw [value, List.cons_append, List.append_assoc]
  rw [htext]
  show Reader.items (fuel + 1) room [] (value v ++ (items vs ++ rest)) = _
  have hfirst : Reader.items (fuel + 1) room [] (value v ++ (items vs ++ rest)) =
      Reader.items fuel room [w] (items vs ++ rest) :=
    items_cons (nextItem_first (hbegins.append _)) hvalue
  rw [hfirst, hitems]
  rfl

/-- The brace ends the object. -/
theorem rereadsMembers_nil : RereadsMembers room [] := by
  intro fuel taken rest hfuel _
  obtain ⟨fuel, rfl⟩ := exists_succ (Nat.succ_pos _) hfuel
  exact ⟨[], trivial, by rw [List.append_nil]; rfl⟩

/-- With distinct keys each member is put behind those before it. -/
theorem nodup_append_singleton {taken : List (String × Json)} {k : String} {v : Json}
    {vs : List (String × Json)} (w : Json) (h : ((taken ++ (k, v) :: vs).map Prod.fst).Nodup) :
    insertMember taken k w = taken ++ [(k, w)] ∧
      ((taken ++ [(k, w)] ++ vs).map Prod.fst).Nodup := by
  have hkeys : (taken ++ [(k, w)] ++ vs).map Prod.fst = (taken ++ (k, v) :: vs).map Prod.fst := by
    simp only [List.append_assoc, List.singleton_append, List.map_append, List.map_cons]
  refine ⟨insertMember_of_not_mem (fun hmem => ?_) w, hkeys ▸ h⟩
  rw [List.map_append, List.nodup_append] at h
  exact h.2.2 k hmem k List.mem_cons_self rfl

/-- Behind the comma the key and its value are read, and then the others. -/
theorem rereadsMembers_cons {k : String} {v : Json} {vs : List (String × Json)}
    (hv : Rereads room v) (hvs : RereadsMembers room vs) : RereadsMembers room ((k, v) :: vs) := by
  intro fuel taken rest hfuel hnodup
  have hlength : (members ((k, v) :: vs)).length =
      (quote k).length + ((value v).length + (members vs).length + 1) + 1 := by
    rw [members, List.length_cons, List.length_append, List.length_cons, List.length_append]
  obtain ⟨fuel, rfl⟩ := exists_succ (length_members_pos ((k, v) :: vs)) hfuel
  obtain ⟨w, hw, hvalue⟩ := hv (by omega : (value v).length ≤ fuel) (stops_members vs rest)
  -- The key is not there yet, so the member is put behind those that were read.
  obtain ⟨hinsert, hkeys⟩ := nodup_append_singleton w hnodup
  obtain ⟨ws, hws, hmembers⟩ := @hvs fuel _ rest (by omega) hkeys
  refine ⟨(k, w) :: ws, ⟨rfl, hw, hws⟩, ?_⟩
  have htext : members ((k, v) :: vs) ++ rest = ',' :: '"' ::
      (k.toList.flatMap escape ++ '"' :: ':' :: (value v ++ (members vs ++ rest))) := by
    rw [members, quote_append]
    simp only [List.cons_append, List.append_assoc]
  rw [htext, members_cons rfl hvalue, hinsert, hmembers, List.append_assoc, List.singleton_append]

/-- Both braces of an object take a step. -/
theorem rereads_object_nil : Rereads (room + 1) (.object []) := by
  intro fuel rest hfuel _
  obtain ⟨fuel, rfl⟩ := exists_succ (Nat.succ_pos _) hfuel
  obtain ⟨fuel, rfl⟩ := exists_succ Nat.one_pos (Nat.le_of_succ_le_succ hfuel)
  exact ⟨.object [], trivial, rfl⟩

/-- An object is read back if its first member is, and the others are. -/
theorem rereads_object_cons {k : String} {v : Json} {vs : List (String × Json)}
    (hnodup : (((k, v) :: vs).map Prod.fst).Nodup) (hv : Rereads room v)
    (hvs : RereadsMembers room vs) : Rereads (room + 1) (.object ((k, v) :: vs)) := by
  intro fuel rest hfuel _
  have hlength : (value (.object ((k, v) :: vs))).length =
      (quote k).length + ((value v).length + (members vs).length + 1) + 1 := by
    rw [value, List.length_cons, List.length_append, List.length_cons, List.length_append]
  have hpos := length_members_pos vs
  -- As with an array, the brace pays for opening the object.
  obtain ⟨fuel, rfl⟩ := exists_succ (hlength ▸ Nat.succ_pos _) hfuel
  obtain ⟨fuel, rfl⟩ := exists_succ hpos (by omega : (members vs).length ≤ fuel)
  obtain ⟨w, hw, hvalue⟩ := hv (by omega : (value v).length ≤ fuel) (stops_members vs rest)
  obtain ⟨hinsert, hkeys⟩ := @nodup_append_singleton [] k v vs w hnodup
  obtain ⟨ws, hws, hmembers⟩ := @hvs fuel _ rest (by omega) hkeys
  refine ⟨.object ((k, w) :: ws), ⟨rfl, hw, hws⟩, ?_⟩
  have htext : value (.object ((k, v) :: vs)) ++ rest = '\x7b' :: '"' ::
      (k.toList.flatMap escape ++ '"' :: ':' :: (value v ++ (members vs ++ rest))) := by
    rw [value, quote_append]
    simp only [List.cons_append, List.append_assoc]
  rw [htext]
  show Reader.members (fuel + 1) room true [] ('"' ::
    (k.toList.flatMap escape ++ '"' :: ':' :: (value v ++ (members vs ++ rest)))) = _
  rw [members_cons rfl hvalue, hinsert, hmembers]
  rfl

end Rereads

-- The recursion is the one of the printer. A container with no room left is not
-- within the limits, so it needs no case.
mutual

/-- Every document within the limits and without repeated keys is read back. -/
theorem rereads : (d : Json) → {room : Nat} → d.WithinLimits room → d.Distinct → Rereads room d
  | .null, _, _, _ => rereads_null
  | .bool b, _, _, _ => rereads_bool b
  | .number _, _, hlim, _ => rereads_number hlim
  | .string s, _, _, _ => rereads_string s
  | .array [], _ + 1, _, _ => rereads_array_nil
  | .array (v :: vs), _ + 1, hlim, hdist =>
      rereads_array_cons (begins_value hlim.2.1) (rereads v hlim.2.1 hdist.1)
        (rereadsItems vs hlim.2.2 hdist.2)
  | .object [], _ + 1, _, _ => rereads_object_nil
  | .object ((_, v) :: vs), _ + 1, hlim, hdist =>
      rereads_object_cons hdist.1 (rereads v hlim.2.1 hdist.2.1)
        (rereadsMembers vs hlim.2.2 hdist.2.2)

/-- And so are the items behind the first of an array. -/
theorem rereadsItems : (vs : List Json) → {room : Nat} → ItemsWithinLimits room vs →
    DistinctItems vs → RereadsItems room vs
  | [], _, _, _ => rereadsItems_nil
  | v :: vs, _, hlim, hdist =>
      rereadsItems_cons (begins_value hlim.1) (rereads v hlim.1 hdist.1)
        (rereadsItems vs hlim.2 hdist.2)

/-- And the members behind the first of an object. -/
theorem rereadsMembers : (vs : List (String × Json)) → {room : Nat} →
    MembersWithinLimits room vs → DistinctMembers vs → RereadsMembers room vs
  | [], _, _, _ => rereadsMembers_nil
  | (_, v) :: vs, _, hlim, hdist =>
      rereadsMembers_cons (rereads v hlim.1 hdist.1) (rereadsMembers vs hlim.2 hdist.2)

end

end Printer

/-- A document within the limits is printed as a text that is read as a document
    like it. -/
theorem exists_read_compact {d : Json} (hlim : d.WithinLimits Reader.maxOpen) (hdist : d.Distinct) :
    ∃ d', d.Alike d' ∧ read d.compact = .ok d' := by
  have hfuel : (Printer.value d).length ≤ 2 * (Printer.value d).length + 2 := by omega
  obtain ⟨d', halike, hvalue⟩ := @Printer.rereads d _ hlim hdist _ [] hfuel nofun
  refine ⟨d', halike, ?_⟩
  have hdocument : Reader.document (Printer.value d) = .ok d' := by
    rw [List.append_nil] at hvalue
    rw [Reader.document, hvalue]
    rfl
  rw [read, compact, String.toList_ofList, hdocument]

end Json

end DartModels
