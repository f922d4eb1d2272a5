import DartModels.Proofs.Descent
import DartModels.Proofs.Distinct
import DartModels.Proofs.FreeNames
import DartModels.Proofs.Success
import DartModels.Proofs.TypeNames

/-!
# Names of fields

The fields of every class have names that a program can use.

A field name is made of the words of its key in lower camel case. A letter is put
before a leading digit, an underscore behind a name that is spoken for, and a
number behind one that another field has. The first makes it an identifier that
begins with a small letter, which no type name does. The second keeps it away
from the words of the language, and neither it nor the third can lead back to
them, as none of these words ends in an underscore or a digit.

Names belong to a whole list of keys, since which of two fields is numbered
depends on their order. A merge changes that list, and a name that was right
before it may be wrong after it. So what is kept through an inference is not a
property of names but that the fields of each class are `Labelled`, as if they
had been named together.

## Main definitions

* `Identifier.IsFieldName`: A small letter, and behind it letters, digits and
  underscores.

## Theorems

* `Identifier.isFieldName_fieldName`, `Identifier.isReserved_fieldName`: What
  the name for a key looks like.
* `Identifier.distinctFieldNames_form`: The same for the names of a class.
* `Catalog.labelled`: The fields of all classes of a document have the names
  that belong to their keys.
-/

namespace DartModels

namespace Identifier

/-- A name in lower camel case, perhaps with an underscore behind it. -/
def IsFieldName (name : String) : Prop :=
  ∃ c rest, name.toList = c :: rest ∧ c.isLower = true ∧
    ∀ d ∈ rest, d.isAlphanum = true ∨ d = '_'

/-! ### The name for a key -/

theorem isLower_or_isDigit_toLower {c : Char} (h : c.isAlphanum = true) :
    c.toLower.isLower = true ∨ c.toLower.isDigit = true := by
  rw [Char.isLower_toLower_eq_isAlpha]
  by_cases hu : c.isUpper = true
  · rw [Char.isAlpha, hu, Bool.true_or]
    exact Or.inl rfl
  · rw [Char.toLower_eq_of_not_isUpper hu]
    rwa [Char.isAlphanum, Bool.or_eq_true] at h

theorem isAlpha_eq_false_of_isDigit {c : Char} (h : c.isDigit = true) : c.isAlpha = false := by
  grind [Char.isDigit, Char.isAlpha, Char.isUpper, Char.isLower]

/-- No word that is spoken for ends in a digit or an underscore. -/
theorem isReserved_append_eq_false (base : String) {c : Char} (rest : List Char)
    (h : ∀ d ∈ c :: rest, d.isAlpha = false) :
    isReserved (base ++ String.ofList (c :: rest)) = false := by
  -- All of them end in a letter, which can be seen by looking at each.
  have hends : ∀ w ∈ keywords ++ members ++ coreTypes,
      (w.toList.getLast?.map Char.isAlpha) = some true := by decide +kernel
  by_contra hres
  rw [Bool.not_eq_false, isReserved, Bool.or_eq_true, Bool.or_eq_true] at hres
  have hmem : base ++ String.ofList (c :: rest) ∈ keywords ++ members ++ coreTypes := by
    simpa only [List.mem_append, List.contains_iff_mem] using hres
  have hlast := hends _ hmem
  rw [String.toList_append, String.toList_ofList, List.getLast?_append_of_ne_nil _ (by simp),
    List.getLast?_eq_getLast_of_ne_nil (by simp), Option.map_some, Option.some.injEq,
    h _ (List.getLast_mem (by simp))] at hlast
  exact Bool.noConfusion hlast

/-- A number at its end keeps a name from being reserved. -/
theorem isReserved_variant (base : String) (n : Nat) : isReserved (variant base n) = false := by
  rw [variant, Nat.toString_eq_ofList_toDigits]
  cases hdigits : Nat.toDigits 10 n with
  | nil => exact absurd hdigits Nat.toDigits_ne_nil
  | cons c rest =>
      exact isReserved_append_eq_false base rest fun d hd => isAlpha_eq_false_of_isDigit
        (Nat.isDigit_of_mem_toDigits (by decide) (by decide) (hdigits ▸ hd))

/-- So does an underscore, if it has to. -/
theorem isReserved_guardReserved (name : String) : isReserved (guardReserved name) = false := by
  unfold guardReserved
  by_cases hres : isReserved name = true
  · rw [if_pos hres]
    exact isReserved_append_eq_false name [] fun d hd => List.mem_singleton.mp hd ▸ rfl
  · rw [if_neg hres]
    exact Bool.not_eq_true _ ▸ hres

theorem IsFieldName.guardReserved {name : String} (h : IsFieldName name) :
    IsFieldName (Identifier.guardReserved name) := by
  unfold Identifier.guardReserved
  split
  · rcases h with ⟨c, rest, heq, hc, hrest⟩
    refine ⟨c, rest ++ ['_'], by rw [String.toList_append, heq]; rfl, hc, fun d hd => ?_⟩
    rcases List.mem_append.mp hd with hd | hd
    · exact hrest d hd
    · exact Or.inr (List.mem_singleton.mp hd)
  · exact h

theorem IsFieldName.variant {base : String} (h : IsFieldName base) (n : Nat) :
    IsFieldName (Identifier.variant base n) := by
  rcases h with ⟨c, rest, heq, hc, hrest⟩
  refine ⟨c, rest ++ Nat.toDigits 10 n, ?_, hc, fun d hd => ?_⟩
  · rw [Identifier.variant, String.toList_append, heq, Nat.toString_eq_ofList_toDigits,
      String.toList_ofList, List.cons_append]
  · rcases List.mem_append.mp hd with hd | hd
    · exact hrest d hd
    · exact Or.inl (isAlphanum_of_isUpper_or_isDigit
        (Or.inr (Nat.isDigit_of_mem_toDigits (by decide) (by decide) hd)))

/-- A name that would begin with a digit is given a small letter in front. -/
theorem isFieldName_guardDigit {c : Char} {rest : List Char}
    (hc : c.isLower = true ∨ c.isDigit = true) (hrest : ∀ d ∈ rest, d.isAlphanum = true) :
    IsFieldName (String.ofList (guardDigit 'n' (c :: rest))) := by
  unfold guardDigit
  by_cases hd : c.isDigit = true
  · refine ⟨'n', c :: rest, by simp [hd], rfl, fun d hmem => Or.inl ?_⟩
    rcases List.mem_cons.mp hmem with rfl | hmem
    · exact isAlphanum_of_isUpper_or_isDigit (Or.inr hd)
    · exact hrest d hmem
  · exact ⟨c, rest, by simp [hd], hc.resolve_right hd, fun d hmem => Or.inl (hrest d hmem)⟩

/-- Whatever the key, the name made of it is that of a field. -/
theorem isFieldName_fieldName (key : String) : IsFieldName (fieldName key) := by
  unfold fieldName
  cases hw : Text.words key with
  | nil =>
      exact ⟨'v', ['a', 'l', 'u', 'e'], rfl, rfl, fun d hd => Or.inl (List.all_eq_true.mp rfl d hd)⟩
  | cons w ws =>
      have hne : ∀ u ∈ w :: ws, u ≠ [] := fun u hu => Text.Words.ne_nil_of_mem_split (hw ▸ hu)
      have hal : ∀ u ∈ w :: ws, ∀ c ∈ u, c.isAlphanum = true := fun u hu c hc =>
        isAlphanum_of_mem_words (hw ▸ hu) hc
      cases w with
      | nil => exact absurd rfl (hne [] List.mem_cons_self)
      | cons c rest =>
          have hcamel : lowerCamel ((c :: rest) :: ws) =
              c.toLower :: (Text.lowercase rest ++ upperCamel ws) := rfl
          simp only [hcamel]
          -- The first word is in small letters throughout, so the first character is a
          -- small letter unless it is a digit.
          refine (isFieldName_guardDigit (isLower_or_isDigit_toLower
            (hal _ List.mem_cons_self c List.mem_cons_self)) fun d hd => ?_).guardReserved
          rcases List.mem_append.mp hd with hd | hd
          · rcases List.mem_map.mp hd with ⟨e, he, rfl⟩
            exact isAlphanum_toLower (hal _ List.mem_cons_self e (List.mem_cons_of_mem c he))
          · exact isAlphanum_of_mem_upperCamel
              (fun u hu => hne u (List.mem_cons_of_mem _ hu))
              (fun u hu => hal u (List.mem_cons_of_mem _ hu)) hd

/-- The name of a field is never reserved, also when the key has no words. -/
theorem isReserved_fieldName (key : String) : isReserved (fieldName key) = false := by
  unfold fieldName
  split
  · decide +kernel
  · exact isReserved_guardReserved _

/-- The names of the fields of a class, numbered where they have to be. -/
theorem distinctFieldNames_form (keys : List String) :
    ∀ name ∈ distinctFieldNames keys, IsFieldName name ∧ isReserved name = false := by
  have hform : ∀ taken : List String, ∀ name ∈ distinctFrom taken keys,
      IsFieldName name ∧ isReserved name = false := by
    -- The induction is on the keys for any set of names taken, since each name is among
    -- those that the next one avoids.
    induction keys with
    | nil => exact fun _ _ h => absurd h List.not_mem_nil
    | cons key rest ih =>
        intro taken name hname
        -- The name found is the plain one or one of its variants.
        rcases exists_firstFree taken (fieldName key) with ⟨first, hfirst, _⟩
        rw [distinctFrom, hfirst, Option.getD_some] at hname
        rcases List.mem_cons.mp hname with rfl | hname
        · rw [firstFree_eq_find?] at hfirst
          rcases List.mem_cons.mp (List.mem_of_find?_eq_some hfirst) with rfl | hmem
          · exact ⟨isFieldName_fieldName key, isReserved_fieldName key⟩
          · rcases List.mem_map.mp hmem with ⟨n, _, rfl⟩
            exact ⟨(isFieldName_fieldName key).variant n, isReserved_variant _ n⟩
        · exact ih _ name hname
  exact hform []

/-- No field has the name of a type. -/
theorem IsFieldName.not_isTypeName {name : String} (h : IsFieldName name) : ¬ IsTypeName name := by
  rintro ⟨d, rest', heq', hd, _⟩
  rcases h with ⟨c, rest, heq, hc, _⟩
  rw [heq, List.cons.injEq] at heq'
  exact Char.not_isUpper_of_isLower hc (heq'.1 ▸ hd)

end Identifier

/-! ### The fields of all classes -/

namespace ClassTable

/-- Whether fields are in order does not depend on the numbers of the classes in them. -/
theorem numberless_labelled : Numberless Field.Labelled := by
  intro f fields
  have hkeys : (fields.map (Field.mapIds f)).map Field.key = fields.map Field.key := by
    rw [List.map_map]
    rfl
  have hnames : (fields.map (Field.mapIds f)).map Field.name = fields.map Field.name := by
    rw [List.map_map]
    rfl
  exact ⟨fun h => ⟨hkeys ▸ h.keys, by rw [← hnames, h.names, hkeys]⟩,
    fun h => ⟨hkeys.symm ▸ h.keys, by rw [hnames, h.names, hkeys]⟩⟩

end ClassTable

namespace Inference

open ClassTable

/-- The fields of an object are in order once they are named, since its keys are
    distinct. -/
theorem labelled_observeMembers {o : Options} {t t' : ClassTable} {depth : Nat}
    {path : List Step} {members : List (String × Json)} {fields : List Field}
    (h : observeMembers o t depth path members = (.ok fields, t'))
    (hv : (members.map Prod.fst).Nodup) : Field.Labelled (Field.withNames fields) :=
  Field.labelled_withNames (by rwa [keys_observeMembers h])

/-- What the walk brings into the table is in order, as long as no object has a
    key twice. -/
theorem visits_brings (o : Options) : Visits o Json.Distinct (Operation.Brings Field.Labelled) where
  items _ hv := Json.distinctItems_iff.mp hv
  members _ hv := Json.distinctMembers_iff.mp hv.2
  merges _ h := h.brings
  registers _ _ _ _ _ _ _ hv h := labelled_observeMembers h hv.1

/-- The root class is there before its members are looked at, with no fields. They are
    put in place at the end, and are in order then. -/
theorem brings_observeRootOps (o : Options) (t : ClassTable) (name : String) (v : Json)
    (hv : v.Distinct) : ∀ op ∈ observeRootOps o t name v, op.Brings Field.Labelled := by
  cases v with
  | null | bool _ | number _ | string _ | array _ =>
      exact fun op hop => absurd hop List.not_mem_nil
  | object members =>
      intro op hop
      rcases List.mem_cons.mp hop with rfl | hop
      · exact trivial
      rcases List.mem_append.mp hop with hop | hop
      · exact (visits_brings o).observeMembersOps _ 1 [] members
          (Json.distinctMembers_iff.mp hv.2) op hop
      · split at hop
        · rename_i hmembers
          rw [List.mem_singleton.mp hop]
          exact labelled_observeMembers hmembers hv.1
        · exact absurd hop List.not_mem_nil

end Inference

/-- In every class of a document the keys are distinct, and the fields have the
    names that belong to these keys. -/
theorem Catalog.labelled {o : Options} {name : String} {v : Json} {catalog : Catalog}
    (hv : v.Distinct) (h : ofDocument o name v = .ok catalog) :
    catalog.table.Each Field.Labelled := by
  rcases ofDocument_eq_ok h with ⟨root, t, _, hl, _, rfl⟩
  -- The operations of the walk bring in fields in order, and folding brings in none.
  have hlegal := Inference.legal_observeRootOps o ClassTable.WellFormed.empty rfl name v
  have hrun := (ClassTable.each_empty _).run ClassTable.numberless_labelled
    ClassTable.WellFormed.empty hlegal (Inference.brings_observeRootOps o .empty name v hv)
  rw [hl.run] at hrun
  exact hrun.descends ClassTable.numberless_labelled hl.wellFormed.descends_foldDuplicates

end DartModels
