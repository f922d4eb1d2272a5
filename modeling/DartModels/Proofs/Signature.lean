import DartModels.Shape.Basic
import Std.Data.String.ToNat

/-!
# Signatures

What a signature says about the class it belongs to.

Classes are compared by their signatures, and so two classes are taken for one
exactly if their signatures are the same text. That text is the keys with their
slots, put in a row without any quoting. Slots can be read back from it. The
words of the primitives differ, a list is closed by a bracket, a number ends
where its digits end, and a question mark can only be the mark of a nullable
slot as no shape ends in one. Neither of the two characters that separate the
parts of a field occurs in a slot.

Keys are another matter, for they can be any text. A colon in a key does no
harm, since the last colon before the semicolon is the one that separates. A
semicolon may do harm: behind a colon and the spelling of a slot it looks like
the end of a field, and the key that it stands in like two. A key without such a
place is legible, and classes with legible keys have their whole content in
their signatures. That is also the best that can be said. Any other class can be
cut at such places into one with legible keys and more fields, whose signature
is the same.

## Main definitions

* `ClassDef.layout`: The keys of a class with their slots.
* `Field.Legible`, `ClassDef.Legible`: No key looks like several fields.
* `ClassDef.Separable`: No key has a semicolon.

## Theorems

* `Shape.text_inj`, `Slot.text_inj`: A slot can be read back.
* `Field.text_append_inj`: So can the first field of a row.
* `ClassDef.signature_eq_iff_layout_eq`: Signatures are equal if and only if the
  classes have the same keys with the same slots.
* `ClassDef.exists_legible`: Every signature is that of a class with legible
  keys.
* `ClassDef.signature_tells_apart`: Which classes their signatures identify.
-/

namespace DartModels

/-- A row can be cut in only one way before the first of two equal separators. -/
theorem append_cons_inj {α : Type} {x : α} {as bs as' bs' : List α} (ha : x ∉ as) (hb : x ∉ bs)
    (h : as ++ x :: as' = bs ++ x :: bs') : as = bs ∧ as' = bs' := by
  induction as generalizing bs with
  | nil =>
      cases bs with
      | nil => exact ⟨rfl, (List.cons.inj h).2⟩
      | cons b bs => exact absurd (List.mem_cons.mpr (Or.inl (List.cons.inj h).1)) hb
  | cons a as ih =>
      cases bs with
      | nil => exact absurd (List.mem_cons.mpr (Or.inl (List.cons.inj h).1.symm)) ha
      | cons b bs =>
          rcases List.cons.inj h with ⟨rfl, htail⟩
          rcases ih (fun hx => ha (List.mem_cons_of_mem a hx))
            (fun hx => hb (List.mem_cons_of_mem a hx)) htail with ⟨rfl, rfl⟩
          exact ⟨rfl, rfl⟩

namespace Shape

/-- Between the brackets of a list stands a slot. -/
theorem text_list (item : Shape) (nullable : Bool) :
    (list item nullable).text = "list<".toList ++ ((Slot.mk item nullable).text ++ ['>']) := by
  cases nullable <;> simp [text, Slot.text]

/-- No shape ends in a question mark, not even a list of nullable elements, which ends
    in its bracket. -/
theorem getLast?_text_ne (s : Shape) : s.text.getLast? ≠ some '?' := by
  cases s with
  | primitive p => cases p <;> decide
  | list item nullable =>
      rw [text_list, ← List.append_assoc, List.getLast?_concat]
      decide
  | ref id =>
      intro h
      rw [text, Nat.toString_eq_ofList_toDigits, String.toList_ofList] at h
      have hmem := List.mem_of_getLast? h
      rcases List.mem_cons.mp hmem with heq | hdigit
      · exact absurd heq (by decide)
      · exact absurd (Nat.isDigit_of_mem_toDigits (by decide) (by decide) hdigit) (by decide)

/-- The separators of a signature do not occur in shapes. -/
theorem not_mem_text (s : Shape) {ch : Char} (hch : ch = ':' ∨ ch = ';') : ch ∉ s.text := by
  induction s with
  | primitive p => cases p <;> rcases hch with rfl | rfl <;> decide
  | list item nullable ih =>
      rcases hch with rfl | rfl <;> cases nullable <;> simpa [text] using ih
  | ref id =>
      rw [text, Nat.toString_eq_ofList_toDigits, String.toList_ofList]
      intro hmem
      rcases List.mem_cons.mp hmem with heq | hdigit
      · rcases hch with rfl | rfl <;> exact absurd heq (by decide)
      · have hdig := Nat.isDigit_of_mem_toDigits (by decide) (by decide) hdigit
        rcases hch with rfl | rfl <;> exact absurd hdig (by decide)

end Shape

/-- The mark of a nullable slot can be told from what stands before it. -/
theorem Slot.text_cases {x y : Slot} (h : x.text = y.text) :
    x.shape.text = y.shape.text ∧ x.nullable = y.nullable := by
  rcases x with ⟨x, _ | _⟩ <;> rcases y with ⟨y, _ | _⟩ <;> simp only [Slot.text] at h ⊢
  · simpa using h
  · exact absurd (by simpa using congrArg List.getLast? h) x.getLast?_text_ne
  · exact absurd (by simpa using congrArg List.getLast? h.symm) y.getLast?_text_ne
  · simpa using h

/-- A shape can be read off its text. -/
theorem Shape.text_inj {x y : Shape} (h : x.text = y.text) : x = y := by
  -- Each kind of type is written with a first character of its own.
  induction x generalizing y with
  | primitive p =>
      cases y with
      | primitive q => cases p <;> cases q <;> first | rfl | exact absurd h (by decide)
      | list item nullable => cases p <;> simp [text, Primitive.word] at h
      | ref id => cases p <;> simp [text, Primitive.word] at h
  | list item nullable ih =>
      cases y with
      | primitive q => cases q <;> simp [text, Primitive.word] at h
      | ref id => simp [text] at h
      | list item' nullable' =>
          rw [text_list, text_list, List.append_cancel_left_eq, List.append_cancel_right_eq] at h
          rcases Slot.text_cases h with ⟨hitem, hnullable⟩
          rw [ih hitem, show nullable = nullable' from hnullable]
  | ref id =>
      cases y with
      | primitive q => cases q <;> simp [text, Primitive.word] at h
      | list item nullable => simp [text] at h
      | ref id' =>
          have hdigits : toString id = toString id' :=
            String.toList_inj.mp (List.cons.inj h).2
          rw [Nat.repr_inj.mp hdigits]

/-- So can a slot. -/
theorem Slot.text_inj {x y : Slot} (h : x.text = y.text) : x = y := by
  rcases Slot.text_cases h with ⟨hshape, hnullable⟩
  rcases x with ⟨x, n⟩
  rcases y with ⟨y, m⟩
  rw [show x = y from Shape.text_inj hshape, show n = m from hnullable]

/-- Nor do separators occur in slots. -/
theorem Slot.not_mem_text (s : Slot) {ch : Char} (hch : ch = ':' ∨ ch = ';') : ch ∉ s.text := by
  rcases s with ⟨shape, _ | _⟩
  · simpa [Slot.text] using shape.not_mem_text hch
  · rcases hch with rfl | rfl <;> simpa [Slot.text] using shape.not_mem_text (by simp)

namespace Field

/-- What two fields of two classes have in common if they hold the same: the
    name that was derived from the key is left out. -/
def entry (f : Field) : String × Slot :=
  (f.key, f.slot)

/-- No part of the key looks like the end of a field: the spelling of a slot
    between a colon and a semicolon. -/
def Legible (f : Field) : Prop :=
  ∀ (front : List Char) (s : Slot) (rest : List Char),
    f.key.toList ≠ front ++ ':' :: (s.text ++ ';' :: rest)

/-- A key without a semicolon has no end of a field in it. -/
theorem legible_of_not_mem {f : Field} (h : ';' ∉ f.key.toList) : f.Legible := by
  intro front s rest heq
  exact h (heq ▸ List.mem_append_right _ (List.mem_cons_of_mem _
    (List.mem_append_right _ List.mem_cons_self)))

/-- A field without the semicolon that closes it. -/
def body (f : Field) : List Char :=
  f.key.toList ++ ':' :: f.slot.text

/-- A field is its body with a semicolon. -/
theorem text_append (f : Field) (rest : List Char) : f.text ++ rest = f.body ++ ';' :: rest := by
  simp only [text, body, List.append_assoc, List.cons_append, List.nil_append]

/-- Keys may have colons, so the one that separates is looked for from the end. -/
theorem entry_eq_of_body_eq {f g : Field} (h : f.body = g.body) : f.entry = g.entry := by
  have hrev := congrArg List.reverse h
  simp only [body, List.reverse_append, List.reverse_cons, List.append_assoc, List.cons_append,
    List.nil_append] at hrev
  have hcolon : ∀ s : Slot, ':' ∉ s.text.reverse := fun s hmem =>
    s.not_mem_text (Or.inl rfl) (List.mem_reverse.mp hmem)
  rcases append_cons_inj (hcolon f.slot) (hcolon g.slot) hrev with ⟨hslot, hkey⟩
  refine Prod.ext ?_ ?_
  · exact String.toList_inj.mp (List.reverse_inj.mp hkey)
  · exact Slot.text_inj (List.reverse_inj.mp hslot)

/-- A field with a legible key does not begin with another field. -/
theorem Legible.body_ne {g : Field} (hg : g.Legible) (f : Field) (rest : List Char) :
    g.body ≠ f.body ++ ';' :: rest := by
  intro h
  rcases List.append_eq_append_iff.mp h with ⟨front, _, hslot⟩ | ⟨front, hkey, hslot⟩
  · -- The semicolon would be one of the slot.
    have hmem : ';' ∈ ':' :: g.slot.text :=
      hslot ▸ List.mem_append_right _ List.mem_cons_self
    rcases List.mem_cons.mp hmem with heq | hmem
    · exact absurd heq (by decide)
    · exact g.slot.not_mem_text (Or.inr rfl) hmem
  · -- So it is one of the key, and what stands before it is the other field.
    cases front with
    | nil => exact absurd (List.cons.inj hslot).1 (by decide)
    | cons c front =>
        rcases List.cons.inj hslot with ⟨rfl, _⟩
        refine hg f.key.toList f.slot front (hkey.trans ?_)
        simp only [body, List.append_assoc, List.cons_append]

/-- The first field of a row can be read back if its key is legible. -/
theorem text_append_inj {f g : Field} {as bs : List Char} (hf : f.Legible) (hg : g.Legible)
    (h : f.text ++ as = g.text ++ bs) : f.entry = g.entry ∧ as = bs := by
  rw [text_append, text_append] at h
  rcases List.append_eq_append_iff.mp h with ⟨rest, hbody, htail⟩ | ⟨rest, hbody, htail⟩
  · cases rest with
    | nil =>
        rw [List.append_nil] at hbody
        exact ⟨entry_eq_of_body_eq hbody.symm, (List.cons.inj htail).2⟩
    | cons c rest =>
        rcases List.cons.inj htail with ⟨rfl, _⟩
        exact absurd hbody (hg.body_ne f rest)
  · cases rest with
    | nil =>
        rw [List.append_nil] at hbody
        exact ⟨entry_eq_of_body_eq hbody, (List.cons.inj htail).2.symm⟩
    | cons c rest =>
        rcases List.cons.inj htail with ⟨rfl, _⟩
        exact absurd hbody (hf.body_ne g rest)

/-- A field can be cut where its key looks like the end of one, until all keys
    are legible. -/
theorem exists_legible (f : Field) : ∃ fs : List Field, (∀ g ∈ fs, g.Legible) ∧
    fs.flatMap text = f.text ∧ 1 ≤ fs.length ∧ (¬ f.Legible → 2 ≤ fs.length) := by
  -- Both parts of a key are shorter than it.
  induction hn : f.key.toList.length using Nat.strongRecOn generalizing f with
  | _ n ih =>
      subst hn
      by_cases hf : f.Legible
      · refine ⟨[f], fun g hg => List.mem_singleton.mp hg ▸ hf, ?_, Nat.le_refl 1, absurd hf⟩
        exact List.append_nil _
      · simp only [Legible, ne_eq, Classical.not_forall, Classical.not_not] at hf
        rcases hf with ⟨front, s, rest, heq⟩
        have hlength := congrArg List.length heq
        simp only [List.length_append, List.length_cons] at hlength
        -- The key is cut into what stands before the colon and what comes after the
        -- semicolon.
        rcases ih front.length (by omega) ⟨"", String.ofList front, s⟩
          (by rw [String.toList_ofList]) with ⟨fs, hfs, htext, hpos, _⟩
        rcases ih rest.length (by omega) ⟨"", String.ofList rest, f.slot⟩
          (by rw [String.toList_ofList]) with ⟨gs, hgs, htext', hpos', _⟩
        refine ⟨fs ++ gs, fun g hg => ?_, ?_, ?_, fun _ => ?_⟩
        · exact (List.mem_append.mp hg).elim (hfs g) (hgs g)
        · rw [List.flatMap_append, htext, htext']
          simp only [text, heq, String.toList_ofList, List.append_assoc, List.cons_append,
            List.nil_append]
        · rw [List.length_append]
          omega
        · rw [List.length_append]
          omega

end Field

namespace ClassDef

/-- The keys of a class with what they hold, in order. -/
def layout (c : ClassDef) : List (String × Slot) :=
  c.fields.map Field.entry

/-- No key looks like several fields. -/
def Legible (c : ClassDef) : Prop :=
  ∀ f ∈ c.fields, f.Legible

/-- No key has a semicolon, which would separate fields in a signature. -/
def Separable (c : ClassDef) : Prop :=
  ∀ f ∈ c.fields, ';' ∉ f.key.toList

instance (c : ClassDef) : Decidable c.Separable :=
  inferInstanceAs (Decidable (∀ f ∈ c.fields, ';' ∉ f.key.toList))

/-- Without semicolons all keys are legible. -/
theorem Separable.legible {c : ClassDef} (h : c.Separable) : c.Legible :=
  fun f hf => Field.legible_of_not_mem (h f hf)

/-- Rows of legible fields can be read back from their text. -/
theorem flatMap_text_inj {fs gs : List Field} (hf : ∀ f ∈ fs, f.Legible)
    (hg : ∀ g ∈ gs, g.Legible) (h : fs.flatMap Field.text = gs.flatMap Field.text) :
    fs.map Field.entry = gs.map Field.entry := by
  have hne : ∀ (f : Field) (as : List Char), f.text ++ as ≠ [] := fun f as => by
    simp [Field.text]
  induction fs generalizing gs with
  | nil =>
      cases gs with
      | nil => rfl
      | cons g gs => exact absurd h.symm (hne g _)
  | cons f fs ih =>
      cases gs with
      | nil => exact absurd h (hne f _)
      | cons g gs =>
          rcases Field.text_append_inj (hf f List.mem_cons_self) (hg g List.mem_cons_self) h with
            ⟨hentry, htail⟩
          rw [List.map_cons, List.map_cons, hentry,
            ih (fun x hx => hf x (List.mem_cons_of_mem f hx))
              (fun x hx => hg x (List.mem_cons_of_mem g hx)) htail]

/-- The signature is a text of the layout. -/
theorem signature_congr {c d : ClassDef} (h : c.layout = d.layout) :
    c.signature = d.signature := by
  have htext : ∀ fs : List Field, fs.flatMap Field.text =
      (fs.map Field.entry).flatMap fun e => e.1.toList ++ ':' :: (e.2.text ++ [';']) := fun fs => by
    rw [List.flatMap_map]
    rfl
  rw [signature, signature, htext, htext, show c.fields.map Field.entry = _ from h]
  rfl

/-- With legible keys, a signature has the whole content of a class. -/
theorem signature_eq_iff_layout_eq {c d : ClassDef} (hc : c.Legible) (hd : d.Legible) :
    c.signature = d.signature ↔ c.layout = d.layout :=
  ⟨fun h => flatMap_text_inj hc hd (String.ofList_inj.mp h), signature_congr⟩

/-- Without semicolons in keys it has so in particular. -/
theorem signature_eq_iff {c d : ClassDef} (hc : c.Separable) (hd : d.Separable) :
    c.signature = d.signature ↔ c.layout = d.layout :=
  signature_eq_iff_layout_eq hc.legible hd.legible

/-- Layouts are compared position by position. -/
theorem layout_eq_iff {c d : ClassDef} : c.layout = d.layout ↔
    c.fields.length = d.fields.length ∧
      ∀ i (hi : i < c.fields.length) (hj : i < d.fields.length),
        c.fields[i].key = d.fields[i].key ∧ c.fields[i].slot.shape = d.fields[i].slot.shape ∧
          c.fields[i].slot.nullable = d.fields[i].slot.nullable := by
  have hentry : ∀ f g : Field, f.entry = g.entry ↔
      f.key = g.key ∧ f.slot.shape = g.slot.shape ∧ f.slot.nullable = g.slot.nullable :=
    fun f g => by rw [Field.entry, Field.entry, Prod.mk.injEq, Slot.mk.injEq]
  simp only [layout, List.ext_getElem_iff, List.length_map, List.getElem_map, hentry]

/-- Every signature is that of a class with legible keys. Where a class has
    others, that one has more fields. -/
theorem exists_legible (c : ClassDef) : ∃ d : ClassDef, d.Legible ∧ d.signature = c.signature ∧
    c.fields.length ≤ d.fields.length ∧ (¬ c.Legible → c.fields.length < d.fields.length) := by
  have hfields : ∀ fs : List Field, ∃ gs : List Field, (∀ g ∈ gs, g.Legible) ∧
      gs.flatMap Field.text = fs.flatMap Field.text ∧ fs.length ≤ gs.length ∧
        (¬ (∀ f ∈ fs, f.Legible) → fs.length < gs.length) := by
    intro fs
    induction fs with
    | nil => exact ⟨[], fun g hg => absurd hg List.not_mem_nil, rfl, Nat.le_refl 0, fun h =>
        absurd (fun f hf => absurd hf List.not_mem_nil) h⟩
    | cons f fs ih =>
        rcases f.exists_legible with ⟨hs, hlegible, htext, hpos, hcut⟩
        rcases ih with ⟨gs, hlegible', htext', hle, hlt⟩
        refine ⟨hs ++ gs, fun g hg => ?_, ?_, ?_, fun hnot => ?_⟩
        · exact (List.mem_append.mp hg).elim (hlegible g) (hlegible' g)
        · rw [List.flatMap_append, htext, htext', List.flatMap_cons]
        · rw [List.length_append, List.length_cons]
          omega
        · rw [List.length_append, List.length_cons]
          by_cases hf : f.Legible
          · have hrest := hlt fun hall => hnot (List.forall_mem_cons.mpr ⟨hf, hall⟩)
            omega
          · have htwo := hcut hf
            omega
  rcases hfields c.fields with ⟨gs, hlegible, htext, hle, hlt⟩
  exact ⟨⟨c.id, c.name, gs⟩, hlegible, congrArg String.ofList htext, hle, hlt⟩

/-- Signatures tell classes with legible keys apart, and they do so for no other
    class: its signature is also that of one with more fields. -/
theorem signature_tells_apart (c d : ClassDef) :
    (c.Legible → d.Legible → (c.signature = d.signature ↔
        c.fields.length = d.fields.length ∧
          ∀ i (hi : i < c.fields.length) (hj : i < d.fields.length),
            c.fields[i].key = d.fields[i].key ∧ c.fields[i].slot.shape = d.fields[i].slot.shape ∧
              c.fields[i].slot.nullable = d.fields[i].slot.nullable)) ∧
      (¬ c.Legible → ∃ e : ClassDef, e.Legible ∧ e.signature = c.signature ∧
        c.fields.length < e.fields.length) := by
  refine ⟨fun hc hd => (signature_eq_iff_layout_eq hc hd).trans layout_eq_iff, fun hc => ?_⟩
  rcases exists_legible c with ⟨e, hlegible, hsig, _, hlt⟩
  exact ⟨e, hlegible, hsig, hlt hc⟩

/-- A class with one key that looks like a field and the beginning of another. -/
def oneField : ClassDef :=
  ⟨0, "P", [⟨"aIntB", "a:int;b", ⟨.primitive .int, false⟩⟩]⟩

/-- The class that it looks like. -/
def twoFields : ClassDef :=
  ⟨1, "Q", [⟨"a", "a", ⟨.primitive .int, false⟩⟩, ⟨"b", "b", ⟨.primitive .int, false⟩⟩]⟩

/-- Not every class is identified by its signature. -/
theorem not_forall_signature_tells_apart : ¬ ∀ c d : ClassDef, c.signature = d.signature ↔
    c.fields.length = d.fields.length ∧
      ∀ i (hi : i < c.fields.length) (hj : i < d.fields.length),
        c.fields[i].key = d.fields[i].key ∧ c.fields[i].slot.shape = d.fields[i].slot.shape ∧
          c.fields[i].slot.nullable = d.fields[i].slot.nullable := by
  intro h
  have hlength := ((h oneField twoFields).mp (by decide)).1
  exact absurd hlength (by decide)

/-- A semicolon in a key does not make it illegible, and the signature then
    shows the nullability. A key that is illegible is read as two. -/
theorem signature_tells_apart_semicolons :
    (ClassDef.mk 0 "A" [⟨"aB", "a;b", ⟨.primitive .int, false⟩⟩]).signature ≠
        (ClassDef.mk 1 "B" [⟨"aB", "a;b", ⟨.primitive .int, true⟩⟩]).signature ∧
      ∃ d : ClassDef, d.Legible ∧ d.signature = oneField.signature ∧ 1 < d.fields.length := by
  have hlegible : ∀ f : Field, f.key = "a;b" → f.Legible := fun f hf front s rest heq => by
    have hmem : ':' ∈ f.key.toList := heq ▸ List.mem_append_right _ List.mem_cons_self
    exact absurd (hf ▸ hmem) (by decide)
  refine ⟨fun heq => ?_, (signature_tells_apart oneField twoFields).2 fun h => ?_⟩
  · rw [(signature_tells_apart _ _).1 (fun f hf => hlegible f (by rw [List.mem_singleton.mp hf]))
      (fun f hf => hlegible f (by rw [List.mem_singleton.mp hf]))] at heq
    exact absurd (heq.2 0 (by decide) (by decide)).2.2 (by decide)
  · exact h _ List.mem_cons_self ['a'] ⟨.primitive .int, false⟩ ['b'] (by decide)

end ClassDef

end DartModels
