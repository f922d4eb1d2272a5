/-!
# Blank characters

Which characters count as empty space when a text is tested for being blank
or has its ends trimmed.

The class is the Unicode property `White_Space`, not the six ASCII blanks: an
option file that holds nothing but no-break spaces is as empty as one that
holds spaces, and a type name keeps no ideographic space at its end. The
property has twenty-five members, few enough to be written out as ranges.

Trimming is stated over lists of characters, because there both ends are
reached by `dropWhile` and every later argument is an argument about lists.

## Main definitions

* `isBlank`: Membership in `White_Space`.
* `isBlankText`: A text of blank characters only.
* `trim`: A text without the blank characters at its two ends.
-/

namespace DartModels

namespace Text

/-- Membership in the Unicode property `White_Space`. -/
def isBlank (c : Char) : Bool :=
  let n := c.toNat
  (0x09 ≤ n && n ≤ 0x0D) || n == 0x20 || n == 0x85 || n == 0xA0 || n == 0x1680 ||
    (0x2000 ≤ n && n ≤ 0x200A) || n == 0x2028 || n == 0x2029 || n == 0x202F ||
    n == 0x205F || n == 0x3000

/-- What is left of a text once its leading blanks are gone. -/
def trimStart (s : List Char) : List Char :=
  s.dropWhile isBlank

/-- What is left of a text once the blanks at both ends are gone. -/
def trimChars (s : List Char) : List Char :=
  (trimStart (trimStart s).reverse).reverse

/-- A text of blank characters only, the empty one among them. -/
def isBlankText (s : String) : Bool :=
  s.toList.all isBlank

/-- A text without the blank characters at its two ends. -/
def trim (s : String) : String :=
  String.ofList (trimChars s.toList)

end Text

end DartModels
