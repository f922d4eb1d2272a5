import DartModels.Dart.Source
import DartModels.Json.Reader

/-!
# String literals read back

What a literal stands for when the generated program is compiled.

A text of the program is a sequence of code units of sixteen bits, so that is
what a literal is read as. A character beyond the first plane stands for two of
them, and an escape with a number can stand for half of a pair. The reader below
knows every escape, not only those that are written: what matters is that a text
is read back among all the readings there are. It takes one character at a time
and keeps in its mode what it has seen of an escape. The numbers in braces are
why it has modes: they are of any length up to six digits, and what follows the
closing brace may be a digit again.

`take_literal` is by induction on the text, with one reading for each character
(`scan_escape`). It holds in front of whatever follows the literal, as long as
that is not a quote. Two quotes of an empty text and a third one would begin a
literal of several lines.

The second half is about the program. The expression that reads a field looks
into the decoded map under one literal only, the one of the key, however often
it looks; and the line that writes a field begins with it. As a literal tells its
text, fields with different keys do not get in each other's way.

## Main definitions

* `Literal.codeUnits`, `Literal.runes`: Characters as code units, and back.
* `Literal.scan`, `Literal.take`: The reader of literals.
* `Literal.Body`: Text between quotes on one line.
* `Expr.lookups`: The literals under which an expression looks into the map.
* `ReadUnder`, `WrittenUnder`: The literal that a field is read or written under.

## Theorems

* `runes_flatMap`: Code units tell the characters.
* `scan_escape`: One character is read back.
* `take_literal`: A literal is read back, and nothing behind it is taken.
* `literal_injective`: Different texts have different literals.
* `body_escape`: What is written for a text needs no other line and no quote.
* `mem_lookups_read`: A read looks into the map where its source does.
* `infix_render`: A lookup is spelled out.
* `literal_faithful`: Literals are on one line, stand for their text and keep the
  fields of a class apart.
-/

namespace DartModels

namespace Dart

namespace Literal

/-! ### Code units -/

/-- A character, given by its number, in code units of sixteen bits. -/
def codeUnits (n : Nat) : List Nat :=
  if n < 0x10000 then [n]
  else [0xD800 + (n - 0x10000) / 0x400, 0xDC00 + (n - 0x10000) % 0x400]

/-- The numbers of the characters that code units make up. Half of a pair that
    stands alone is kept. -/
def runes : List Nat → List Nat
  | [] => []
  | [u] => [u]
  | u :: v :: us =>
      if (0xD800 ≤ u ∧ u < 0xDC00) ∧ 0xDC00 ≤ v ∧ v < 0xE000 then
        (0x10000 + (u - 0xD800) * 0x400 + (v - 0xDC00)) :: runes us
      else u :: runes (v :: us)

/-- A unit that does not begin a pair is a character. -/
theorem runes_cons {u : Nat} (h : u < 0xD800 ∨ 0xDC00 ≤ u) (us : List Nat) :
    runes (u :: us) = u :: runes us := by
  cases us with
  | nil => rfl
  | cons v us => rw [runes, if_neg (by omega)]

/-- The code units of a character make up this character, whatever follows. -/
theorem runes_codeUnits (c : Char) (us : List Nat) :
    runes (codeUnits c.toNat ++ us) = c.toNat :: runes us := by
  have hvalid : c.toNat < 0xD800 ∨ 0xDFFF < c.toNat ∧ c.toNat < 0x110000 := c.valid
  unfold codeUnits
  split
  · exact runes_cons (by omega) us
  · -- The two halves of a pair hold the number again.
    have hpair : 0x10000 + (0xD800 + (c.toNat - 0x10000) / 0x400 - 0xD800) * 0x400 +
        (0xDC00 + (c.toNat - 0x10000) % 0x400 - 0xDC00) = c.toNat := by omega
    rw [List.cons_append, List.singleton_append, runes, if_pos (by omega), hpair]

/-- The code units of a text make up its characters. -/
theorem runes_flatMap (cs : List Char) :
    runes (cs.flatMap (codeUnits ·.toNat)) = cs.map Char.toNat := by
  induction cs with
  | nil => rfl
  | cons c cs ih => rw [List.flatMap_cons, runes_codeUnits, ih, List.map_cons]

/-! ### The reader -/

/-- Where in a literal the reader is. -/
inductive Mode where
  /-- Between characters. -/
  | text
  /-- Behind a backslash. -/
  | escape
  /-- Behind the letter of a number that may stand in braces. -/
  | number
  /-- In a number that has `left` digits to come. -/
  | digits (left value : Nat)
  /-- In a number in braces, behind `count` digits. -/
  | braces (count value : Nat)

/-- The number of the character that a letter behind a backslash stands for. A
    character without a meaning of its own stands for itself. -/
def meaning (c : Char) : Nat :=
  match c with
  | 'b' => 0x08
  | 't' => 0x09
  | 'n' => 0x0A
  | 'v' => 0x0B
  | 'f' => 0x0C
  | 'r' => 0x0D
  | c => c.toNat

/-- Put a character in front of what was read. -/
def push (n : Nat) (r : Option (List Nat × List Char)) : Option (List Nat × List Char) :=
  r.map fun (units, rest) => (codeUnits n ++ units, rest)

/-- Read a literal up to its closing quote: its code units, and what is behind
    it. There are none if the line ends before, if an escape has no meaning, or if
    the text is not fixed because something is interpolated. -/
def scan : Mode → List Char → Option (List Nat × List Char)
  | _, [] => none
  | .text, c :: cs =>
      if c = '\'' then some ([], cs)
      else if c = '\\' then scan .escape cs
      else if c = '$' ∨ c = '\n' ∨ c = '\r' then none
      else push c.toNat (scan .text cs)
  | .escape, c :: cs =>
      if c = 'x' then scan (.digits 2 0) cs
      else if c = 'u' then scan .number cs
      else if c = '\n' ∨ c = '\r' then none
      else push (meaning c) (scan .text cs)
  | .number, c :: cs =>
      if c = '\x7b' then scan (.braces 0 0) cs
      else (Json.Reader.hexValue c).bind fun d => scan (.digits 3 d) cs
  | .digits left value, c :: cs =>
      (Json.Reader.hexValue c).bind fun d =>
        if left ≤ 1 then push (16 * value + d) (scan .text cs)
        else scan (.digits (left - 1) (16 * value + d)) cs
  | .braces count value, c :: cs =>
      if c = '\x7d' then
        if count = 0 ∨ 0x10FFFF < value then none else push value (scan .text cs)
      else if count = 6 then none
      else (Json.Reader.hexValue c).bind fun d => scan (.braces (count + 1) (16 * value + d)) cs

/-- Take a literal on one line off the front of a text. Three quotes begin a
    literal of several lines. -/
def take : List Char → Option (List Nat × List Char)
  | '\'' :: '\'' :: '\'' :: _ => none
  | '\'' :: cs => scan .text cs
  | _ => none

/-! ### A text is read back -/

/-- A hexadecimal digit is read as its number, and is no brace. -/
theorem hexValue_digitChar : ∀ d < 16, Json.Reader.hexValue (Nat.digitChar d) = some d ∧
    Nat.digitChar d ≠ '\x7d' := by
  decide

/-- A digit in braces is added to the number. -/
theorem scan_digit {d count : Nat} (hd : d < 16) (hcount : count ≠ 6) (value : Nat)
    (cs : List Char) :
    scan (.braces count value) (Nat.digitChar d :: cs) =
      scan (.braces (count + 1) (16 * value + d)) cs := by
  obtain ⟨hvalue, hne⟩ := hexValue_digitChar d hd
  rw [scan, if_neg hne, if_neg hcount, hvalue, Option.bind_some]

/-- The closing brace ends the number. -/
theorem scan_close {value : Nat} (h : value < 0x100) (count : Nat) (cs : List Char) :
    scan (.braces (count + 1) value) ('\x7d' :: cs) = push value (scan .text cs) := by
  rw [scan, if_pos rfl, if_neg (by omega)]

/-- A control character has a number of at most two digits. -/
theorem toDigits_cases {n : Nat} (h : n < 0x100) :
    n < 16 ∧ Nat.toDigits 16 n = [Nat.digitChar n] ∨
      n / 16 < 16 ∧ n % 16 < 16 ∧
        Nat.toDigits 16 n = [Nat.digitChar (n / 16), Nat.digitChar (n % 16)] := by
  rcases Nat.lt_or_ge n 16 with hn | hn
  · exact Or.inl ⟨hn, Nat.toDigits_of_lt_base hn⟩
  · have htop : n / 16 < 16 := by omega
    refine Or.inr ⟨htop, Nat.mod_lt n (by decide), ?_⟩
    rw [Nat.toDigits_of_base_le (by decide) hn, Nat.toDigits_of_lt_base htop]
    rfl

/-- A number in braces is read as the number. -/
theorem scan_toDigits {n : Nat} (h : n < 0x100) (cs : List Char) :
    scan (.braces 0 0) (Nat.toDigits 16 n ++ '\x7d' :: cs) = push n (scan .text cs) := by
  rcases toDigits_cases h with ⟨hn, heq⟩ | ⟨htop, hlow, heq⟩
  · -- One digit, and then two.
    rw [heq, List.singleton_append, scan_digit hn (by decide), Nat.mul_zero, Nat.zero_add,
      Nat.zero_add, scan_close h]
  · rw [heq, List.cons_append, List.singleton_append, scan_digit htop (by decide),
      scan_digit hlow (by decide), Nat.mul_zero, Nat.zero_add, Nat.zero_add, Nat.div_add_mod,
      scan_close h]

/-- What is written for a character is read as the character, whatever follows. -/
theorem scan_escape (c : Char) (cs : List Char) :
    scan .text (escape c ++ cs) = push c.toNat (scan .text cs) := by
  unfold escape
  split
  case h_7 hb hq hd hn hr _ =>
    split
    · rename_i hlow
      simp only [List.append_assoc, List.cons_append, List.nil_append]
      -- A control character: the reader adds up its digits up to the brace.
      exact scan_toDigits (Nat.lt_trans hlow (by decide)) cs
    · -- A plain character, at which the reader stops for none of its reasons.
      rw [List.singleton_append, scan, if_neg hq, if_neg hb, if_neg]
      rintro (h | h | h)
      · exact hd h
      · exact hn h
      · exact hr h
  -- Each of the other characters has an escape of its own, which the reader knows.
  all_goals rfl

/-- Between the quotes every character of the text is read, and then the quote. -/
theorem scan_flatMap_escape (cs rest : List Char) :
    scan .text (cs.flatMap escape ++ '\'' :: rest) =
      some (cs.flatMap (codeUnits ·.toNat), rest) := by
  induction cs with
  | nil => rfl
  | cons c cs ih =>
      rw [List.flatMap_cons, List.append_assoc, scan_escape, ih]
      rfl

/-- Nothing that is written for a character begins with a quote. -/
theorem escape_head (c : Char) : ∃ d ds, escape c = d :: ds ∧ d ≠ '\'' := by
  unfold escape
  split
  case h_7 hq _ _ _ _ =>
    split
    · exact ⟨_, _, rfl, by decide⟩
    · exact ⟨_, _, rfl, hq⟩
  all_goals exact ⟨_, _, rfl, by decide⟩

/-- A literal is taken off the front of a text, whatever is behind it other than
    a quote. -/
theorem take_literal (s : String) {rest : List Char} (hrest : rest.head? ≠ some '\'') :
    take ((literal s).toList ++ rest) = some (s.toList.flatMap (codeUnits ·.toNat), rest) := by
  have hscan := scan_flatMap_escape s.toList rest
  have htext : (literal s).toList ++ rest =
      '\'' :: (s.toList.flatMap escape ++ '\'' :: rest) := by
    rw [literal, String.toList_ofList, List.cons_append, List.append_assoc, List.singleton_append]
  rw [htext, take, hscan]
  -- Three quotes in front would be an empty text and a quote behind it.
  intro more h
  cases hs : s.toList with
  | nil =>
      rw [hs] at h
      refine hrest ?_
      rw [(List.cons.inj h).2, List.head?_cons]
  | cons c cs =>
      obtain ⟨d, ds, hd, hne⟩ := escape_head c
      rw [hs, List.flatMap_cons, hd] at h
      exact hne (List.cons.inj h).1

/-- The characters that a literal stands for are the text. -/
theorem literal_injective {s t : String} (h : literal s = literal t) : s = t := by
  have hs : take ((literal s).toList ++ []) = _ := take_literal s (by decide)
  have ht : take ((literal t).toList ++ []) = _ := take_literal t (by decide)
  rw [h, ht] at hs
  -- One text was taken off the front, so the code units are the same, and so the
  -- characters.
  have hunits := congrArg runes (Prod.mk.inj (Option.some.inj hs)).1
  rw [runes_flatMap, runes_flatMap, List.map_inj_right fun _ _ => Char.toNat_inj.mp] at hunits
  exact (String.toList_inj.mp hunits).symm

/-! ### One line -/

/-- A character that stands for itself between single quotes on one line. -/
def Plain (c : Char) : Prop :=
  c ≠ '\'' ∧ c ≠ '\\' ∧ c ≠ '$' ∧ 0x20 ≤ c.toNat

instance : DecidablePred Plain :=
  fun _ => inferInstanceAs (Decidable (_ ∧ _))

/-- Text between single quotes on one line. A quote or a dollar sign stands behind
    a backslash, a backslash has its character behind it, and no control character
    occurs. -/
inductive Body : List Char → Prop where
  | nil : Body []
  | plain {c : Char} {cs : List Char} (hc : Plain c) (h : Body cs) : Body (c :: cs)
  | escaped {c : Char} {cs : List Char} (hc : 0x20 ≤ c.toNat) (h : Body cs) :
      Body ('\\' :: c :: cs)

/-- A literal in single quotes on one line. -/
def OneLine (text : String) : Prop :=
  ∃ body, Body body ∧ text.toList = '\'' :: (body ++ ['\''])

/-- Plain characters may stand in front. -/
theorem Body.append_plain {cs ds : List Char} (hcs : ∀ c ∈ cs, Plain c) (h : Body ds) :
    Body (cs ++ ds) := by
  induction cs with
  | nil => exact h
  | cons c cs ih =>
      exact .plain (hcs c List.mem_cons_self) (ih fun d hd => hcs d (List.mem_cons_of_mem c hd))

/-- A hexadecimal digit is plain. -/
theorem plain_digitChar : ∀ d < 16, Plain (Nat.digitChar d) := by
  decide

/-- The digits of a control character are plain. -/
theorem plain_toDigits {n : Nat} (h : n < 0x100) {c : Char} (hc : c ∈ Nat.toDigits 16 n) :
    Plain c := by
  rcases toDigits_cases h with ⟨hn, heq⟩ | ⟨htop, hlow, heq⟩
  · rw [heq, List.mem_singleton] at hc
    exact hc ▸ plain_digitChar n hn
  · rw [heq, List.mem_cons, List.mem_singleton] at hc
    rcases hc with rfl | rfl
    · exact plain_digitChar _ htop
    · exact plain_digitChar _ hlow

/-- What is written for a character keeps the literal on its line. -/
theorem body_escape (c : Char) {cs : List Char} (h : Body cs) : Body (escape c ++ cs) := by
  unfold escape
  split
  case h_7 hb hq hd _ _ _ =>
    split
    · rename_i hlow
      simp only [List.append_assoc, List.cons_append, List.nil_append]
      refine .escaped (by decide) (.plain (by decide) ?_)
      exact .append_plain (fun _ => plain_toDigits (Nat.lt_trans hlow (by decide)))
        (.plain (by decide) h)
    · rename_i hhigh
      exact .plain ⟨hq, hb, hd, Nat.le_of_not_lt hhigh⟩ h
  all_goals exact .escaped (by decide) h

/-- So the literal of a text is on one line. -/
theorem oneLine_literal (s : String) : OneLine (literal s) := by
  refine ⟨s.toList.flatMap escape, ?_, by rw [literal, String.toList_ofList]⟩
  induction s.toList with
  | nil => exact .nil
  | cons c cs ih => exact body_escape c ih

end Literal

/-! ### The literals of a class -/

/-- The literals under which an expression looks into the decoded map. -/
def Expr.lookups : Expr → List String
  | .var _ => []
  | .entry key => [literal key]
  | .cast e _ => e.lookups
  | .toDouble e _ => e.lookups
  | .toJson e _ => e.lookups
  | .fromJson _ e => e.lookups
  | .unlessNull subject body => subject.lookups ++ body.lookups
  | .mapList e _ _ body => e.lookups ++ body.lookups

/-- A read looks into the map where its source does. The elements of a list come
    from a variable, so no further lookup is made for them. -/
theorem mem_lookups_read (o : Options) (c : Catalog) (shape : Shape) (source : Expr)
    (depth : Nat) (nullable : Bool) (l : String) :
    l ∈ (read o c source depth nullable shape).lookups ↔ l ∈ source.lookups := by
  induction shape generalizing source depth nullable with
  | primitive p =>
      cases p with
      | bool | int | double | string => exact Iff.rfl
      | null | dynamic =>
          rw [read, read.placeholder]
          split <;> exact Iff.rfl
  | ref id =>
      rw [read]
      split
      · simp only [Expr.lookups, List.mem_append, or_self]
      · simp only [Expr.lookups]
  | list item itemNullable ih =>
      simp only [read, Expr.lookups, List.mem_append, ih, List.not_mem_nil, or_false]

/-- A field is looked up under the literal of its key, and under nothing else. -/
theorem mem_lookups_readField {o : Options} {c : Catalog} {f : Field} {l : String} :
    l ∈ (readField o c f).lookups ↔ l = literal f.key := by
  rw [readField, mem_lookups_read, Expr.lookups, List.mem_singleton]

/-- A part of a text is one of a longer text. -/
theorem infix_append_left {cs : List Char} {s : String} (h : cs <:+: s.toList) (t : String) :
    cs <:+: (s ++ t).toList := by
  rw [String.toList_append]
  exact h.trans (List.prefix_append _ _).isInfix

/-- And so if the text grows in front. -/
theorem infix_append_right {cs : List Char} {t : String} (h : cs <:+: t.toList) (s : String) :
    cs <:+: (s ++ t).toList := by
  rw [String.toList_append]
  exact h.trans (List.suffix_append _ _).isInfix

/-- And so in parentheses. -/
theorem infix_parens {cs : List Char} {s : String} (h : cs <:+: s.toList) (on : Bool) :
    cs <:+: (Expr.parens on s).toList := by
  rw [Expr.parens]
  split
  · exact infix_append_left (infix_append_right h _) _
  · exact h

/-- A lookup is spelled out in the text of the expression. -/
theorem Expr.infix_render {e : Expr} {l : String} (h : l ∈ e.lookups) :
    ("json[" ++ l ++ "]").toList <:+: e.render.toList := by
  induction e with
  | var x => exact absurd h List.not_mem_nil
  | entry key =>
      rw [List.mem_singleton.mp h]
      exact List.infix_rfl
  | cast e type ih => exact infix_append_left (infix_append_left (ih h) _) _
  | toDouble e access ih =>
      exact infix_append_left (infix_append_left (infix_parens (ih h) _) _) _
  | toJson e access ih =>
      exact infix_append_left (infix_append_left (infix_parens (ih h) _) _) _
  | fromJson name e ih => exact infix_append_left (infix_append_right (ih h) _) _
  | unlessNull subject body ihs ihb =>
      rcases List.mem_append.mp h with h | h
      · exact infix_append_left (infix_append_left (ihs h) _) _
      · exact infix_append_right (ihb h) _
  | mapList e access x body ihe ihb =>
      -- The list comes first and the body behind the arrow, so a lookup of either is
      -- inside.
      have hrender : (mapList e access x body).render =
          parens e.isCast e.render ++ (access.first ++ "map((" ++ x ++ ") => " ++
            (body.render ++ (")" ++ access.later ++ "toList()"))) := by
        simp only [render, String.append_assoc]
      rw [hrender]
      rcases List.mem_append.mp h with h | h
      · exact infix_append_left (infix_parens (ihe h) _) _
      · exact infix_append_right (infix_append_right (infix_append_left (ihb h) _) _) _

/-- The factory of a class reads a field under this literal and no other. -/
structure ReadUnder (o : Options) (c : Catalog) (d : ClassDef) (f : Field) (l : String) :
    Prop where
  line : ⟨3, s!"{f.name}: {(readField o c f).render},"⟩ ∈ fromJsonLines o c d
  lookups : ∀ l', l' ∈ (readField o c f).lookups ↔ l' = l
  spelled : ("json[" ++ l ++ "]").toList <:+: (readField o c f).render.toList

/-- The method that writes JSON writes a field under this literal. -/
def WrittenUnder (o : Options) (d : ClassDef) (f : Field) (l : String) : Prop :=
  ⟨3, l ++ ": " ++ (writeField o f).render ++ ","⟩ ∈ toJsonLines o d

/-- A field is read under the literal of its key. -/
theorem readUnder_literal (o : Options) (c : Catalog) {d : ClassDef} {f : Field}
    (h : f ∈ d.fields) : ReadUnder o c d f (literal f.key) where
  line := by
    have hne : d.fields.isEmpty = false := List.isEmpty_eq_false_iff_exists_mem.mpr ⟨f, h⟩
    rw [fromJsonLines, hne]
    simp only [Bool.false_eq_true, if_false, List.mem_append]
    exact .inl (.inr (.inl (.inr (List.mem_map_of_mem h))))
  lookups _ := mem_lookups_readField
  spelled := Expr.infix_render (mem_lookups_readField.mpr rfl)

/-- It is written under the same. -/
theorem writtenUnder_literal (o : Options) {d : ClassDef} {f : Field} (h : f ∈ d.fields) :
    WrittenUnder o d f (literal f.key) := by
  have hne : d.fields.isEmpty = false := List.isEmpty_eq_false_iff_exists_mem.mpr ⟨f, h⟩
  rw [WrittenUnder, toJsonLines, hne]
  simp only [Bool.false_eq_true, if_false, List.mem_append]
  exact .inl (.inr (.inl (.inr (List.mem_map_of_mem h))))

/-- A text is written as a literal on one line that stands for the text, and
    nothing behind the literal is taken for a part of it. So fields of a class with
    different keys are read and written under different literals. -/
theorem literal_faithful (s : String) (o : Options) (c : Catalog) (d : ClassDef) :
    Literal.OneLine (literal s) ∧
    (∃ units, Literal.runes units = s.toList.map Char.toNat ∧
      ∀ rest : List Char, rest.head? ≠ some '\'' →
        Literal.take ((literal s).toList ++ rest) = some (units, rest)) ∧
    ∀ f ∈ d.fields, ∀ g ∈ d.fields, f.key ≠ g.key →
      ∃ l l', l ≠ l' ∧ ReadUnder o c d f l ∧ WrittenUnder o d f l ∧
        ReadUnder o c d g l' ∧ WrittenUnder o d g l' := by
  refine ⟨Literal.oneLine_literal s, ⟨_, Literal.runes_flatMap s.toList, ?_⟩, ?_⟩
  · exact fun rest hrest => Literal.take_literal s hrest
  · intro f hf g hg hkey
    exact ⟨literal f.key, literal g.key, fun h => hkey (Literal.literal_injective h),
      readUnder_literal o c hf, writtenUnder_literal o hf, readUnder_literal o c hg,
      writtenUnder_literal o hg⟩

/-- A class with keys that hold a dollar sign, a quote and a control character in
    front of a digit. -/
def specialKeys : ClassDef :=
  ⟨0, "Price", [⟨"price", "$price", ⟨.primitive .int, false⟩⟩,
    ⟨"itS1", "it's\x011", ⟨.list (.primitive .string) false, true⟩⟩]⟩

/-- The text of the second key, and the two fields under different literals. -/
theorem literal_faithful_specialKeys :
    literal "it's\x011" = "'it\\'s\\u\x7b1\x7d1'" ∧
    (∃ units, Literal.runes units = "it's\x011".toList.map Char.toNat ∧
      Literal.take ((literal "it's\x011").toList ++ [']']) = some (units, [']'])) ∧
    ∃ f g l l', specialKeys.fields = [f, g] ∧ l ≠ l' ∧
      ReadUnder {} (.ofTable .empty 0) specialKeys f l ∧ WrittenUnder {} specialKeys f l ∧
      ReadUnder {} (.ofTable .empty 0) specialKeys g l' ∧ WrittenUnder {} specialKeys g l' := by
  obtain ⟨-, ⟨units, hrunes, hread⟩, hfields⟩ :=
    literal_faithful "it's\x011" {} (.ofTable .empty 0) specialKeys
  obtain ⟨l, l', hl⟩ := hfields _ List.mem_cons_self _ (.tail _ List.mem_cons_self) (by decide)
  exact ⟨by decide +kernel, ⟨units, hrunes, hread [']'] (by decide)⟩, _, _, l, l', rfl, hl⟩

end Dart
end DartModels
