import DartModels.Proofs.FileNames

/-!
# Letters and digits

What is left of a text in the names that are made of it.

Names are made of words, and words of letters and digits. None of these is lost on
the way and none is added, so names of every kind are spelled alike: with the letters
and digits of the text, in order. They differ in where they have their capitals and
in a few marks, and the marks can be told without the name. Whether a letter stands
in front depends on the first of these letters and digits, and an underscore behind a
field name is there if the rest of it is reserved.

That nothing is lost would also be true if every letter were a word of its own, or if
there were only one word. So it is said as well where the words are cut. Two parts of
a text are read as if each stood alone exactly if there is a border between them: a
character that is no letter or digit, or a case that opens a word. What makes this
more than a look at the rule is that the rule looks ahead. The last character of the
first part is judged by the one behind it, which is in the other part. But only a
small letter makes a difference there, and no border is in front of a small letter
unless something separates it anyway.

## Main definitions

* `Text.letters`: The letters and digits of a text.
* `Text.Words.Border`: That no word goes on from one text to the next.
* `Identifier.digitMark`: The letter in front of a name.

## Theorems

* `Text.Words.scan_append_border`: What is read up to a border.
* `Text.Words.flatten_ne_of_scan_eq_append`: No word ends elsewhere.
* `Text.Words.split_append_iff`: Which parts of a text are read separately.
* `Identifier.fieldName_eq`, `Identifier.typeName_eq`, `Identifier.filter_fileStem`:
  The letters of a name.
* `Identifier.names_spell_letters`: All of this for one text.
-/

namespace DartModels

namespace Text

/-- The letters and digits of a text, in order. -/
def letters (s : String) : List Char :=
  s.toList.filter Char.isAlphanum

namespace Words

/-! ### Borders -/

/-- No word goes on from one text to the next: on one of the two sides there is no
    letter or digit, or the case opens a word. -/
def Border (front back : List Char) : Prop :=
  ∀ prev c rest, front.getLast? = some prev → back = c :: rest → prev.isAlphanum = true →
    c.isAlphanum = true → opens prev c rest = true

section Border

variable {front back : List Char} {c : Char}

/-- Only the end of the front matters. -/
theorem border_append (word : List Char) (hne : front ≠ []) :
    Border (word ++ front) back ↔ Border front back := by
  rw [Border, Border, List.getLast?_append_of_ne_nil _ hne]

/-- A separator at the beginning of the front does not matter. -/
theorem border_separator (hc : ¬ c.isAlphanum = true) :
    Border (c :: front) back ↔ Border front back := by
  cases front with
  | nil =>
      -- Nothing goes on behind a separator, and nothing goes on behind nothing.
      refine ⟨fun _ _ _ _ hl => (nomatch hl), fun _ prev d rest hl _ hprev => ?_⟩
      cases hl
      exact absurd hprev hc
  | cons d front => exact border_append [c] (List.cons_ne_nil d front)

/-- To look ahead over a border makes no difference. -/
theorem opens_append (prev : Char) (h : Border (c :: front) back) (hc : c.isAlphanum = true) :
    opens prev c (front ++ back) = opens prev c front := by
  cases front with
  | cons d front => rfl
  | nil =>
      cases back with
      | nil => rfl
      | cons d rest =>
          -- Without the other part there would be no small letter to see either.
          have hd : d.isLower = false := by
            by_cases hal : d.isAlphanum = true
            · have hopens := h c d rest rfl rfl hc hal
              rw [opens, Bool.and_eq_true] at hopens
              exact isLower_eq_false_of_isUpper hopens.1
            · grind [Char.isAlphanum, Char.isAlpha]
          simp [opens, hd]

/-- An open word is closed by a border. -/
theorem scan_border {word : List Char} (halnum : ∀ d ∈ word, d.isAlphanum = true)
    (h : Border word back) : scan word back = close word ++ split back := by
  cases back with
  | nil => exact (List.append_nil _).symm
  | cons c rest =>
      rcases scan_cases word c rest with ⟨hc, heq⟩ | ⟨hc, ⟨prev, hl, _, heq⟩ | ⟨hstays, _⟩⟩
      · rw [heq, split, split, scan_separator hc]
        rfl
      · have hne : word ≠ [] := List.ne_nil_of_mem (List.mem_of_getLast? hl)
        rw [heq, split_cons hc, close, if_neg (by simpa using hne), List.singleton_append]
      · -- At a border a letter or digit ends the word that is open, so none is open.
        have hnil : word = [] := by
          cases hl : word.getLast? with
          | none => exact List.getLast?_eq_none_iff.mp hl
          | some prev =>
              have hprev := halnum prev (List.mem_of_getLast? hl)
              exact absurd (h prev c rest hl rfl hprev hc) (hstays prev hl)
        rw [hnil]
        rfl

/-- Up to a border the words are those of the text in front of it. -/
theorem scan_append_border (word : List Char) (halnum : ∀ d ∈ word, d.isAlphanum = true)
    (h : Border (word ++ front) back) :
    scan word (front ++ back) = scan word front ++ split back := by
  induction front generalizing word with
  | nil =>
      rw [List.append_nil] at h
      -- Nothing is in front of the border but the open word.
      rw [List.nil_append, scan_border halnum h, scan]
  | cons c front ih =>
      rw [border_append word (List.cons_ne_nil c front)] at h
      rw [List.cons_append]
      rcases scan_cases word c front with ⟨hc, heq⟩ | ⟨hc, ⟨prev, hl, ho, heq⟩ | ⟨hstays, heq⟩⟩
      · -- A separator closes the open word, a letter or digit opens one or goes on with it.
        rw [scan_separator hc, heq, List.append_assoc]
        rw [border_separator hc] at h
        exact congrArg (close word ++ ·) (ih [] (by simp) h)
      · have hsingle : ∀ d ∈ [c], d.isAlphanum = true := by simpa using hc
        rw [scan_opens hc hl ((opens_append prev h hc).trans ho), heq, ih [c] hsingle h,
          List.cons_append]
      · rw [scan_grows hc fun prev hl => by rw [opens_append prev h hc]; exact hstays prev hl, heq]
        refine ih (word ++ [c]) (by simpa [or_imp, forall_and, hc] using halnum) ?_
        rwa [List.append_assoc, List.singleton_append,
          border_append word (List.cons_ne_nil c front)]

end Border

/-! ### No other cuts -/

/-- The word that is open is a beginning of the first word. -/
theorem exists_scan_eq_cons {word : List Char} (hne : word ≠ []) (s : List Char) :
    ∃ more ws, scan word s = (word ++ more) :: ws := by
  induction s generalizing word with
  | nil => exact ⟨[], [], by simp [scan, close, hne]⟩
  | cons c rest ih =>
      rcases scan_cases word c rest with ⟨_, heq⟩ | ⟨_, ⟨_, _, _, heq⟩ | ⟨_, heq⟩⟩
      · exact ⟨[], split rest, by simp [heq, close, hne]⟩
      · exact ⟨[], _, by rw [heq, List.append_nil]⟩
      · rcases ih (List.concat_ne_nil c word) with ⟨more, ws, hscan⟩
        exact ⟨[c] ++ more, ws, by rw [heq, hscan, List.append_assoc]⟩

/-- If no row of the later words ends somewhere, no row with the first word does. -/
theorem flatten_ne_of_cons {word l : List Char} {tail ws vs : List (List Char)}
    (hne : word ≠ []) (htail : ∀ us, tail = us ++ vs → us.flatten ≠ l)
    (heq : word :: tail = ws ++ vs) : ws.flatten ≠ word ++ l := by
  cases ws with
  | nil => simp [hne]
  | cons w ws =>
      rw [List.cons_append, List.cons.injEq] at heq
      rw [List.flatten_cons, ← heq.1, Ne, List.append_cancel_left_eq]
      exact htail ws heq.2

/-- Where there is no border no word ends. -/
theorem flatten_ne_of_scan_eq_append (word : List Char) {front back : List Char}
    (h : ¬ Border (word ++ front) back) {ws vs : List (List Char)}
    (heq : scan word (front ++ back) = ws ++ vs) :
    ws.flatten ≠ word ++ front.filter Char.isAlphanum := by
  induction front generalizing word ws with
  | nil =>
      -- The character behind the front goes on with the open word.
      simp only [Border, List.append_nil, not_forall] at h
      rcases h with ⟨prev, c, rest, hl, rfl, _, hc, ho⟩
      have hstays : ∀ p, word.getLast? = some p → ¬ opens p c rest = true := fun p hp =>
        Option.some.inj (hl.symm.trans hp) ▸ ho
      rcases exists_scan_eq_cons (List.concat_ne_nil c word) rest with ⟨more, ws', hscan⟩
      rw [List.nil_append, scan_grows hc hstays, hscan] at heq
      intro hflat
      cases ws with
      | nil =>
          have hnil : word = [] := (List.append_eq_nil_iff.mp hflat.symm).1
          exact List.ne_nil_of_mem (List.mem_of_getLast? hl) hnil
      | cons w ws =>
          rw [List.cons_append, List.cons.injEq] at heq
          -- The first word is longer than the front, so no row of words ends there.
          have hlen := congrArg List.length hflat
          simp only [← heq.1, List.flatten_cons, List.filter_nil, List.length_append,
            List.length_singleton, List.length_nil] at hlen
          omega
  | cons c front ih =>
      rw [border_append word (List.cons_ne_nil c front)] at h
      rw [List.cons_append] at heq
      -- Up to the last character of the front the induction goes along the run.
      rcases scan_cases word c (front ++ back) with ⟨hc, hread⟩ | ⟨hc, hread⟩
      · rw [border_separator hc] at h
        rw [hread] at heq
        rw [List.filter_cons_of_neg hc]
        cases word with
        | nil => exact ih [] h heq
        | cons a word =>
            exact flatten_ne_of_cons (List.cons_ne_nil a word)
              (fun us hus => ih [] h hus) heq
      · have hfilter :
            (c :: front).filter Char.isAlphanum = [c] ++ front.filter Char.isAlphanum := by
          rw [List.filter_cons_of_pos hc, List.singleton_append]
        rw [hfilter]
        rcases hread with ⟨prev, hl, _, hread⟩ | ⟨_, hread⟩
        · have hne : word ≠ [] := List.ne_nil_of_mem (List.mem_of_getLast? hl)
          rw [hread] at heq
          exact flatten_ne_of_cons hne (fun us hus => ih [c] h hus) heq
        · rw [hread] at heq
          rw [← List.append_assoc]
          refine ih (word ++ [c]) ?_ heq
          rwa [List.append_assoc, List.singleton_append,
            border_append word (List.cons_ne_nil c front)]

/-- Two parts of a text are read separately exactly if there is a border between
    them. -/
theorem split_append_iff {front back : List Char} :
    split (front ++ back) = split front ++ split back ↔ Border front back := by
  constructor
  · intro heq
    by_contra h
    exact flatten_ne_of_scan_eq_append [] h heq (flatten_split front)
  · exact scan_append_border [] (by simp)

end Words

/-! ### Capitals -/

/-- Small letters are made one by one. -/
theorem lowercase_append (s t : List Char) : lowercase (s ++ t) = lowercase s ++ lowercase t :=
  List.map_append

/-- They are small already. -/
theorem lowercase_lowercase (s : List Char) : lowercase (lowercase s) = lowercase s := by
  rw [lowercase, lowercase, List.map_map]
  exact List.map_congr_left fun c _ => Char.toLower_toLower_eq_toLower c

/-- A character is a digit exactly if its small form is one. -/
theorem isDigit_toLower (c : Char) : c.toLower.isDigit = c.isDigit := by
  by_cases hu : c.isUpper = true
  · have hlower : c.toLower.isLower = true := by
      rw [Char.isLower_toLower_eq_isAlpha, Char.isAlpha, hu, Bool.true_or]
    rw [isDigit_eq_false_of_isUpper hu]
    grind [Char.isLower, Char.isDigit]
  · rw [Char.toLower_eq_of_not_isUpper hu]

end Text

namespace Identifier

open Text

/-- With a capital for each word the letters are the same. -/
theorem lowercase_upperCamel (ws : List (List Char)) :
    lowercase (upperCamel ws) = lowercase ws.flatten := by
  induction ws with
  | nil => rfl
  | cons w ws ih =>
      rw [List.flatten_cons, lowercase_append, ← ih, ← lowercase_capitalize w, ← lowercase_append]
      rfl

/-- With a capital for each word but the first they are too. -/
theorem lowercase_lowerCamel (ws : List (List Char)) :
    lowercase (lowerCamel ws) = lowercase ws.flatten := by
  cases ws with
  | nil => rfl
  | cons w ws =>
      rw [List.flatten_cons, lowercase_append, ← lowercase_upperCamel, lowerCamel,
        lowercase_append, lowercase_lowercase]
      rfl

/-! ### Marks -/

/-- The letter that stands in front of a name if it would begin with a digit. -/
def digitMark (letter : Char) (name : List Char) : List Char :=
  if name.head?.any Char.isDigit then [letter] else []

/-- The guard puts its letter in front, or nothing. -/
theorem guardDigit_eq (letter : Char) (name : List Char) :
    guardDigit letter name = digitMark letter name ++ name := by
  cases name with
  | nil => rfl
  | cons c rest => by_cases hc : c.isDigit = true <;> simp [guardDigit, digitMark, hc]

/-- Capitals make no difference to whether a name begins with a digit. -/
theorem digitMark_eq_of_lowercase_eq (letter : Char) {name s : List Char}
    (h : lowercase name = lowercase s) : digitMark letter name = digitMark letter s := by
  have hhead (l : List Char) : l.head?.any Char.isDigit = (lowercase l).head?.any Char.isDigit := by
    rw [lowercase, List.head?_map]
    cases l.head? with
    | none => rfl
    | some c => exact (isDigit_toLower c).symm
  rw [digitMark, digitMark, hhead name, hhead s, h]

/-- Without what was put between them the pieces are as they were. -/
theorem filter_intercalate {x : Char} {ls : List (List Char)} (h : ∀ l ∈ ls, x ∉ l) :
    ([x].intercalate ls).filter (· ≠ x) = ls.flatten := by
  induction ls with
  | nil => rfl
  | cons l ls ih =>
      rw [List.forall_mem_cons] at h
      have hl : l.filter (· ≠ x) = l :=
        List.filter_eq_self.mpr fun c hc => decide_eq_true fun hcx => h.1 (hcx ▸ hc)
      cases ls with
      | nil => rw [List.intercalate_singleton, hl, List.flatten_singleton]
      | cons m ls =>
          rw [List.intercalate_cons_cons, List.filter_append, List.filter_append, ih h.2, hl]
          simp

/-! ### Names -/

/-- In camel case the letters and digits of a text are all there, and no others. -/
theorem lowercase_lowerCamel_words (key : String) :
    lowercase (lowerCamel (words key)) = lowercase (letters key) := by
  rw [lowercase_lowerCamel, words, Words.flatten_split, letters]

/-- The same with a capital at the front. -/
theorem lowercase_upperCamel_words (key : String) :
    lowercase (upperCamel (words key)) = lowercase (letters key) := by
  rw [lowercase_upperCamel, words, Words.flatten_split, letters]

/-- A name that is spelled with some letters has one. -/
theorem ne_nil_of_lowercase_eq {name s : List Char} (h : lowercase name = lowercase s)
    (hs : s ≠ []) : name ≠ [] := by
  rintro rfl
  exact hs (List.map_eq_nil_iff.mp h.symm)

/-- A field name is spelled with the letters and digits of its key, behind the mark and
    inside the guard against reserved words. -/
theorem fieldName_eq {key : String} (h : letters key ≠ []) :
    ∃ name, lowercase name = lowercase (letters key) ∧
      fieldName key = guardReserved (String.ofList (digitMark 'n' (letters key) ++ name)) := by
  have hlower := lowercase_lowerCamel_words key
  refine ⟨lowerCamel (words key), hlower, ?_⟩
  rw [fieldName, ← digitMark_eq_of_lowercase_eq 'n' hlower, ← guardDigit_eq]
  split
  · next hnil => exact absurd hnil (ne_nil_of_lowercase_eq hlower h)
  · rfl

/-- A class name is spelled with the letters and digits, behind the mark. -/
theorem typeName_eq {key : String} (h : letters key ≠ []) (fallback : String) :
    ∃ name, lowercase name = lowercase (letters key) ∧
      typeName key fallback = String.ofList (digitMark 'N' (letters key) ++ name) := by
  have hlower := lowercase_upperCamel_words key
  have hne : (upperCamel (words key)).isEmpty = false :=
    List.isEmpty_eq_false_iff.mpr (ne_nil_of_lowercase_eq hlower h)
  refine ⟨upperCamel (words key), hlower, ?_⟩
  simp only [typeName, hne, Bool.false_eq_true, if_false, guardDigit_eq,
    digitMark_eq_of_lowercase_eq 'N' hlower]

/-- A file name is spelled with the letters and digits, around its underscores. -/
theorem filter_fileStem (name : String) :
    (fileStem name).toList.filter (· ≠ '_') = lowercase (letters name) := by
  have hscore : ∀ w ∈ (words name).map lowercase, '_' ∉ w := fun w hw hmem =>
    absurd (isAlphanum_of_mem_lowercase hw hmem) (by decide)
  rw [toList_fileStem, filter_intercalate hscore, letters, ← Words.flatten_split, lowercase,
    List.map_flatten]
  rfl

/-- The words of a text are its letters and digits in order, cut exactly at its
    borders. So if there are any, each kind of name is spelled with them, whatever
    its capitals: a field name between a letter that keeps a digit from the front and
    an underscore that keeps the name from being reserved, a class name behind such a
    letter, and a file name around its underscores. -/
theorem names_spell_letters (key fallback : String) :
    (∀ w ∈ words key, w ≠ []) ∧ (words key).flatten = letters key ∧
      (∀ front back : String, key = front ++ back →
        (words key = words front ++ words back ↔ Words.Border front.toList back.toList)) ∧
      (letters key ≠ [] →
        (∃ name base, lowercase name = lowercase (letters key) ∧
          base = String.ofList (digitMark 'n' (letters key) ++ name) ∧
          (fieldName key = base ∧ isReserved base = false ∨
            fieldName key = base ++ "_" ∧ isReserved base = true)) ∧
        (∃ name, lowercase name = lowercase (letters key) ∧
          typeName key fallback = String.ofList (digitMark 'N' (letters key) ++ name)) ∧
        lowercase ((fileStem key).toList.filter (· ≠ '_')) = lowercase (letters key)) := by
  refine ⟨fun w hw => Words.ne_nil_of_mem_split hw, Words.flatten_split key.toList, ?_, ?_⟩
  · rintro front back rfl
    rw [words, String.toList_append]
    exact Words.split_append_iff
  · intro h
    refine ⟨?_, typeName_eq h fallback, by rw [filter_fileStem, lowercase_lowercase]⟩
    rcases fieldName_eq h with ⟨name, hname, heq⟩
    refine ⟨name, _, hname, rfl, ?_⟩
    rw [heq, guardReserved]
    -- The guard against reserved words puts an underscore behind such a name.
    by_cases hres : isReserved (String.ofList (digitMark 'n' (letters key) ++ name)) = true
    · exact Or.inr ⟨if_pos hres, hres⟩
    · exact Or.inl ⟨if_neg hres, Bool.not_eq_true _ ▸ hres⟩

/-- A key that begins with a digit. The last of its capitals belongs to the word behind
    it, and the one before does not. -/
theorem names_spell_letters_acronym :
    letters "2nd HTTPStatus" = "2ndHTTPStatus".toList ∧
      Words.Border "2nd HTTP".toList "Status".toList ∧
      ¬ Words.Border "2nd HTT".toList "PStatus".toList ∧
      ∃ name, lowercase name = "2ndhttpstatus".toList ∧
        typeName "2nd HTTPStatus" "Item" = String.ofList ('N' :: name) := by
  have hletters : letters "2nd HTTPStatus" = "2ndHTTPStatus".toList := by decide +kernel
  rcases names_spell_letters "2nd HTTPStatus" "Item" with ⟨_, _, hborder, hnames⟩
  rcases (hnames (by rw [hletters]; decide)).2.1 with ⟨name, hname, htype⟩
  rw [hletters] at hname htype
  -- At one place the words of the two parts are the words of the key, at the other they are
  -- not.
  have hend := (hborder "2nd HTTP" "Status" (by decide +kernel)).mp (by decide +kernel)
  have hinside := mt (hborder "2nd HTT" "PStatus" (by decide +kernel)).mpr (by decide +kernel)
  exact ⟨hletters, hend, hinside, name, hname, htype⟩

end Identifier

end DartModels
