import DartModels.Proofs.FieldNames

/-!
# Names of files

When two classes have the same file.

The file of a class is called after the words of its name. A class name has the
words run together, each with a capital, and the words are read off it again by
the capitals. This works where a name is written with one capital to a word. A
name like `AB`, which stems from the two words `a` and `b`, is read as one word,
and then it has the file of the class `Ab`.

What is lost is exactly what is lost when a class name is made of the class name.
That name has the same words, and it has one capital to each of them, so it is
read as it was written. Two classes have the same file exactly if these names are
the same.

## Main definitions

* `Text.Words.Meets`: Two words whose border shows in the case.

## Theorems

* `Text.Words.split_camel`: Words that are read off capitals are read off them
  once more.
* `Identifier.fileStem_eq_iff`: Which classes have the same file.
* `Identifier.slash_not_mem_fileStem`: A file is not a path.
-/

namespace DartModels

namespace Text

/-- A capital is not a small letter. -/
theorem isLower_eq_false_of_isUpper {c : Char} (h : c.isUpper = true) : c.isLower = false := by
  grind [Char.isUpper, Char.isLower]

/-- A capital is not a digit. -/
theorem isDigit_eq_false_of_isUpper {c : Char} (h : c.isUpper = true) : c.isDigit = false := by
  grind [Char.isUpper, Char.isDigit]

/-- Capitals at the front make no difference to the word in small letters. -/
theorem lowercase_capitalize (word : List Char) : lowercase (capitalize word) = lowercase word := by
  cases word with
  | nil => rfl
  | cons c rest => simp [capitalize, lowercase, Char.toLower_toUpper_eq_toLower,
      Char.toLower_toLower_eq_toLower]

/-- To put a word in capitals, its own capitals make no difference. -/
theorem capitalize_lowercase (word : List Char) :
    capitalize (lowercase word) = capitalize word := by
  cases word with
  | nil => rfl
  | cons c rest => simp [capitalize, lowercase, Char.toUpper_toLower_eq_toUpper,
      Char.toLower_toLower_eq_toLower]

namespace Words

/-- A word that begins with a capital. -/
def IsCapital (word : List Char) : Prop :=
  ∃ c rest, word = c :: rest ∧ c.isUpper = true

/-- Two words between which the case alone shows the border: the second has a
    capital at its beginning, and if the first is no more than a capital itself,
    a small letter behind it. -/
def Meets (word next : List Char) : Prop :=
  IsCapital next ∧ (1 < word.length ∨ ∃ d, next.tail.head? = some d ∧ d.isLower = true)

/-- The words of a run that begins with a capital. The last part is what the
    induction needs: a small letter stays with the word that is open. -/
theorem scan_capital {word s : List Char} (hw : IsCapital word)
    (hs : ∀ c ∈ s, c.isAlphanum = true) :
    ∃ more ws, scan word s = (word ++ more) :: ws ∧ ((word ++ more) :: ws).IsChain Meets ∧
      ∀ d, s.head? = some d → d.isLower = true → more.head? = some d := by
  -- The induction is on the run. The open word changes, but it always begins with a
  -- capital.
  induction s generalizing word with
  | nil =>
      rcases hw with ⟨a, rest, rfl, -⟩
      exact ⟨[], [], by simp [scan, close], .singleton _, fun _ => nofun⟩
  | cons c rest ih =>
      have hrest : ∀ d ∈ rest, d.isAlphanum = true := fun d hd => hs d (List.mem_cons_of_mem c hd)
      rcases scan_cases word c rest with ⟨hc, _⟩ | ⟨_, ⟨prev, hlast, hopens, heq⟩ | ⟨_, heq⟩⟩
      · -- A run has no separator.
        exact absurd (hs c List.mem_cons_self) hc
      · -- The open word is complete, and the rest of the run begins with a capital.
        rw [opens, Bool.and_eq_true] at hopens
        have hsingle : IsCapital [c] := ⟨c, [], rfl, hopens.1⟩
        rcases ih hsingle hrest with ⟨more, ws, hscan, hchain, hmore⟩
        rw [heq, hscan]
        refine ⟨[], ([c] ++ more) :: ws, by rw [List.append_nil], ?_, fun d hd hlow => ?_⟩
        · rw [List.append_nil, List.isChain_cons_cons]
          refine ⟨⟨⟨c, more, rfl, hopens.1⟩, ?_⟩, hchain⟩
          rcases hw with ⟨a, _ | ⟨b, tail⟩, rfl, ha⟩
          · -- Behind a lone capital it was a small letter that opened the word.
            cases hlast
            refine Or.inr ?_
            have hsmall : (rest.head?.map Char.isLower).getD false = true := by
              simpa [ha, isLower_eq_false_of_isUpper ha, isDigit_eq_false_of_isUpper ha]
                using hopens.2
            cases hhead : rest.head? with
            | none => simp [hhead] at hsmall
            | some d =>
                have hd : d.isLower = true := by simpa [hhead] using hsmall
                exact ⟨d, hmore d hhead hd, hd⟩
          · exact Or.inl (by simp)
        · cases hd
          rw [isLower_eq_false_of_isUpper hopens.1] at hlow
          exact Bool.noConfusion hlow
      · -- The open word grows and still begins as it did.
        have hw' : IsCapital (word ++ [c]) := by
          rcases hw with ⟨a, tail, rfl, ha⟩
          exact ⟨a, tail ++ [c], rfl, ha⟩
        rcases ih hw' hrest with ⟨more, ws, hscan, hchain, -⟩
        rw [heq, hscan]
        rw [List.append_assoc] at hchain ⊢
        exact ⟨[c] ++ more, ws, rfl, hchain, fun d hd _ => hd⟩

/-- Letters and digits without a capital go on with the word that is open. -/
theorem scan_append {word tail : List Char} (rest : List Char)
    (htail : ∀ c ∈ tail, c.isAlphanum = true ∧ c.isUpper = false) :
    scan word (tail ++ rest) = scan (word ++ tail) rest := by
  induction tail generalizing word with
  | nil => rw [List.append_nil, List.nil_append]
  | cons c tail ih =>
      have hc := htail c List.mem_cons_self
      have hstays (prev : Char) : ¬ opens prev c (tail ++ rest) = true := by
        rw [opens, hc.2, Bool.false_and]
        exact Bool.false_ne_true
      rw [List.cons_append, scan_grows hc.1 fun prev _ => hstays prev,
        ih fun d hd => htail d (List.mem_cons_of_mem c hd), List.append_assoc]
      rfl

/-- A word in small letters has letters and digits, and no capital. -/
theorem isAlphanum_and_not_isUpper_of_mem_lowercase {word : List Char}
    (hw : ∀ c ∈ word, c.isAlphanum = true) {d : Char} (hd : d ∈ lowercase word) :
    d.isAlphanum = true ∧ d.isUpper = false := by
  rcases List.mem_map.mp hd with ⟨c, hc, rfl⟩
  exact ⟨Identifier.isAlphanum_toLower (hw c hc), Char.isUpper_toLower_eq_false c⟩

/-- In a word that begins with a capital only the letters behind it change. -/
theorem capitalize_of_isUpper {c : Char} (hc : c.isUpper = true) (rest : List Char) :
    capitalize (c :: rest) = c :: lowercase rest := by
  have hlow : ¬ c.isLower = true := by simp [isLower_eq_false_of_isUpper hc]
  rw [capitalize, Char.toUpper_eq_of_not_isLower hlow]

/-- Where two words meet, the second opens a word behind the first. -/
theorem opens_of_meets {word tail : List Char} {c : Char} (rest : List Char)
    (hw : IsCapital word) (halnum : ∀ d ∈ word, d.isAlphanum = true)
    (h : Meets word (c :: tail)) :
    ∃ prev, (capitalize word).getLast? = some prev ∧
      opens prev c (lowercase tail ++ rest) = true := by
  rcases h with ⟨⟨_, _, ⟨⟩, hc⟩, hmeets⟩
  rcases hw with ⟨a, body, rfl, ha⟩
  rw [capitalize_of_isUpper ha]
  cases body with
  | nil =>
      -- The word is a capital alone, so what follows decides.
      rcases hmeets with hlong | ⟨d, hd, hlow⟩
      · simp at hlong
      · cases tail with
        | nil => simp at hd
        | cons e tail =>
            cases hd
            have hstays : d.toLower = d := Char.toLower_eq_of_not_isUpper fun hu => by
              rw [isLower_eq_false_of_isUpper hu] at hlow
              exact Bool.noConfusion hlow
            exact ⟨a, rfl, by simp [opens, hc, ha, lowercase, hstays, hlow]⟩
  | cons b body =>
      -- Behind its capital the word has small letters and digits only.
      have hne : lowercase (b :: body) ≠ [] := by simp [lowercase]
      refine ⟨(lowercase (b :: body)).getLast hne, ?_, ?_⟩
      · rw [List.getLast?_cons_of_ne_nil hne, List.getLast?_eq_some_getLast hne]
      · rcases List.mem_map.mp (List.getLast_mem hne) with ⟨e, he, heq⟩
        rw [← heq, opens, hc]
        rcases Identifier.isLower_or_isDigit_toLower (halnum e (List.mem_cons_of_mem a he)) with
          hlow | hdigit
        · simp [hlow]
        · simp [hdigit]

/-- Words that meet are read off their capitals. -/
theorem scan_capitalize {word : List Char} {ws : List (List Char)} (hw : IsCapital word)
    (hchain : (word :: ws).IsChain Meets)
    (halnum : ∀ w ∈ word :: ws, ∀ c ∈ w, c.isAlphanum = true) :
    scan (capitalize word) (ws.map capitalize).flatten = (word :: ws).map capitalize := by
  induction ws generalizing word with
  | nil =>
      rcases hw with ⟨a, rest, rfl, -⟩
      rfl
  | cons next ws ih =>
      rw [List.isChain_cons_cons] at hchain
      rcases hchain with ⟨hmeets, hchain⟩
      have hnext : IsCapital next := hmeets.1
      have hws : ∀ w ∈ next :: ws, ∀ c ∈ w, c.isAlphanum = true := fun w hw =>
        halnum w (List.mem_cons_of_mem word hw)
      have hrest := ih hnext hchain hws
      -- The first word is done when the second opens. What follows is the same, for the
      -- second.
      rcases hnext with ⟨c, tail, rfl, hc⟩
      have hnextal : ∀ d ∈ c :: tail, d.isAlphanum = true := hws _ List.mem_cons_self
      rcases opens_of_meets (ws.map capitalize).flatten hw (halnum word List.mem_cons_self) hmeets
        with ⟨prev, hlast, hopens⟩
      have htail : ∀ d ∈ lowercase tail, d.isAlphanum = true ∧ d.isUpper = false := fun d =>
        isAlphanum_and_not_isUpper_of_mem_lowercase fun e he =>
          hnextal e (List.mem_cons_of_mem c he)
      rw [List.map_cons, List.flatten_cons, capitalize_of_isUpper hc, List.cons_append]
      rw [capitalize_of_isUpper hc] at hrest
      rw [scan_opens (hnextal c List.mem_cons_self) hlast hopens, scan_append _ htail,
        List.singleton_append, hrest]
      simp only [List.map_cons, capitalize_of_isUpper hc]

/-- The words of a run that begins with a capital. -/
theorem split_capital {c : Char} {rest : List Char} (hc : c.isUpper = true)
    (hrest : ∀ d ∈ rest, d.isAlphanum = true) :
    ∃ more ws, split (c :: rest) = (c :: more) :: ws ∧ ((c :: more) :: ws).IsChain Meets := by
  have hsingle : IsCapital [c] := ⟨c, [], rfl, hc⟩
  have halnum := Identifier.isAlphanum_of_isUpper_or_isDigit (Or.inl hc)
  rcases scan_capital hsingle hrest with ⟨more, ws, hscan, hchain, -⟩
  exact ⟨more, ws, (split_cons halnum rest).trans hscan, hchain⟩

/-- Words that are read off capitals are read off them once more. -/
theorem split_camel {c : Char} {rest : List Char} (hc : c.isUpper = true)
    (hrest : ∀ d ∈ rest, d.isAlphanum = true) :
    split ((split (c :: rest)).map capitalize).flatten = (split (c :: rest)).map capitalize := by
  have halnum : ∀ w ∈ split (c :: rest), ∀ d ∈ w, d.isAlphanum = true := fun w hw d =>
    Identifier.isAlphanum_of_mem_split hw
  rcases split_capital hc hrest with ⟨more, ws, hread, hchain⟩
  rw [hread] at halnum ⊢
  -- Behind its capital the first word has no other, so nothing opens within it.
  have hmore : ∀ d ∈ lowercase more, d.isAlphanum = true ∧ d.isUpper = false := fun d =>
    isAlphanum_and_not_isUpper_of_mem_lowercase fun e he =>
      halnum _ List.mem_cons_self e (List.mem_cons_of_mem c he)
  rw [List.map_cons, List.flatten_cons, capitalize_of_isUpper hc, List.cons_append,
    split_cons (Identifier.isAlphanum_of_isUpper_or_isDigit (Or.inl hc)), scan_append _ hmore,
    List.singleton_append, ← capitalize_of_isUpper hc,
    scan_capitalize ⟨c, more, rfl, hc⟩ hchain halnum, List.map_cons]

end Words

end Text

namespace Identifier

open Text

/-- The words of a class name, with their capitals, are those of the class name
    that is made of it. -/
theorem words_typeName {name : String} (h : IsTypeName name) (fallback : String) :
    words (typeName name fallback) = (words name).map capitalize := by
  rcases h with ⟨c, rest, hname, hc, hrest⟩
  have hwords : words name = Words.split (c :: rest) := by rw [words, hname]
  rcases Words.split_capital hc hrest with ⟨more, ws, hread, -⟩
  -- The name begins with a capital, so nothing comes before it or instead of it.
  have hcamel : upperCamel (words name) = c :: (lowercase more ++ (ws.map capitalize).flatten) := by
    rw [hwords, hread, upperCamel, List.map_cons, List.flatten_cons,
      Words.capitalize_of_isUpper hc, List.cons_append]
  have hname' : (typeName name fallback).toList = upperCamel (words name) := by
    have hdigit : c.isDigit = false := isDigit_eq_false_of_isUpper hc
    simp [typeName, hcamel, guardDigit, hdigit]
  rw [words, hname', hwords]
  exact Words.split_camel hc hrest

/-- A class name has a word. -/
theorem words_ne_nil {name : String} (h : IsTypeName name) : words name ≠ [] := by
  rcases h with ⟨c, rest, hname, hc, hrest⟩
  rcases Words.split_capital hc hrest with ⟨more, ws, hread, -⟩
  rw [words, hname, hread]
  exact List.cons_ne_nil _ _

/-- A class has the file of the class name that is made of its name. -/
theorem fileStem_typeName {name : String} (h : IsTypeName name) (fallback : String) :
    fileStem (typeName name fallback) = fileStem name := by
  rw [fileStem, fileStem, words_typeName h, List.map_map]
  congr 1
  refine List.map_congr_left fun w _ => ?_
  rw [Function.comp_apply, lowercase_capitalize]

/-- Class names are made of the words without regard to capitals. -/
theorem typeName_eq_of_lowercase_eq {a b : String} (fallback : String)
    (h : (words a).map lowercase = (words b).map lowercase) :
    typeName a fallback = typeName b fallback := by
  have hcamel (s : String) : upperCamel (words s) = upperCamel ((words s).map lowercase) := by
    rw [upperCamel, upperCamel, List.map_map]
    congr 1
    refine List.map_congr_left fun w _ => ?_
    rw [Function.comp_apply, capitalize_lowercase]
  rw [typeName, typeName, hcamel a, hcamel b, h]

/-- A file name has the words in small letters with underscores between them. -/
theorem toList_fileStem (name : String) :
    (fileStem name).toList = ['_'].intercalate ((words name).map lowercase) := by
  rw [fileStem, String.toList_intercalate, List.map_map]
  congr 1
  refine List.map_congr_left fun w _ => ?_
  rw [Function.comp_apply, String.toList_ofList]

/-- These words have letters and digits only. -/
theorem isAlphanum_of_mem_lowercase {name : String} {w : List Char}
    (hw : w ∈ (words name).map lowercase) {c : Char} (hc : c ∈ w) : c.isAlphanum = true := by
  rcases List.mem_map.mp hw with ⟨word, hword, rfl⟩
  rcases List.mem_map.mp hc with ⟨d, hd, rfl⟩
  exact isAlphanum_toLower (isAlphanum_of_mem_words hword hd)

/-- In joined lists there is what stands between them and what is in them. -/
theorem mem_intercalate {x c : Char} {ls : List (List Char)} (h : c ∈ [x].intercalate ls) :
    c = x ∨ ∃ l ∈ ls, c ∈ l := by
  induction ls with
  | nil => exact nomatch h
  | cons l ls ih =>
      cases ls with
      | nil => exact Or.inr ⟨l, List.mem_cons_self, by rwa [List.intercalate_singleton] at h⟩
      | cons m ls =>
          rw [List.intercalate_cons_cons, List.mem_append, List.mem_append,
            List.mem_singleton] at h
          rcases h with (h | h) | h
          · exact Or.inr ⟨l, List.mem_cons_self, h⟩
          · exact Or.inl h
          · rcases ih h with h | ⟨k, hk, hc⟩
            · exact Or.inl h
            · exact Or.inr ⟨k, List.mem_cons_of_mem l hk, hc⟩

/-- A file name has no slash, so it is not a path. -/
theorem slash_not_mem_fileStem (name : String) : '/' ∉ (fileStem name).toList := by
  intro h
  rw [toList_fileStem] at h
  rcases mem_intercalate h with h | ⟨w, hw, hc⟩
  · exact absurd h (by decide)
  · exact absurd (isAlphanum_of_mem_lowercase hw hc) (by decide)

/-- The words are read off a file name by its underscores. -/
theorem splitOn_fileStem {name : String} (hne : words name ≠ []) :
    (fileStem name).toList.splitOn '_' = (words name).map lowercase := by
  rw [toList_fileStem]
  refine List.splitOn_intercalate '_' (fun w hw hmem => ?_) (by simpa using hne)
  exact absurd (isAlphanum_of_mem_lowercase hw hmem) (by decide)

/-- Two classes have the same file exactly if the class names that are made of
    their names are the same. -/
theorem fileStem_eq_iff {a b : String} (ha : IsTypeName a) (hb : IsTypeName b)
    (fallback : String) :
    fileStem a = fileStem b ↔ typeName a fallback = typeName b fallback := by
  constructor
  · intro h
    refine typeName_eq_of_lowercase_eq fallback ?_
    -- The file name has the words in small letters, and these make the class name.
    rw [← splitOn_fileStem (words_ne_nil ha), h, splitOn_fileStem (words_ne_nil hb)]
  · intro h
    rw [← fileStem_typeName ha fallback, ← fileStem_typeName hb fallback, h]

end Identifier

end DartModels
