/-!
# Words

The words that a text is made of, which is all that survives of it in an
identifier.

Only ASCII letters and digits can stand in the names that are built from
words, so everything else separates. Within an unbroken run of them a new word
begins where the case says so: at a capital after a small letter or a digit
(`userName`, `v2Beta`), and at the last capital of a row of capitals that a
small letter follows (`HTTPStatus` is `HTTP` and `Status`). A digit never
begins a word inside a run; it belongs to the word on its left.

The scan carries the word that is open. Looking back is then a look at the end
of that word and looking ahead is a look at the head of what is left, so the
decision at each character is local and nothing is indexed. Since every
character either joins the open word or separates, the words lose no letter
and invent none, which is what `flatten_split` says.

## Main definitions

* `Words.opens`: Whether a character begins a new word.
* `Words.split`: The words of a list of characters.
* `words`: The words of a text.
* `capitalize`: A word in small letters behind a leading capital.

## Theorems

* `Words.scan_cases`: What one character does to the open word.
* `Words.flatten_scan`: A scan returns the open word and the letters and
  digits to come, in order.
* `Words.flatten_split`: The words of a text, run together, are its letters
  and digits.
* `Words.ne_nil_of_mem_split`: No word is empty.
-/

namespace DartModels

namespace Text

namespace Words

/-- Whether `c` begins a new word although the run goes on: `prev` is the
    character before it, and `rest` is the text behind it. -/
def opens (prev c : Char) (rest : List Char) : Bool :=
  c.isUpper &&
    (prev.isLower || prev.isDigit ||
      (prev.isUpper && (rest.head?.map Char.isLower).getD false))

/-- Close a word. An empty one was never begun and leaves no trace. -/
def close (word : List Char) : List (List Char) :=
  if word.isEmpty then [] else [word]

/-- The words of a text, given the word that is still open to its left. -/
def scan (word : List Char) : List Char → List (List Char)
  | [] => close word
  | c :: rest =>
      if c.isAlphanum then
        match word.getLast? with
        | none => scan [c] rest
        | some prev =>
            if opens prev c rest then word :: scan [c] rest else scan (word ++ [c]) rest
      else
        close word ++ scan [] rest

/-- The words of a list of characters, from left to right. -/
def split (s : List Char) : List (List Char) :=
  scan [] s

theorem flatten_close (word : List Char) : (close word).flatten = word := by
  cases word with
  | nil => rfl
  | cons c rest => simp [close]

section Scan

variable {word rest : List Char} {prev c : Char}

/-- A character that is no letter or digit closes the open word. -/
theorem scan_separator (hc : ¬ c.isAlphanum = true) (word rest : List Char) :
    scan word (c :: rest) = close word ++ split rest := by
  rw [scan, if_neg hc, split]

/-- The case ends the open word. -/
theorem scan_opens (hc : c.isAlphanum = true) (hl : word.getLast? = some prev)
    (h : opens prev c rest = true) : scan word (c :: rest) = word :: scan [c] rest := by
  simp only [scan, hc, if_true, hl, h]

/-- The open word goes on, or the first one begins. -/
theorem scan_grows (hc : c.isAlphanum = true)
    (h : ∀ prev, word.getLast? = some prev → ¬ opens prev c rest = true) :
    scan word (c :: rest) = scan (word ++ [c]) rest := by
  rw [scan, if_pos hc]
  cases hl : word.getLast? with
  | none => rw [List.getLast?_eq_none_iff.mp hl, List.nil_append]
  | some prev => simp only [h prev hl, Bool.false_eq_true, if_false]

theorem split_cons (hc : c.isAlphanum = true) (rest : List Char) :
    split (c :: rest) = scan [c] rest :=
  scan_grows hc fun _ hl => nomatch hl

/-- What one character does to the open word. -/
theorem scan_cases (word : List Char) (c : Char) (rest : List Char) :
    (¬ c.isAlphanum = true ∧ scan word (c :: rest) = close word ++ split rest) ∨
      c.isAlphanum = true ∧
        ((∃ prev, word.getLast? = some prev ∧ opens prev c rest = true ∧
            scan word (c :: rest) = word :: scan [c] rest) ∨
          (∀ prev, word.getLast? = some prev → ¬ opens prev c rest = true) ∧
            scan word (c :: rest) = scan (word ++ [c]) rest) := by
  by_cases hc : c.isAlphanum = true
  · refine Or.inr ⟨hc, ?_⟩
    by_cases ho : ∃ prev, word.getLast? = some prev ∧ opens prev c rest = true
    · rcases ho with ⟨prev, hl, ho⟩
      exact Or.inl ⟨prev, hl, ho, scan_opens hc hl ho⟩
    · have hstays : ∀ prev, word.getLast? = some prev → ¬ opens prev c rest = true :=
        fun prev hl hopens => ho ⟨prev, hl, hopens⟩
      exact Or.inr ⟨hstays, scan_grows hc hstays⟩
  · exact Or.inl ⟨hc, scan_separator hc word rest⟩

end Scan

theorem flatten_scan (word s : List Char) :
    (scan word s).flatten = word ++ s.filter Char.isAlphanum := by
  induction s generalizing word with
  | nil => simp [scan, flatten_close]
  | cons c rest ih =>
      rcases scan_cases word c rest with ⟨hc, h⟩ | ⟨hc, ⟨_, _, _, h⟩ | ⟨_, h⟩⟩
      · rw [h, List.filter_cons_of_neg hc, List.flatten_append, flatten_close, split, ih,
          List.nil_append]
      · rw [h, List.filter_cons_of_pos hc, List.flatten_cons, ih, List.singleton_append]
      · rw [h, List.filter_cons_of_pos hc, ih, List.append_assoc, List.singleton_append]

/-- Run together, the words are the letters and digits of the text. -/
theorem flatten_split (s : List Char) : (split s).flatten = s.filter Char.isAlphanum := by
  rw [split, flatten_scan, List.nil_append]

theorem ne_nil_of_mem_close {word w : List Char} (h : w ∈ close word) : w ≠ [] := by
  cases word with
  | nil => simp [close] at h
  | cons c rest =>
      simp only [close, List.isEmpty_cons, Bool.false_eq_true, if_false, List.mem_singleton] at h
      simp [h]

theorem ne_nil_of_mem_scan {word s w : List Char} (hw : w ∈ scan word s) : w ≠ [] := by
  induction s generalizing word with
  | nil => exact ne_nil_of_mem_close hw
  | cons c rest ih =>
      rcases scan_cases word c rest with ⟨_, h⟩ | ⟨_, ⟨_, hl, _, h⟩ | ⟨_, h⟩⟩
      · rw [h] at hw
        rcases List.mem_append.mp hw with hw | hw
        · exact ne_nil_of_mem_close hw
        · exact ih hw
      · rw [h] at hw
        rcases List.mem_cons.mp hw with rfl | hw
        · exact List.ne_nil_of_mem (List.mem_of_getLast? hl)
        · exact ih hw
      · exact ih (h ▸ hw)

/-- Every word has at least one character, so its first one exists. -/
theorem ne_nil_of_mem_split {s w : List Char} (h : w ∈ split s) : w ≠ [] :=
  ne_nil_of_mem_scan h

end Words

/-- The words of a text. -/
def words (s : String) : List (List Char) :=
  Words.split s.toList

/-- A word in small letters throughout. -/
def lowercase (word : List Char) : List Char :=
  word.map Char.toLower

/-- A word in small letters behind a leading capital. -/
def capitalize : List Char → List Char
  | [] => []
  | c :: rest => c.toUpper :: lowercase rest

end Text

end DartModels
