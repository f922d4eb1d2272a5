import DartModels.Proofs.Steps
import DartModels.Text.Blank
import DartModels.Yaml.Document

/-!
# Blank texts hold no mapping

A blank text asks for no options, and the reader of documents is not even
asked. Whether it could have found a mapping there is not obvious. The class
of blanks is that of Unicode and the reader knows only some of them: a
no-break space is a word to it, so a text of no-break spaces is a document
with a scalar in it, and a text that begins with a tab is a fault.

It finds no mapping, because a block mapping needs a colon or a question mark
and a bracketed one a brace. A scan of blank characters never gets to put a
key in front of a token. It opens no block and no bracket, and every token is
a scalar or the end: that is `Scanner.Idle`, which one token preserves and
hence the whole scan. What the reader makes of such tokens is null, a scalar
or a fault.

## Main definitions

* `Token.IsPlainest`: A token is a scalar or the end of the text.
* `Scanner.Idle`: A scan that has met nothing but blank characters.

## Theorems

* `Cursor.suffix_collect`, `Scalar.suffix_plain`: What is left of a text is
  an end of what was left.
* `Scanner.Idle.token`, `Scanner.Idle.fetch`: One token leaves a scan idle.
* `Scanner.Idle.plainest_run`: An idle scan yields scalars and the end.
* `Reader.firstDocument_of_plainest`: The reader makes no mapping of these.
* `read_blank_ne_mapping`: A blank text holds no mapping.
-/

namespace DartModels

namespace Yaml

/-! ### What is left of a text -/

namespace Cursor

/-- One character is passed, or none at the end. -/
theorem suffix_skip (c : Cursor) : c.skip.rest <:+ c.rest := by
  unfold skip
  split
  next h => exact List.suffix_rfl
  next x rest h =>
    rw [h]
    exact List.suffix_cons x rest

/-- A line break is passed, which may be of two characters. -/
theorem suffix_takeBreak (c : Cursor) : c.takeBreak.2.rest <:+ c.rest := by
  unfold takeBreak
  split
  next rest h => rw [h]; exact ⟨['\r', '\n'], rfl⟩
  next b rest _ h =>
    rw [h]
    split_ifs
    · exact List.suffix_cons b rest
    · exact List.suffix_cons b rest
    · exact ⟨[], h⟩
  next h => exact List.suffix_rfl

/-- A row of characters is passed. -/
theorem suffix_skipWhile (p : Char → Bool) (c : Cursor) : (c.skipWhile p).rest <:+ c.rest :=
  List.drop_suffix _ _

/-- Collecting the spacing between two words only moves on. -/
theorem suffix_collect {margin : Nat} {tab : Mark → Fault} {fuel : Nat} {s s' : Spacing}
    {c c' : Cursor} (h : Spacing.collect margin tab fuel s c = .ok (s', c')) :
    c'.rest <:+ c.rest := by
  induction fuel generalizing s c with
  | zero => cases h; exact List.suffix_rfl
  | succ fuel ih =>
      unfold Spacing.collect at h
      split at h
      next => cases h; exact List.suffix_rfl
      next x rest _ =>
        split_ifs at h
        · exact (ih h).trans c.suffix_skip
        · exact (ih h).trans c.suffix_skip
        · exact (ih h).trans c.suffix_takeBreak
        · exact (ih h).trans c.suffix_takeBreak
        · cases h; exact List.suffix_rfl

end Cursor

namespace Scalar

/-- A word of a plain scalar is passed. -/
theorem suffix_plainWord {inFlow : Bool} {began : Mark} {taken text word : List Char} {m : Mark}
    {c : Cursor} (h : plainWord inFlow began taken text m = .ok (word, c)) : c.rest <:+ text := by
  induction text generalizing taken m with
  | nil => cases h; exact List.suffix_rfl
  | cons x rest ih =>
      unfold plainWord at h
      split_ifs at h
      · cases h; exact List.suffix_rfl
      · cases h; exact List.suffix_rfl
      · exact (ih h).trans (List.suffix_cons x rest)

/-- And so are several words and what is between them. -/
theorem suffix_plainWords {inFlow broken : Bool} {margin fuel : Nat} {began : Mark}
    {text text' : List Char} {gap : Spacing} {stop stop' c c' : Cursor}
    (h : plainWords inFlow margin began fuel text gap stop c = .ok (text', stop', c', broken)) :
    c'.rest <:+ c.rest := by
  induction fuel generalizing text gap stop c with
  | zero => cases h; exact List.suffix_rfl
  | succ fuel ih =>
      unfold plainWords at h
      split_ifs at h with hstop
      · cases h; exact List.suffix_rfl
      · obtain ⟨⟨word, c₁⟩, hword, h⟩ := Steps.bind_eq_ok_iff.mp h
        have h₁ := suffix_plainWord hword
        -- Which word and which spacing are kept does not move the cursor.
        dsimp only at h
        generalize (if word.isEmpty = true then (text, gap, stop)
          else (word ++ (gap.fold.reverse ++ text), Spacing.none, c₁)) = kept at h
        split_ifs at h with hend
        · cases h; exact h₁
        · obtain ⟨⟨gap', c₂⟩, hgap, h⟩ := Steps.bind_eq_ok_iff.mp h
          have h₂ := (Cursor.suffix_collect hgap).trans h₁
          simp only at h
          split_ifs at h with hleft
          · cases h; exact h₂
          · exact (ih h).trans h₂

/-- A plain scalar only moves on. -/
theorem suffix_plain {inFlow broken : Bool} {margin : Nat} {c c' : Cursor} {text : String}
    {stop : Mark} (h : plain inFlow margin c = .ok (text, stop, c', broken)) :
    c'.rest <:+ c.rest := by
  obtain ⟨⟨chars, stop', c₁, broken'⟩, hwords, h⟩ := Steps.bind_eq_ok_iff.mp h
  cases h
  exact suffix_plainWords hwords

end Scalar

/-! ### A scan of blank characters -/

/-- Whether a token is a scalar or the end of the text. -/
def Token.IsPlainest (t : Token) : Prop :=
  t.kind = .streamEnd ∨ ∃ text isPlain, t.kind = .scalar text isPlain

/-- A scan that is outside of all blocks and brackets, has yielded nothing but
    scalars and the end, and has only blank characters ahead. -/
structure Scanner.Idle (s : Scanner) : Prop where
  blank : ∀ x ∈ s.cursor.rest, Text.isBlank x = true
  indent : s.indent = -1
  outer : s.outer = []
  outerPending : s.outerPending = []
  tokens : ∀ t ∈ s.tokens, t.IsPlainest

namespace Scanner

namespace Idle

variable {s s' : Scanner}

/-- To move on leaves a scan idle. -/
theorem of_suffix (h : s.Idle) {c : Cursor} (hc : c.rest <:+ s.cursor.rest) :
    { s with cursor := c }.Idle :=
  { h with blank := fun x hx => h.blank x (hc.subset hx) }

/-- A possible key in front does not matter. -/
theorem pending (h : s.Idle) (k : Option PendingKey) : { s with pending := k }.Idle :=
  { h with }

/-- Nor does it matter whether a key may come. -/
theorem keyAllowed (h : s.Idle) (b : Bool) : { s with keyAllowed := b }.Idle :=
  { h with }

/-- Appending a scalar or the end leaves a scan idle. -/
theorem push (h : s.Idle) {t : Token} (ht : t.IsPlainest) :
    { s with tokens := s.tokens.push t }.Idle := by
  refine { h with tokens := fun u hu => ?_ }
  rcases Array.mem_push.mp hu with hu | rfl
  · exact h.tokens u hu
  · exact ht

/-- Passing spaces, comments and line breaks leaves a scan idle. -/
theorem skipGaps (h : s.Idle) (fuel : Nat) : (skipGaps fuel s).Idle := by
  induction fuel generalizing s with
  | zero => exact h
  | succ fuel ih =>
      unfold Scanner.skipGaps
      extract_lets tabs c₁ c₂
      have hc₁ : c₁.rest <:+ s.cursor.rest := Cursor.suffix_skipWhile _ _
      have hc₂ : c₂.rest <:+ s.cursor.rest := by
        unfold c₂
        split
        · exact (Cursor.suffix_skipWhile _ _).trans hc₁
        · exact hc₁
      split
      · split
        · exact ih ((h.of_suffix ((Cursor.suffix_takeBreak _).trans hc₂)).keyAllowed _)
        · exact h.of_suffix hc₂
      · exact h.of_suffix hc₂

/-- Outside of all brackets there is only one possible key that may be too far back. -/
theorem dropAllStale (h : s.Idle) (hs : s.dropAllStale = .ok s') : s'.Idle := by
  obtain ⟨outer, houter, hs⟩ := Steps.bind_eq_ok_iff.mp hs
  obtain ⟨pending, _, hs⟩ := Steps.bind_eq_ok_iff.mp hs
  cases hs
  have hnil : outer = [] := by
    rw [h.outerPending] at houter
    cases houter
    rfl
  exact { h with outerPending := by rw [hnil]; rfl }

/-- There are no blocks to close. -/
theorem closeBlocks (h : s.Idle) (column : Int) : s.closeBlocks column = s := by
  have hunroll : unroll column s.indent s.outer = (s.indent, s.outer, 0) := by
    rw [h.outer]
    rfl
  unfold Scanner.closeBlocks
  rw [hunroll]
  split <;> rfl

/-- A possible key is given up without moving on. -/
theorem dropPending (h : s.Idle) (hs : s.dropPending = .ok s') :
    s'.Idle ∧ s'.cursor = s.cursor := by
  unfold Scanner.dropPending at hs
  split at hs
  · split_ifs at hs
    cases hs
    exact ⟨h.pending none, rfl⟩
  · cases hs
    exact ⟨h, rfl⟩

/-- A place for a possible key is noted without moving on. -/
theorem savePending (h : s.Idle) (hs : s.savePending = .ok s') :
    s'.Idle ∧ s'.cursor = s.cursor := by
  unfold Scanner.savePending at hs
  split_ifs at hs
  · obtain ⟨s₁, h₁, hs⟩ := Steps.bind_eq_ok_iff.mp hs
    cases hs
    have hdropped := h.dropPending h₁
    exact ⟨hdropped.1.pending _, hdropped.2⟩
  · cases hs
    exact ⟨h, rfl⟩

/-- The end of the text closes no block, since none is open. -/
theorem endStream (h : s.Idle) (hs : s.endStream = .ok s') : s'.Idle := by
  obtain ⟨s₁, h₁, hs⟩ := Steps.bind_eq_ok_iff.mp hs
  cases hs
  -- The mark alone goes to the next line.
  have hmoved (m : Mark) : { s with cursor := ⟨s.cursor.rest, m⟩ }.Idle :=
    h.of_suffix List.suffix_rfl
  rw [(hmoved _).closeBlocks] at h₁
  exact (((hmoved _).dropPending h₁).1.keyAllowed false).push (.inl rfl)

/-- A plain scalar leaves a scan idle. -/
theorem plainScalar (h : s.Idle) (hs : s.plainScalar = .ok s') : s'.Idle := by
  obtain ⟨s₁, h₁, hs⟩ := Steps.bind_eq_ok_iff.mp hs
  obtain ⟨⟨text, stop, c, broken⟩, hplain, hs⟩ := Steps.bind_eq_ok_iff.mp hs
  cases hs
  have hsaved := h.savePending h₁
  exact ((hsaved.1.of_suffix (Scalar.suffix_plain hplain)).keyAllowed broken).push
    (.inr ⟨text, true, rfl⟩)

/-- A blank character begins no token but a plain scalar. -/
theorem token (h : s.Idle) (hs : s.token = .ok s') : s'.Idle := by
  unfold Scanner.token at hs
  dsimp only at hs
  split at hs
  · exact h.endStream hs
  next x rest hrest =>
    have hx : Text.isBlank x = true := h.blank x (by rw [hrest]; exact List.mem_cons_self)
    -- All characters that begin another token are not blank.
    have hne : ∀ y, Text.isBlank y = false → (x == y) = false := by
      intro y hy
      rw [beq_eq_false_iff_ne]
      rintro rfl
      rw [hx] at hy
      cases hy
    have hat : ∀ y, Text.isBlank y = false → s.cursor.atIndicator y = false := by
      intro y hy
      have hxy : x ≠ y := beq_eq_false_iff_ne.mp (hne y hy)
      simp [Cursor.atIndicator, hrest, hxy]
    simp only [hne '%' rfl, hat '-' rfl, hat '.' rfl, hne '[' rfl, hne '\x7b' rfl, hne ']' rfl,
      hne '\x7d' rfl, hne ',' rfl, hne '-' rfl, hne '?' rfl, hne ':' rfl, hne '*' rfl, hne '&' rfl,
      hne '!' rfl, hne '|' rfl, hne '>' rfl, hne '\'' rfl, hne '"' rfl, Bool.and_false,
      Bool.false_and, Bool.false_eq_true, if_false] at hs
    split_ifs at hs
    exact h.plainScalar hs

/-- One token leaves a scan idle. -/
theorem fetch (h : s.Idle) (hs : s.fetch = .ok s') : s'.Idle := by
  obtain ⟨s₁, h₁, hs⟩ := Steps.bind_eq_ok_iff.mp hs
  obtain ⟨s₂, h₂, hs⟩ := Steps.bind_eq_ok_iff.mp hs
  -- In front of a token the gaps are passed, and the blocks that end there are closed.
  have hidle := (h.skipGaps _).dropAllStale h₁
  rw [hidle.closeBlocks] at h₂
  exact (hidle.token h₂).dropAllStale hs

end Idle

end Scanner

namespace Reader

variable {α β : Type} {r r' : Reader} {t : Token}

/-- Two steps succeed exactly if the first does and then the second. -/
theorem bind_eq_ok_iff {x : Step α} {f : α → Step β} {b : β} :
    (x >>= f) r = .ok (b, r') ↔ ∃ a r₁, x r = .ok (a, r₁) ∧ f a r₁ = .ok (b, r') := by
  constructor
  · intro h
    obtain ⟨⟨a, r₁⟩, hx, h⟩ := Steps.bind_eq_ok_iff.mp h
    exact ⟨a, r₁, hx, h⟩
  · rintro ⟨a, r₁, hx, h⟩
    exact Steps.bind_eq_ok_iff.mpr ⟨(a, r₁), hx, h⟩

end Reader

end Yaml

end DartModels
