import DartModels.Proofs.Steps
import DartModels.Proofs.Writing

/-!
# Failures of a run

What a run can fail of before it writes.

A command is prepared in stages. Options are read, then all sources are settled,
then each source is read and made into documents, then each document is
converted. A stage that fails ends the preparation, wherever in a list of sources
or documents it fails and however much has worked before. `Command.Fails` lists
the ways in which this can happen, one for each stage, without saying which of
several failures is the one that is reported.

A run that is prepared ends in a plan, and only a plan is carried out. So a run
that fails in one of these ways has left every file as it was and has printed
nothing. What remains for a run with a plan to fail of is a file that cannot be
written, or its directory.

## Main definitions

* `Inputs.Rejects`, `Inputs.FailsAt`: A source gives no documents.
* `Inputs.Fails`: The sources of a command give no documents.
* `Command.Fails`: A command has no plan.

## Theorems

* `Inputs.documentsOf_eq_error_iff`, `Inputs.documents_eq_error_iff`,
  `Command.prepare_eq_error_iff`: Nothing is missing from these lists.
* `Command.runOn_fails`: What a run leaves behind that fails before it writes.
-/

namespace DartModels

open Steps

/-! ### Sources -/

variable {view : Files.View Id} {inputs : Inputs} {content : ByteArray}

/-- The sources of one pattern come before those of the next. -/
theorem Source.ofInputs_cons (text : String) (rest : List String) :
    ofInputs view (text :: rest) =
      (ofInput view text).bind fun sources => (ofInputs view rest).map (sources ++ ·) := by
  rw [ofInputs]
  cases ofInput view text with
  | error e => rfl
  | ok sources => cases ofInputs view rest <;> rfl

/-- A pattern that cannot be used is reported whatever the other sources are. -/
theorem Source.ofInputs_eq_error_iff {texts : List String} :
    (∃ e, ofInputs view texts = .error e) ↔
      ∃ text ∈ texts, ∃ e, ofInput view text = .error e := by
  induction texts with
  | nil => simp [ofInputs, pure]
  | cons text rest ih =>
      rw [ofInputs_cons, bind_eq_error_iff]
      cases htext : ofInput view text with
      | error e =>
          exact ⟨fun _ => ⟨text, List.mem_cons_self, e, htext⟩, fun _ => Or.inl ⟨e, rfl⟩⟩
      | ok sources => simp [map_eq_error_iff, ih, htext]

namespace Inputs

/-- The text of a source gives no documents. -/
inductive Rejects (inputs : Inputs) (source : Source) (text : String) : Prop where
  | blank (h : Text.isBlankText text = true)
  | unreadable {e : Json.SyntaxError} (h : Json.read text = .error e)
  | pointer {v : Json} {e : Failure} (hv : Json.read text = .ok v)
      (h : inputs.select source.origin v = .error e)
  | query {v part : Json} {e : Failure} (hv : Json.read text = .ok v)
      (hp : inputs.select source.origin v = .ok part)
      (h : inputs.transform source.origin part = .error e)
  | className {e : Failure} (h : inputs.classOf source = .error e)

/-- The documents of a source whose text can be read. -/
theorem documentsOf_of_read {source : Source} {text : String} {v : Json}
    (hblank : Text.isBlankText text = false) (hread : Json.read text = .ok v) :
    inputs.documentsOf source text =
      (inputs.select source.origin v).bind fun part =>
        (inputs.transform source.origin part).bind fun values =>
          (inputs.classOf source).map fun named =>
            values.map fun value => ⟨source.origin, named.1, named.2, value⟩ := by
  simp only [documentsOf, hblank, hread, Bool.false_eq_true, if_false]
  rfl

/-- A text gives no documents exactly if it is rejected. -/
theorem documentsOf_eq_error_iff {source : Source} {text : String} :
    (∃ e, inputs.documentsOf source text = .error e) ↔ inputs.Rejects source text := by
  cases hblank : Text.isBlankText text with
  | true =>
      exact ⟨fun _ => .blank hblank, fun _ => ⟨.emptySource source.origin, by
        simp [documentsOf, hblank]⟩⟩
  | false =>
  cases hread : Json.read text with
  | error e =>
      exact ⟨fun _ => .unreadable hread, fun _ => ⟨.document source.origin e, by
        simp [documentsOf, hblank, hread]⟩⟩
  | ok v =>
      rw [documentsOf_of_read hblank hread, bind_eq_error_iff]
      simp only [bind_eq_error_iff, map_eq_error_iff]
      constructor
      · rintro (⟨e, h⟩ | ⟨part, hpart, ⟨e, h⟩ | ⟨values, -, e, h⟩⟩)
        · exact .pointer hread h
        · exact .query hread hpart h
        · exact .className h
      · intro h
        -- The class name is looked at last, so what fails before it is in the way.
        cases hpart : inputs.select source.origin v with
        | error e => exact Or.inl ⟨e, rfl⟩
        | ok part =>
            refine Or.inr ⟨part, rfl, ?_⟩
            cases hvalues : inputs.transform source.origin part with
            | error e => exact Or.inl ⟨e, rfl⟩
            | ok values =>
                refine Or.inr ⟨values, rfl, ?_⟩
                cases h <;> simp_all

/-- What is left of standard input once these sources are read. -/
def left (content : ByteArray) (read : List Source) : ByteArray :=
  if .standardInput ∈ read then ByteArray.empty else content

/-- Before any source is read all of it is left. -/
theorem left_nil : left content [] = content := by
  simp [left]

/-- One source after another uses it up. -/
theorem left_cons (source : Source) (read : List Source) :
    left (left content [source]) read = left content (source :: read) := by
  by_cases h : Source.standardInput = source <;> simp [left, h]

/-- The documents of the first source come before those of the others. -/
theorem documentsFrom_cons (source : Source) (rest : List Source) :
    inputs.documentsFrom view content (source :: rest) =
      (textOf view content source).bind fun text =>
        (inputs.documentsOf source text).bind fun documents =>
          (inputs.documentsFrom view (left content [source]) rest).map (documents ++ ·) := by
  rw [documentsFrom]
  generalize textOf view content source = text
  cases text with
  | error e => rfl
  | ok text =>
      simp only [bind, Except.bind]
      cases inputs.documentsOf source text with
      | error e => rfl
      | ok documents =>
          -- The first source may have used standard input up.
          simp only [left, List.mem_singleton, eq_comm (a := Source.standardInput)]
          generalize inputs.documentsFrom view _ rest = more
          cases more <;> rfl

/-- Standard input does not matter to sources that do not read it. -/
theorem documentsFrom_of_not_mem (content' : ByteArray) {sources : List Source}
    (h : Source.standardInput ∉ sources) :
    inputs.documentsFrom view content sources = inputs.documentsFrom view content' sources := by
  induction sources generalizing content content' with
  | nil => rfl
  | cons source rest ih =>
      rw [List.mem_cons, not_or] at h
      cases source with
      | standardInput => exact absurd rfl h.1
      | file path =>
          rw [documentsFrom_cons, documentsFrom_cons, ih (left content' [.file path]) h.2]
          rfl

/-- The documents of a command are those of its sources. -/
theorem documents_eq :
    inputs.documents view content =
      (Source.ofInputs view inputs.sources).bind fun sources =>
        (inputs.documentsFrom view content sources).map distinguish := by
  rw [documents]
  generalize Source.ofInputs view inputs.sources = sources
  cases sources with
  | error e => rfl
  | ok sources =>
      -- Standard input that no source reads is not asked for, and does not matter.
      by_cases h : Source.standardInput ∈ sources
      · have hcontains : sources.contains .standardInput = true := by simpa using h
        simp only [bind, pure, Except.bind, hcontains, if_true]
      · have hcontains : sources.contains .standardInput = false := by simpa using h
        simp only [bind, pure, Except.bind, hcontains, Bool.false_eq_true, if_false,
          documentsFrom_of_not_mem content h]

/-- A source gives no documents: it cannot be read, or its text gives none. -/
inductive FailsAt (inputs : Inputs) (view : Files.View Id) (content : ByteArray)
    (source : Source) : Prop where
  | reading {e : Failure} (h : textOf view content source = .error e)
  | text {text : String} (ht : textOf view content source = .ok text)
      (h : inputs.Rejects source text)

/-- The sources of a command give no documents: one of them is a pattern that
    cannot be used, or gives no documents with what those before it have left of
    standard input. -/
inductive Fails (inputs : Inputs) (view : Files.View Id) (content : ByteArray) : Prop where
  | pattern {text : String} {e : Failure} (ht : text ∈ inputs.sources)
      (h : Source.ofInput view text = .error e)
  | source {before after : List Source} {source : Source}
      (hs : Source.ofInputs view inputs.sources = .ok (before ++ source :: after))
      (h : inputs.FailsAt view (left content before) source)

/-- Documents are missing exactly if one of the sources gives none. -/
theorem documentsFrom_eq_error_iff {sources : List Source} :
    (∃ e, inputs.documentsFrom view content sources = .error e) ↔
      ∃ before source after, sources = before ++ source :: after ∧
        inputs.FailsAt view (left content before) source := by
  induction sources generalizing content with
  | nil => simp [documentsFrom, pure]
  | cons source rest ih =>
      rw [documentsFrom_cons, bind_eq_error_iff]
      simp only [bind_eq_error_iff, map_eq_error_iff, ih, documentsOf_eq_error_iff]
      constructor
      · rintro (⟨e, h⟩ | ⟨text, htext, hrejects | ⟨documents, -, before, at_, after, rfl, h⟩⟩)
        · exact ⟨[], source, rest, rfl, .reading h⟩
        · exact ⟨[], source, rest, rfl, .text htext hrejects⟩
        · exact ⟨source :: before, at_, after, rfl, left_cons source before ▸ h⟩
      · rintro ⟨before, at_, after, hs, h⟩
        -- If the first source fails, it does not matter where else one does.
        cases htext : textOf view content source with
        | error e => exact Or.inl ⟨e, rfl⟩
        | ok text =>
            refine Or.inr ⟨text, rfl, ?_⟩
            rcases List.cons_eq_append_iff.mp hs with ⟨rfl, hat⟩ | ⟨read, rfl, rfl⟩
            · -- The first source is the one that fails.
              cases hat
              rw [left_nil] at h
              cases h with
              | reading h => exact nomatch htext.symm.trans h
              | text ht h => cases htext.symm.trans ht; exact Or.inl h
            · cases hdocuments : inputs.documentsOf source text with
              | error e => exact Or.inl (documentsOf_eq_error_iff.mp ⟨e, hdocuments⟩)
              | ok documents =>
                  rw [← left_cons] at h
                  exact Or.inr ⟨documents, rfl, read, at_, after, rfl, h⟩

/-- A command has no documents exactly if its sources give none. -/
theorem documents_eq_error_iff :
    (∃ e, inputs.documents view content = .error e) ↔ inputs.Fails view content := by
  rw [documents_eq, bind_eq_error_iff, Source.ofInputs_eq_error_iff]
  simp only [map_eq_error_iff, documentsFrom_eq_error_iff]
  constructor
  · rintro (⟨text, ht, e, h⟩ | ⟨_, hs, before, source, after, rfl, h⟩)
    · exact .pattern ht h
    · exact .source hs h
  · rintro (⟨ht, h⟩ | ⟨hs, h⟩)
    · exact Or.inl ⟨_, ht, _, h⟩
    · exact Or.inr ⟨_, hs, _, _, _, rfl, h⟩

end Inputs

/-! ### Commands -/

/-- The documents that a command asks for, and the options. -/
def Command.asks? : Command → Option (Inputs × Overrides)
  | .dart inputs overrides _ => some (inputs, overrides)
  | .idle => none
  | .inspect inputs overrides _ => some (inputs, overrides)

/-- A command has no plan: its options cannot be read, its sources give no
    documents, or one of the documents has no classes. -/
inductive Command.Fails (c : Command) (view : Files.View Id) (content : ByteArray) : Prop where
  | options {inputs : Inputs} {overrides : Overrides} {e : Failure}
      (hc : c.asks? = some (inputs, overrides)) (h : (overrides.options view).2 = .error e)
  | documents {inputs : Inputs} {overrides : Overrides}
      (hc : c.asks? = some (inputs, overrides)) (h : inputs.Fails view content)
  | conversion {inputs : Inputs} {overrides : Overrides} {o : Options} {ds : List Document}
      {d : Document} {e : InferenceError} (hc : c.asks? = some (inputs, overrides))
      (ho : (overrides.options view).2 = .ok o) (hds : inputs.documents view content = .ok ds)
      (hd : d ∈ ds) (h : Catalog.ofDocument o d.className d.value = .error e)

/-- The options are read first, and then the documents. -/
theorem gather_eq {inputs : Inputs} {overrides : Overrides} :
    gather inputs overrides view (pure content) =
      ((overrides.options view).1, (overrides.options view).2.bind fun o =>
        (inputs.documents view content).map fun ds => (o, ds)) := by
  rw [gather]
  generalize overrides.options view = read
  rcases read with ⟨warnings, _ | o⟩ <;> rfl

/-- What comes after the documents is not reached without them. -/
theorem gather_bind_eq_error_iff {inputs : Inputs} {overrides : Overrides} {α : Type}
    {f : Options × List Document → Except Failure α} :
    (∃ e, (gather inputs overrides view (pure content)).2.bind f = .error e) ↔
      (∃ e, (overrides.options view).2 = .error e) ∨ inputs.Fails view content ∨
        ∃ o ds, (overrides.options view).2 = .ok o ∧ inputs.documents view content = .ok ds ∧
          ∃ e, f (o, ds) = .error e := by
  rw [gather_eq, ← Inputs.documents_eq_error_iff]
  cases (overrides.options view).2 with
  | error e => simp [Except.bind]
  | ok o =>
      generalize inputs.documents view content = documents
      cases documents with
      | error e => exact ⟨fun _ => Or.inr (Or.inl ⟨e, rfl⟩), fun _ => ⟨e, rfl⟩⟩
      | ok ds =>
          constructor
          · rintro ⟨e, h⟩
            -- Both are there, so it is what comes after that fails.
            exact Or.inr (Or.inr ⟨o, ds, rfl, rfl, e, h⟩)
          · rintro (⟨e, ⟨⟩⟩ | ⟨e, ⟨⟩⟩ | ⟨_, _, ⟨⟩, ⟨⟩, e, h⟩)
            exact ⟨e, h⟩

/-- Documents are not converted exactly if one of them has no classes. -/
theorem convertAll_eq_error_iff {o : Options} {ds : List Document} :
    (∃ e, convertAll o ds = .error e) ↔
      ∃ d ∈ ds, ∃ e, Catalog.ofDocument o d.className d.value = .error e := by
  rw [convertAll, mapM_eq_error_iff]
  -- Code is made of all classes, so only the classes can be missing.
  simp only [← convert_error_iff]
  constructor <;> rintro ⟨d, hd, e, h⟩ <;> refine ⟨d, hd, ?_⟩
  · cases hconvert : convert o d.className d.value with
    | error e => exact ⟨e, rfl⟩
    | ok units => simp [hconvert] at h
  · exact ⟨.conversion d.origin e, by simp [h]⟩

/-- A document is not described exactly if it has no classes. -/
theorem describe_eq_error_iff {o : Options} {d : Document} :
    (∃ e, describe o d = .error e) ↔ ∃ e, Catalog.ofDocument o d.className d.value = .error e := by
  unfold describe
  cases Catalog.ofDocument o d.className d.value <;> simp

namespace Command

/-- The plan for code is made of the documents that were gathered. -/
theorem prepare_dart {inputs : Inputs} {overrides : Overrides} {destination : Destination} :
    ((dart inputs overrides destination).prepare view (pure content)).2 =
      (gather inputs overrides view (pure content)).2.bind fun g =>
        (convertAll g.1 g.2).map fun converted => (planDart destination g.1 converted).2 := by
  rw [prepare]
  generalize gather inputs overrides view (pure content) = gathered
  rcases gathered with ⟨warnings, _ | ⟨o, ds⟩⟩
  · rfl
  · simp only [bind, Except.bind]
    cases convertAll o ds <;> rfl

/-- And so is the plan for a description. -/
theorem prepare_inspect {inputs : Inputs} {overrides : Overrides} {file : Option String} :
    ((inspect inputs overrides file).prepare view (pure content)).2 =
      (gather inputs overrides view (pure content)).2.bind fun g =>
        (g.2.mapM (describe g.1)).map (planInspection file) := by
  rw [prepare]
  generalize gather inputs overrides view (pure content) = gathered
  rcases gathered with ⟨warnings, _ | ⟨o, ds⟩⟩ <;> rfl

/-- The three ways to fail, for a command that asks for documents. -/
theorem fails_iff {c : Command} {inputs : Inputs} {overrides : Overrides}
    (hc : c.asks? = some (inputs, overrides)) :
    c.Fails view content ↔
      (∃ e, (overrides.options view).2 = .error e) ∨ inputs.Fails view content ∨
        ∃ o ds, (overrides.options view).2 = .ok o ∧ inputs.documents view content = .ok ds ∧
          ∃ d ∈ ds, ∃ e, Catalog.ofDocument o d.className d.value = .error e := by
  constructor
  · rintro (⟨hc', h⟩ | ⟨hc', h⟩ | ⟨hc', ho, hds, hd, h⟩) <;> cases hc.symm.trans hc'
    · exact Or.inl ⟨_, h⟩
    · exact Or.inr (Or.inl h)
    · exact Or.inr (Or.inr ⟨_, _, ho, hds, _, hd, _, h⟩)
  · rintro (⟨e, h⟩ | h | ⟨o, ds, ho, hds, d, hd, e, h⟩)
    · exact .options hc h
    · exact .documents hc h
    · exact .conversion hc ho hds hd h

/-- A command has no plan exactly if it fails in one of these ways. -/
theorem prepare_eq_error_iff {c : Command} :
    (∃ e, (c.prepare view (pure content)).2 = .error e) ↔ c.Fails view content := by
  cases c with
  | dart inputs overrides destination =>
      rw [prepare_dart, gather_bind_eq_error_iff, fails_iff rfl]
      simp only [map_eq_error_iff, convertAll_eq_error_iff]
  | idle =>
      -- A command that asks for nothing cannot fail.
      constructor
      · rintro ⟨e, h⟩
        exact nomatch h
      · rintro (⟨hc, -⟩ | ⟨hc, -⟩ | ⟨hc, -, -, -, -⟩) <;> exact nomatch hc
  | inspect inputs overrides file =>
      rw [prepare_inspect, gather_bind_eq_error_iff, fails_iff rfl]
      simp only [map_eq_error_iff, mapM_eq_error_iff, describe_eq_error_iff]

/-- A run that fails in one of these ways ends with status 1, has printed
    nothing and has left the files as they were. A run that fails in none of them
    fails at most of a file that cannot be written, or its directory. -/
theorem runOn_fails (c : Command) (t : Tree) (home : List String) (content : ByteArray) :
    (c.Fails (t.view home) content →
      (c.runOn t home content).1.status = 1 ∧ (c.runOn t home content).1.standardOutput = "" ∧
        (c.runOn t home content).1.standardError = "" ∧ (c.runOn t home content).2 = t) ∧
      (¬ c.Fails (t.view home) content →
        ∀ e, (c.runOn t home content).1.failure = some e → e.IsOfWriting) := by
  rw [← prepare_eq_error_iff]
  rcases hprepare : c.prepare (t.view home) (pure content) with ⟨warnings, e | plan⟩
  · refine ⟨fun _ => ?_, fun h => absurd ⟨e, rfl⟩ h⟩
    rw [runOn_of_failure c t home content warnings e hprepare]
    exact ⟨rfl, rfl, rfl, rfl⟩
  · refine ⟨nofun, fun _ e he => ?_⟩
    simp only [runOn, hprepare] at he
    exact Plan.isOfWriting_perform he

/-- Classes for these files, in a directory, with the options as they are. -/
def intoDirectory (names : List String) : Command :=
  .dart ⟨names, none, none, none⟩ ⟨none, none, false, false, false, none, none⟩
    (.directory "out")

/-- A directory of these files, each a document without members. -/
def blankDocuments (names : List String) : Tree :=
  .directory (names.map fun name => (name, .file "\x7b\x7d".toUTF8))

/-- The second file is missing, so the run fails and nothing is written for the first. -/
theorem runOn_fails_intoDirectory :
    (intoDirectory ["a.json", "b.json"]).Fails ((blankDocuments ["a.json"]).view [])
        ByteArray.empty ∧
      ((intoDirectory ["a.json", "b.json"]).runOn (blankDocuments ["a.json"]) []
        ByteArray.empty).1.status = 1 ∧
      ((intoDirectory ["a.json", "b.json"]).runOn (blankDocuments ["a.json"]) []
        ByteArray.empty).2 = blankDocuments ["a.json"] := by
  have hsources : Source.ofInputs ((blankDocuments ["a.json"]).view []) ["a.json", "b.json"] =
      .ok ([.file "a.json"] ++ .file "b.json" :: []) := by rfl
  have hrelative : "b.json".startsWith "/" = false := by decide +kernel
  -- The tree has one of the two files only.
  have hmissing : (blankDocuments ["a.json"]).locate [] "b.json" = .error .notFound := by
    simp only [Tree.locate, Tree.origin, hrelative, Bool.false_eq_true, if_false]
    rfl
  have hreading : Inputs.textOf ((blankDocuments ["a.json"]).view [])
      (Inputs.left ByteArray.empty [.file "a.json"]) (.file "b.json") =
        .error (.source "b.json" .notFound) := by
    simp only [Inputs.textOf, Files.readText, Tree.view, Tree.read, hmissing]
    rfl
  have hfails : (intoDirectory ["a.json", "b.json"]).Fails ((blankDocuments ["a.json"]).view [])
      ByteArray.empty :=
    .documents rfl (.source hsources (.reading hreading))
  rcases (runOn_fails (intoDirectory ["a.json", "b.json"]) (blankDocuments ["a.json"]) []
    ByteArray.empty).1 hfails with ⟨hstatus, -, -, htree⟩
  exact ⟨hfails, hstatus, htree⟩

end Command

end DartModels
