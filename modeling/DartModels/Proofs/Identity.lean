import DartModels.CommandLine.Run
import DartModels.Proofs.Failures
import DartModels.Proofs.Reprinting

/-!
# The query that changes nothing

The query `.` may be left out.

It yields the value that it is given, which is written out and read again like
everything a query yields. The text is that of the document, since numbers that
are passed on are kept in writing. So one document comes back, the same but for
the rounding of doubles. A pointer takes only parts of documents that can be
read, and to such a part the same applies. Therefore a command does with the
query `.` what it does without a query.

## Main definitions

* `Json.Readable`: What the reader makes of a text.
* `Command.withQuery`: A command with another query.

## Theorems

* `Query.Value.text_ofJson`: A document as a value is written like the document.
* `Query.exists_run_identity`: One document comes back.
* `Command.prepare_identity`: The plan is the same.
* `run_identity_alike`: Nothing is lost, for documents and for commands.
-/

namespace DartModels

/-! ### Documents that can be read -/

namespace Json

mutual

/-- With more room a document is still within the limits. -/
theorem WithinLimits.mono : (v : Json) → {room more : Nat} → room ≤ more → v.WithinLimits room →
    v.WithinLimits more
  | .null, _, _, _, _ => trivial
  | .bool _, _, _, _, _ => trivial
  | .number _, _, _, _, h => h
  | .string _, _, _, _, _ => trivial
  | .array items, _, _, hle, h =>
      ⟨h.1.trans_le hle, ItemsWithinLimits.mono items (Nat.sub_le_sub_right hle 1) h.2⟩
  | .object members, _, _, hle, h =>
      ⟨h.1.trans_le hle, MembersWithinLimits.mono members (Nat.sub_le_sub_right hle 1) h.2⟩

/-- And so are the items of an array. -/
theorem ItemsWithinLimits.mono : (items : List Json) → {room more : Nat} → room ≤ more →
    ItemsWithinLimits room items → ItemsWithinLimits more items
  | [], _, _, _, _ => trivial
  | v :: rest, _, _, hle, h => ⟨WithinLimits.mono v hle h.1, ItemsWithinLimits.mono rest hle h.2⟩

/-- And the members of an object. -/
theorem MembersWithinLimits.mono : (members : List (String × Json)) → {room more : Nat} →
    room ≤ more → MembersWithinLimits room members → MembersWithinLimits more members
  | [], _, _, _, _ => trivial
  | (_, v) :: rest, _, _, hle, h =>
      ⟨WithinLimits.mono v hle h.1, MembersWithinLimits.mono rest hle h.2⟩

end

/-- The value of a member keeps the limits of the members. -/
theorem withinLimits_of_mem {room : Nat} {members : List (String × Json)} {key : String} {v : Json}
    (h : MembersWithinLimits room members) (hmem : (key, v) ∈ members) : v.WithinLimits room := by
  induction members with
  | nil => cases hmem
  | cons m rest ih =>
      rcases List.mem_cons.mp hmem with rfl | hrest
      · exact h.1
      · exact ih h.2 hrest

/-- What the reader makes of a text: within its limits and with no key twice. -/
structure Readable (v : Json) : Prop where
  limits : v.WithinLimits Reader.maxOpen
  distinct : v.Distinct

/-- Every document that was read can be read. -/
theorem readable_of_read {text : String} {v : Json} (h : read text = .ok v) : v.Readable :=
  ⟨withinLimits_of_read h, distinct_read h⟩

namespace Readable

variable {v u : Json}

/-- One step of a pointer leads to a document that can be read as well. -/
theorem enter? (h : v.Readable) {key : String} (hu : Pointer.enter? v key = some u) :
    u.Readable := by
  obtain ⟨hlim, hdist⟩ := h
  -- A part opens one container less than the whole, so it keeps the limit of the whole.
  have hpred : Reader.maxOpen - 1 ≤ Reader.maxOpen := Nat.sub_le _ 1
  cases v with
  | object members =>
      have hmem := mem_of_find? hu
      exact ⟨WithinLimits.mono u hpred (withinLimits_of_mem hlim.2 hmem),
        distinctMembers_iff.mp hdist.2 _ hmem⟩
  | array items =>
      obtain ⟨i, -, hi⟩ := Option.bind_eq_some_iff.mp hu
      have hmem := List.mem_of_getElem? hi
      exact ⟨WithinLimits.mono u hpred (itemsWithinLimits_iff.mp hlim.2 u hmem),
        distinctItems_iff.mp hdist u hmem⟩
  | _ => cases hu

/-- And so do several steps. -/
theorem follow? {steps : List String} (h : v.Readable) (hu : Pointer.follow? v steps = some u) :
    u.Readable := by
  induction steps generalizing v with
  | nil =>
      cases hu
      exact h
  | cons key rest ih =>
      obtain ⟨w, hw, hu⟩ := Option.bind_eq_some_iff.mp hu
      exact ih (h.enter? hw) hu

/-- So the part that a pointer selects can be read. -/
theorem select? {pointer : String} (h : v.Readable) (hu : select? pointer v = some u) :
    u.Readable := by
  obtain ⟨steps, -, hu⟩ := Option.bind_eq_some_iff.mp hu
  exact h.follow? hu

end Readable

end Json

/-! ### The query -/

namespace Query

namespace Value

mutual

/-- A document as a value of a query is written like the document. -/
theorem chars_ofJson : (d : Json) → (ofJson d).chars = Json.Printer.value d
  | .null => rfl
  | .bool true => rfl
  | .bool false => rfl
  | .number (.integer n) => by
      rw [ofJson]
      split <;> rfl
  | .number (.double f) => by
      rw [ofJson, chars, String.toList_ofList]
      rfl
  | .string s => rfl
  | .array [] => rfl
  | .array (v :: rest) => by
      rw [ofJson, ofItems, chars, chars_ofJson v, itemChars_ofItems rest]
      rfl
  | .object [] => rfl
  | .object ((k, v) :: rest) => by
      rw [ofJson, ofMembers, chars, chars_ofJson v, memberChars_ofMembers rest]
      rfl

/-- The items behind the first of an array. -/
theorem itemChars_ofItems : (vs : List Json) → itemChars (ofItems vs) = Json.Printer.items vs
  | [] => rfl
  | v :: rest => by
      rw [ofItems, itemChars, chars_ofJson v, itemChars_ofItems rest]
      rfl

/-- The members behind the first of an object. -/
theorem memberChars_ofMembers : (vs : List (String × Json)) →
    memberChars (ofMembers vs) = Json.Printer.members vs
  | [] => rfl
  | (k, v) :: rest => by
      rw [ofMembers, memberChars, chars_ofJson v, memberChars_ofMembers rest]
      rfl

end

/-- So its text is the compact text of the document. -/
theorem text_ofJson (d : Json) : (ofJson d).text = d.compact := by
  rw [text, Json.compact, chars_ofJson]

end Value

/-- The point is the query that gives back its input. -/
theorem parse?_identity : Term.parse? "." = some .identity := by
  with_unfolding_all rfl

/-- The query `.` gives one document, which is the one that it is applied to
    but for the rounding of doubles. -/
theorem exists_run_identity {d : Json} (h : d.Readable) :
    ∃ d', run "." d = .ok [d'] ∧ d.Alike d' := by
  obtain ⟨d', halike, hread⟩ := Json.exists_read_compact h.limits h.distinct
  refine ⟨d', ?_, halike⟩
  -- The outcome of the query is printed and read again.
  have hdocument : document (.ok (.ofJson d)) = .ok d' := by
    unfold document
    dsimp only
    rw [Value.text_ofJson, hread]
  have houtcomes : documents [.ok (.ofJson d)] = .ok [d'] := by
    rw [documents, Steps.mapM_cons, hdocument]
    rfl
  rw [run, parse?_identity]
  exact houtcomes

end Query

/-! ### Commands -/

open Steps

namespace Inputs

variable {inputs : Inputs} {source : Source} {view : Files.View Id} {content : ByteArray}

/-- The same inputs with another query, or with none. -/
def withQuery (inputs : Inputs) (query : Option String) : Inputs :=
  { inputs with query := query }

/-- The part of a document that is taken can be read as well. -/
theorem select_readable {origin : String} {v : Json} (h : v.Readable) :
    Related (fun u w => u = w ∧ u.Readable) (inputs.select origin v) (inputs.select origin v) := by
  unfold select
  split
  · exact .ok ⟨rfl, h⟩
  · split
    next hu => exact .ok ⟨rfl, h.select? hu⟩
    next => exact .error _

/-- The query makes one document of one, and this is alike. -/
theorem transform_identity {origin : String} {v : Json} (h : v.Readable) :
    Related (List.Forall₂ Json.Alike) ((inputs.withQuery none).transform origin v)
      ((inputs.withQuery (some ".")).transform origin v) := by
  obtain ⟨v', hrun, halike⟩ := Query.exists_run_identity h
  simp only [transform, withQuery, hrun]
  exact .ok (.cons halike .nil)

/-- The documents of one text are alike with the query and without. -/
theorem documentsOf_identity (text : String) :
    Related (List.Forall₂ Document.Alike) ((inputs.withQuery none).documentsOf source text)
      ((inputs.withQuery (some ".")).documentsOf source text) := by
  cases hblank : Text.isBlankText text with
  | true =>
      simp only [documentsOf, hblank]
      exact .error _
  | false =>
      cases hread : Json.read text with
      | error e =>
          simp only [documentsOf, hblank, hread]
          exact .error _
      | ok v =>
          rw [documentsOf_of_read hblank hread, documentsOf_of_read hblank hread]
          -- Only the query differs: the part is taken in front of it, the name is found behind it.
          refine (select_readable (Json.readable_of_read hread)).bind ?_
          rintro u _ ⟨rfl, hu⟩
          refine (transform_identity hu).bind fun us ws hus => ?_
          refine (Related.refl (R := Eq) (fun _ => rfl) _).map ?_
          rintro named _ rfl
          rw [List.forall₂_map_left_iff, List.forall₂_map_right_iff]
          exact hus.imp fun _ _ h => ⟨rfl, rfl, rfl, h⟩

/-- And so are those of several sources. -/
theorem documentsFrom_identity (sources : List Source) :
    Related (List.Forall₂ Document.Alike)
      ((inputs.withQuery none).documentsFrom view content sources)
      ((inputs.withQuery (some ".")).documentsFrom view content sources) := by
  induction sources generalizing content with
  | nil => exact .ok .nil
  | cons source rest ih =>
      rw [documentsFrom_cons, documentsFrom_cons]
      refine (Related.refl (R := Eq) (fun _ => rfl) _).bind ?_
      -- Both sides read the same file, so the texts are the same.
      rintro text _ rfl
      refine (documentsOf_identity text).bind fun ds es hds => ?_
      exact ih.map fun more more' hmore => List.rel_append hds hmore

/-- And those of a command, whose names are told apart afterwards. -/
theorem documents_identity :
    Related (List.Forall₂ Document.Alike) ((inputs.withQuery none).documents view content)
      ((inputs.withQuery (some ".")).documents view content) := by
  rw [documents_eq, documents_eq]
  refine (Related.refl (R := Eq) (fun _ => rfl) _).bind ?_
  rintro sources _ rfl
  exact (documentsFrom_identity sources).map fun ds es h => distinguish_alike h

end Inputs

/-- A command with another query. -/
def Command.withQuery (c : Command) (query : Option String) : Command :=
  match c with
  | .dart inputs overrides destination => .dart (inputs.withQuery query) overrides destination
  | .idle => .idle
  | .inspect inputs overrides file => .inspect (inputs.withQuery query) overrides file

/-- The settings and the warnings do not depend on the query. -/
theorem gather_identity (inputs : Inputs) (overrides : Overrides) (view : Files.View Id)
    (content : ByteArray) :
    ∃ warnings found found',
      gather (inputs.withQuery none) overrides view (pure content) = (warnings, found) ∧
      gather (inputs.withQuery (some ".")) overrides view (pure content) = (warnings, found') ∧
      Related (fun g g' => g.1 = g'.1 ∧ List.Forall₂ Document.Alike g.2 g'.2) found found' := by
  refine ⟨_, _, _, gather_eq, gather_eq, ?_⟩
  refine (Related.refl (R := Eq) (fun _ => rfl) _).bind ?_
  rintro o _ rfl
  exact Inputs.documents_identity.map fun ds es h => ⟨rfl, h⟩

/-- So what a command is about to do is the same: it looks at the documents for their
    classes and their places only. -/
theorem Command.prepare_identity (c : Command) (view : Files.View Id) (content : ByteArray) :
    (c.withQuery (some ".")).prepare view (pure content) =
      (c.withQuery none).prepare view (pure content) := by
  cases c with
  | idle => rfl
  | dart inputs overrides destination =>
      obtain ⟨warnings, found, found', hfound, hfound', hrel⟩ :=
        gather_identity inputs overrides view content
      rw [withQuery, withQuery, prepare, prepare, hfound, hfound']
      cases hrel with
      | error e => rfl
      | @ok g g' hg =>
          obtain ⟨o, ds⟩ := g
          obtain ⟨o', es⟩ := g'
          obtain ⟨rfl, hds⟩ := hg
          have hconverted := convertAll_alike (o := o) hds
          simp only [bind, pure]
          -- Both conversions fail with one error, or both have the same classes to plan for.
          generalize convertAll o ds = x at hconverted
          generalize convertAll o es = y at hconverted
          cases hconverted with
          | error e => rfl
          | ok hcs => simp only [planDart_alike hcs]
  | inspect inputs overrides file =>
      obtain ⟨warnings, found, found', hfound, hfound', hrel⟩ :=
        gather_identity inputs overrides view content
      rw [withQuery, withQuery, prepare, prepare, hfound, hfound']
      cases hrel with
      | error e => rfl
      | @ok g g' hg =>
          obtain ⟨o, ds⟩ := g
          obtain ⟨o', es⟩ := g'
          obtain ⟨rfl, hds⟩ := hg
          simp only [bind, pure, mapM_describe_alike hds]

/-- The query `.` loses nothing: of every document that can be read it gives one
    that is the same but for the rounding of doubles, which has the same classes,
    and every command does with it what it does without a query. -/
theorem run_identity_alike :
    (∀ text d, Json.read text = .ok d → ∃ d', Query.run "." d = .ok [d'] ∧ d.Alike d' ∧
      ∀ o name, convert o name d' = convert o name d) ∧
    ∀ (c : Command) (t : Tree) (home : List String) (content : ByteArray),
      (c.withQuery (some ".")).runOn t home content = (c.withQuery none).runOn t home content := by
  refine ⟨fun text d h => ?_, fun c t home content => ?_⟩
  · obtain ⟨d', hrun, halike⟩ := Query.exists_run_identity (Json.readable_of_read h)
    exact ⟨d', hrun, halike, fun o name => convert_alike halike name⟩
  · rw [Command.runOn, Command.runOn, Command.prepare_identity]

/-- A document with a negative zero, an integer beyond the signed range, a double
    with an exponent and a key with an escape. -/
def sampleText : String :=
  "\x7b\"b\": -0.0, \"a\\n\": [18446744073709551615, 5e-324, true]\x7d"

/-- It is printed as it stands, and the query gives a document with the same classes. -/
theorem run_identity_alike_sample :
    ∃ d d', Json.read sampleText = .ok d ∧
      d.compact = "\x7b\"b\":-0.0,\"a\\n\":[18446744073709551615,5e-324,true]\x7d" ∧
      Query.run "." d = .ok [d'] ∧ d.Alike d' ∧ convert {} "Root" d' = convert {} "Root" d := by
  have hsome : (Json.read sampleText).toOption.map Json.compact =
      some "\x7b\"b\":-0.0,\"a\\n\":[18446744073709551615,5e-324,true]\x7d" := by
    decide +kernel
  cases hread : Json.read sampleText with
  | error e => simp [hread, Except.toOption] at hsome
  | ok d =>
      simp only [hread, Except.toOption, Option.map_some, Option.some.injEq] at hsome
      obtain ⟨d', hrun, halike, hconvert⟩ := run_identity_alike.1 sampleText d hread
      exact ⟨d, d', rfl, hsome, hrun, halike, hconvert {} "Root"⟩

end DartModels
