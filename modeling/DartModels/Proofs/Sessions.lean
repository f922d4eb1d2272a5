import DartModels.Proofs.FieldNames

/-!
# Sessions

Several requests to one class table.

An inference can be asked again. The classes of earlier documents are then there
for later ones, and so are those that a failed request had completed before its
error. A request for a whole document pins a root each time, and the root before
it is from then on a class like any other, which may give way.

A journal that pins twice is not legal, so a session is not one long journal. It
is a row of requests, and what each of them keeps is kept by all. The walk of a
request below its root pins nothing and may begin in any well-formed table; the
root is added when the walk is over.

## Main definitions

* `Request`, `Request.apply`: What an inference is asked for.
* `session`: The table after a row of requests.

## Theorems

* `Request.keeps`: What one request keeps.
* `session_labelled`: In all classes of a session the keys are distinct and the
  fields have the names that belong to these keys, which are identifiers that a
  program can use.
-/

namespace DartModels

namespace Inference

open ClassTable

/-- A request to an inference: the slot of a value, whose class is named after
    `hint`, or the class of a whole document. -/
inductive Request where
  | value (hint : String) (depth : Nat) (v : Json)
  | document (name : String) (v : Json)

namespace Request

/-- What is looked at. -/
def json : Request → Json
  | .value _ _ v => v
  | .document _ v => v

/-- The error of a request that fails. -/
def error? (o : Options) (t : ClassTable) : Request → Option InferenceError
  | .value hint depth v =>
      match (observe o t hint depth [] v).1 with
      | .ok _ => none
      | .error e => some e
  | .document name v =>
      match (observeRoot o t name v).1 with
      | .ok _ => none
      | .error e => some e

/-- The table after a request, also if it fails. -/
def apply (o : Options) (t : ClassTable) : Request → ClassTable
  | .value hint depth v => (observe o t hint depth [] v).2
  | .document name v => (observeRoot o t name v).2

end Request

/-- The table after a row of requests to a new inference. -/
def session (o : Options) (rs : List Request) : ClassTable :=
  rs.foldl (Request.apply o) .empty

variable {t : ClassTable}

/-- Operations that pin nothing and bring in fields in order keep a table in
    order. -/
theorem keeps_run (hw : t.WellFormed) (he : t.Each Field.Labelled) {ops : List Operation}
    (hl : t.Legal ops) (hops : ∀ op ∈ ops, op.Brings Field.Labelled) {t' : ClassTable}
    (hrun : t.run ops = t') : t'.WellFormed ∧ t'.Each Field.Labelled :=
  hrun ▸ ⟨(hw.run hl).1, he.run numberless_labelled hw hl hops⟩

/-- A request keeps a table in order. -/
theorem Request.keeps (o : Options) (hw : t.WellFormed) (he : t.Each Field.Labelled) (r : Request)
    (hr : r.json.Distinct) : (r.apply o t).WellFormed ∧ (r.apply o t).Each Field.Labelled := by
  cases r with
  | value hint depth v =>
      exact keeps_run hw he (legal_observeOps o hw hint depth [] v).1
        ((visits_brings o).observeOps t hint depth [] v hr) (run_observeOps o t hint depth [] v)
  | document name v =>
      cases v with
      | null | bool _ | number _ | string _ | array _ => exact ⟨hw, he⟩
      | object members =>
          -- To keep a name for the root changes no class.
          have hw' := hw.rewrites_self (rewrites_reserveName t name)
          have he' : (t.reserveName name).Each Field.Labelled := he
          rcases legal_observeMembersOps o hw' 1 [] members with ⟨hl, hk⟩
          rcases keeps_run hw' he' hl ((visits_brings o).observeMembersOps _ 1 [] members
            (Json.distinctMembers_iff.mp hr.2)) (run_observeMembersOps o _ 1 [] members) with
            ⟨hwalk, heach⟩
          -- If the walk succeeds the root is added under its keys, which are distinct.
          simp only [Request.apply, observeRoot]
          rcases hobs : observeMembers o (t.reserveName name) 1 [] members with ⟨e | fields, t'⟩
          · rw [hobs] at hwalk heach
            exact ⟨hwalk, heach⟩
          · rw [hobs] at hwalk heach
            have hlabelled := labelled_observeMembers hobs hr.1
            exact ⟨hwalk.registerPinned name (knownAll_withNames (hk fields t' hobs)),
              heach.push name ((numberless_labelled t'.resolve _).mpr hlabelled)⟩

/-- Requests one after the other keep a table in order. -/
theorem keeps_requests (o : Options) (hw : t.WellFormed) (he : t.Each Field.Labelled)
    (rs : List Request) (hrs : ∀ r ∈ rs, r.json.Distinct) :
    (rs.foldl (Request.apply o) t).WellFormed ∧
      (rs.foldl (Request.apply o) t).Each Field.Labelled := by
  induction rs generalizing t with
  | nil => exact ⟨hw, he⟩
  | cons r rest ih =>
      rw [List.forall_mem_cons] at hrs
      rcases r.keeps o hw he hrs.1 with ⟨hw', he'⟩
      exact ih hw' he' hrs.2

/-- After any requests, failed ones among them, the keys of every class are
    distinct and its fields have the names that belong to these keys. Whatever
    the keys are, such names are distinct identifiers with a small letter in
    front, and none of them is spoken for. -/
theorem session_labelled (o : Options) (rs : List Request) (hrs : ∀ r ∈ rs, r.json.Distinct) :
    (∀ c ∈ (session o rs).classes, (c.fields.map Field.key).Nodup ∧
        c.fields.map Field.name = Identifier.distinctFieldNames (c.fields.map Field.key)) ∧
      ∀ keys : List String, (Identifier.distinctFieldNames keys).length = keys.length ∧
        (Identifier.distinctFieldNames keys).Nodup ∧
          ∀ name ∈ Identifier.distinctFieldNames keys, Identifier.IsFieldName name ∧
            name ∉ Identifier.keywords ∧ name ∉ Identifier.coreTypes ∧
              name ∉ Identifier.members := by
  refine ⟨fun c hc => ?_, fun keys => ⟨Identifier.length_distinctFieldNames keys,
    Identifier.nodup_distinctFieldNames keys, fun name hname => ?_⟩⟩
  · rcases mem_classes_iff.mp hc with ⟨i, hi⟩
    have hlabelled := (keeps_requests o WellFormed.empty (each_empty _) rs hrs).2 i c hi
    exact ⟨hlabelled.keys, hlabelled.names⟩
  · rcases Identifier.distinctFieldNames_form keys name hname with ⟨hform, hreserved⟩
    simp only [Identifier.isReserved, Bool.or_eq_false_iff, List.contains_eq_mem,
      decide_eq_false_iff_not] at hreserved
    exact ⟨hform, hreserved.1.1, hreserved.2, hreserved.1.2⟩

/-- A document whose keys have one name, one that is nested too deep behind a
    class that is completed, and a list whose elements are merged with it. -/
def sampleRequests : List Request :=
  [.document "R" (.object [("A", .bool true), ("a", .null)]),
    .document "R" (.object [("id", .object [("user_id", .bool true), ("userId", .null)]),
      ("z", .array [.array [.array [.null]]])]),
    .value "id" 1 (.array [.object [("user_id", .bool true), ("userId", .null)],
      .object [("UserID", .bool true)]])]

/-- The second request fails, and the names are in order after all three. -/
theorem session_labelled_failure :
    ((sampleRequests[1].error? { maxDepth := 3 } (session { maxDepth := 3 } [sampleRequests[0]]) =
        some (.tooDeep [.key "z", .index 0, .index 0, .index 0] 3)) ∧
      (∀ r ∈ sampleRequests, r.json.Distinct) ∧
      (session { maxDepth := 3 } sampleRequests).classes.map (fun c => c.fields.map Field.key) =
        [["A", "a"], ["user_id", "userId", "UserID"]] ∧
      ∀ c ∈ (session { maxDepth := 3 } sampleRequests).classes,
        c.fields.map Field.name =
          Identifier.distinctFieldNames (c.fields.map Field.key)) := by
  have hdistinct : ∀ r ∈ sampleRequests, r.json.Distinct := by
    simp [sampleRequests, Request.json, Json.Distinct, Json.DistinctItems, Json.DistinctMembers]
  exact ⟨by decide +kernel, hdistinct, by decide +kernel,
    fun c hc => ((session_labelled _ _ hdistinct).1 c hc).2⟩

end Inference

end DartModels
