import DartModels.Proofs.Depth
import DartModels.Proofs.Digits

/-!
# Reported paths

What the path of an error report tells.

A path is reported in words, and a key may hold whatever a path is spelled with: a
point, a bracket, a quote, or the words of a whole path. Still the words tell the
steps, because each step shows where it ends. Behind a point it ends with the
letters, digits and underscores, behind a bracket with the next one, and in quotes
with the first quote that has no backslash of its own in front of it. A reader that
takes one step off the front of a text needs to know no more than that what follows
the step is not more of a key behind a point. Since every step begins with a point
or a bracket, this is so, and an induction on the steps does the rest.

To tell the steps is to tell the value. No object has a key twice, so the steps lead
to one value only. And the steps that come with a report do lead to a value that
lies too deep, in every part of the walk and in every request: an element or a
member that reports is reached by one step from the array or the object.

## Main definitions

* `Path.takeStep`: The first step of a path in words.
* `Inference.LeadsTooDeep`: A path to a value that lies too deep.
* `Inference.Request.depth`: Where the value of a request lies.

## Theorems

* `Path.flatMap_escape`: Backslashes are escaped before quotes.
* `Path.takeStep_renderStep`: A step is read back.
* `Path.render_injective`: Different paths are spelled differently.
* `Json.Leads.unique`: A path leads to one value.
* `Inference.leadsTooDeep_of_observe`: What is reported lies too deep.
* `Inference.reported_path_determines`: The words of a report tell the value.
-/

namespace DartModels

namespace Path

/-! ### Quotes and backslashes -/

/-- A character, behind a backslash if it is the special one. -/
def guard (special c : Char) : List Char :=
  if c = special then ['\\', c] else [c]

/-- A key is escaped as if its backslashes came first and its quotes after them. In
    the other order the backslash in front of a quote would get one itself, and then
    the quote would end the key. -/
theorem flatMap_escape (key : List Char) :
    key.flatMap escape = (key.flatMap (guard '\\')).flatMap (guard '\'') := by
  rw [List.flatMap_assoc]
  refine List.flatMap_congr fun c _ => ?_
  unfold escape
  split
  · next hc =>
      rw [hc]
      rfl
  · next hb =>
      rw [guard, if_neg hb, List.flatMap_singleton, guard]
      split
      · next hq => rw [hq]
      · rfl

/-! ### The reader -/

/-- A character of a key that can follow a point. -/
def plain (c : Char) : Bool :=
  c.isAlphanum || c == '_'

/-- Put a character in front of a key that was taken. -/
def push (c : Char) (r : Option (List Char × List Char)) : Option (List Char × List Char) :=
  r.map fun (key, rest) => (c :: key, rest)

/-- Take a key up to its closing quote off the front of a text. Behind a backslash
    every character stands for itself. -/
def takeQuoted : List Char → Option (List Char × List Char)
  | [] => none
  | '\'' :: cs => some ([], cs)
  | '\\' :: c :: cs => push c (takeQuoted cs)
  | c :: cs => push c (takeQuoted cs)

/-- Take a step off the front of a text. -/
def takeStep : List Char → Option (Step × List Char)
  | '.' :: cs => some (.key (String.ofList (cs.takeWhile plain)), cs.dropWhile plain)
  | '[' :: '\'' :: cs =>
      match takeQuoted cs with
      | some (key, ']' :: rest) => some (.key (String.ofList key), rest)
      | _ => none
  | '[' :: cs =>
      match cs.dropWhile Char.isDigit with
      | ']' :: rest => some (.index (Nat.ofDigitChars 10 (cs.takeWhile Char.isDigit) 0), rest)
      | _ => none
  | _ => none

/-! ### Steps are read back -/

/-- What is written for a character is read as the character. -/
theorem takeQuoted_escape (c : Char) (cs : List Char) :
    takeQuoted (escape c ++ cs) = push c (takeQuoted cs) := by
  unfold escape
  split
  · next hc =>
      rw [hc]
      rfl
  · split
    · next hc =>
        rw [hc]
        rfl
    · next hb hq =>
        rw [List.singleton_append, takeQuoted]
        · exact hq
        · exact fun _ _ h => absurd h hb

/-- A key in quotes is read up to its closing quote. -/
theorem takeQuoted_flatMap_escape (key rest : List Char) :
    takeQuoted (key.flatMap escape ++ '\'' :: rest) = some (key, rest) := by
  induction key with
  | nil => rfl
  | cons c cs ih =>
      rw [List.flatMap_cons, List.append_assoc, takeQuoted_escape, ih]
      rfl

/-- What is written for a step is taken as the step, whatever follows that is not
    more of a key behind a point. -/
theorem takeStep_renderStep (s : Step) {rest : List Char}
    (hrest : ∀ c ∈ rest.head?, plain c = false) :
    takeStep (renderStep s ++ rest) = some (s, rest) := by
  cases s with
  | key name =>
      rw [renderStep]
      by_cases hplain : isPlain name.toList = true
      · have hall : ∀ c ∈ name.toList, plain c = true := by
          rw [isPlain, Bool.and_eq_true] at hplain
          exact List.all_eq_true.mp hplain.2
        -- Behind a point the key ends where its plain characters do.
        simp only [hplain, if_true, List.cons_append, takeStep, takeWhile_append_eq hall hrest,
          dropWhile_append_eq hall hrest, String.ofList_toList]
      · have hquoted := takeQuoted_flatMap_escape name.toList (']' :: rest)
        simp only [hplain, Bool.false_eq_true, if_false, List.cons_append, List.nil_append,
          List.append_assoc, takeStep, hquoted, String.ofList_toList]
  | index i =>
      have hdigits := AllDigits.toDigits i
      have hbracket : ∀ c ∈ (']' :: rest).head?, c.isDigit = false := fun c hc => by
        cases hc
        rfl
      rw [renderStep, Nat.toString_eq_ofList_toDigits, String.toList_ofList, List.cons_append,
        List.append_assoc, List.singleton_append, takeStep]
      · simp only [takeWhile_append_eq hdigits hbracket, dropWhile_append_eq hdigits hbracket,
          Nat.ofDigitChars_ten_toDigits]
      · -- A digit is no quote, so this is not the bracket of a quoted key.
        intro cs heq
        cases hi : Nat.toDigits 10 i with
        | nil => exact Nat.toDigits_ne_nil hi
        | cons d ds =>
            rw [hi] at heq hdigits
            have hd := hdigits d List.mem_cons_self
            rw [(List.cons.inj heq).1] at hd
            exact absurd hd (by decide)

/-- A step begins with a point or a bracket. -/
theorem head?_flatMap_renderStep (p : List Step) :
    ∀ c ∈ (p.flatMap renderStep).head?, plain c = false := by
  intro c hc
  cases p with
  | nil => cases hc
  | cons s p =>
      rw [List.flatMap_cons] at hc
      cases s with
      | key name =>
          rw [renderStep] at hc
          split at hc <;> cases hc <;> rfl
      | index i =>
          cases hc
          rfl

/-- The first step of a path is taken off its words. -/
theorem takeStep_flatMap_renderStep (p : List Step) :
    takeStep (p.flatMap renderStep) = p.head?.map fun s => (s, p.tail.flatMap renderStep) := by
  cases p with
  | nil => rfl
  | cons s p =>
      rw [List.flatMap_cons]
      exact takeStep_renderStep s (head?_flatMap_renderStep p)

/-- Steps in words tell the steps: the first is taken off both, and the rest is the
    same. -/
theorem flatMap_renderStep_injective {p q : List Step}
    (h : p.flatMap renderStep = q.flatMap renderStep) : p = q := by
  induction p generalizing q with
  | nil =>
      have htake := congrArg takeStep h
      rw [takeStep_flatMap_renderStep, takeStep_flatMap_renderStep] at htake
      cases q with
      | nil => rfl
      | cons s q => cases htake
  | cons s p ih =>
      have htake := congrArg takeStep h
      rw [takeStep_flatMap_renderStep, takeStep_flatMap_renderStep] at htake
      cases q with
      | nil => cases htake
      | cons s' q =>
          simp only [List.head?_cons, List.tail_cons, Option.map_some, Option.some.injEq,
            Prod.mk.injEq] at htake
          rw [htake.1, ih htake.2]

/-- A path in words tells its steps. -/
theorem render_injective {p q : List Step} (h : render p = render q) : p = q :=
  flatMap_renderStep_injective (List.cons.inj (String.ofList_injective h)).2

end Path

/-! ### The value at a path -/

/-- In a document without repeated keys a path leads to one value. -/
theorem Json.Leads.unique {v w u : Json} {p : List Step} (hv : v.Distinct) (h : v.Leads p w)
    (h' : v.Leads p u) : w = u := by
  induction h with
  | here v =>
      cases h'
      rfl
  | member hm h ih =>
      cases h' with
      | member hm' h' =>
          -- Without repeated keys the member of a key is the one that is found under it.
          have hfound := (find?_eq_some_iff hv.1).mpr hm
          rw [(find?_eq_some_iff hv.1).mpr hm', Option.some.injEq] at hfound
          exact ih (distinctMembers_iff.mp hv.2 _ hm) (hfound ▸ h')
  | item hi h ih =>
      cases h' with
      | item hi' h' =>
          rw [hi, Option.some.injEq] at hi'
          exact ih (distinctItems_iff.mp hv _ (List.mem_of_getElem? hi)) (hi' ▸ h')

namespace Inference

/-- The path leads to a value inside `v` that lies too deep, if `v` itself lies at
    this depth. -/
def LeadsTooDeep (o : Options) (depth : Nat) (v : Json) (path : List Step) : Prop :=
  ∃ w, v.Leads path w ∧ o.maxDepth < depth + path.length

namespace LeadsTooDeep

variable {o : Options} {depth : Nat} {v : Json} {path : List Step}

/-- A value too deep in a member lies too deep in the object. -/
theorem member {members : List (String × Json)} {key : String} (hm : (key, v) ∈ members)
    (h : LeadsTooDeep o (depth + 1) v path) :
    LeadsTooDeep o depth (.object members) (.key key :: path) := by
  rcases h with ⟨w, hleads, hdeep⟩
  exact ⟨w, .member hm hleads, by rw [List.length_cons]; omega⟩

/-- A value too deep in an element lies too deep in the list. -/
theorem item {items : List Json} {i : Nat} (hi : items[i]? = some v)
    (h : LeadsTooDeep o (depth + 1) v path) :
    LeadsTooDeep o depth (.array items) (.index i :: path) := by
  rcases h with ⟨w, hleads, hdeep⟩
  exact ⟨w, .item hi hleads, by rw [List.length_cons]; omega⟩

end LeadsTooDeep

mutual

/-- A report names a value that lies too deep by the steps that lead to it. -/
theorem leadsTooDeep_of_observe {o : Options} {t t' : ClassTable} {hint : String} {depth : Nat}
    {path p : List Step} {v : Json} {limit : Nat}
    (h : observe o t hint depth path v = (.error (.tooDeep p limit), t')) :
    ∃ rest, p = path.reverse ++ rest ∧ LeadsTooDeep o depth v rest := by
  rw [observe.eq_def] at h
  split at h
  · next hdeep =>
      -- The value itself is reported.
      cases h
      exact ⟨[], (List.append_nil _).symm, v, .here v, hdeep⟩
  · cases v with
    | null | bool _ | number _ | string _ => cases h
    | array items =>
        simp only at h
        split at h
        · -- To join the elements reports nothing.
          rw [joinElements] at h
          split at h <;> cases h
        · next hitems =>
            cases h
            exact leadsTooDeep_of_observeItems [] hitems
    | object members =>
        simp only at h
        split at h
        · -- A class that finds no name is not too deep.
          rw [registerObject] at h
          split at h <;> cases h
        · next hmembers =>
            cases h
            exact leadsTooDeep_of_observeMembers [] hmembers

/-- The elements `before` those that are looked at keep the numbers right. -/
theorem leadsTooDeep_of_observeItems {o : Options} {t t' : ClassTable} {hint : String}
    {depth : Nat} {path p : List Step} {items : List Json} {limit : Nat} (before : List Json)
    (h : observeItems o t hint (depth + 1) path before.length items =
      (.error (.tooDeep p limit), t')) :
    ∃ rest, p = path.reverse ++ rest ∧ LeadsTooDeep o depth (.array (before ++ items)) rest := by
  cases items with
  | nil => cases h
  | cons v items =>
      rw [observeItems.eq_def] at h
      simp only at h
      split at h
      · cases h
      · split at h
        · next hv =>
            cases h
            rcases leadsTooDeep_of_observe hv with ⟨rest, rfl, hrest⟩
            rw [List.reverse_cons, List.append_assoc, List.singleton_append]
            exact ⟨_, rfl, hrest.item (by simp)⟩
        · split at h
          · cases h
          · next hitems =>
              cases h
              -- The next element has the number of those before it.
              have hcount : before.length + 1 = (before ++ [v]).length := by simp
              rw [hcount] at hitems
              rw [List.append_cons]
              exact leadsTooDeep_of_observeItems (before ++ [v]) hitems

/-- The members before those that are looked at are kept for the object as a whole. -/
theorem leadsTooDeep_of_observeMembers {o : Options} {t t' : ClassTable} {depth : Nat}
    {path p : List Step} {members : List (String × Json)} {limit : Nat}
    (before : List (String × Json))
    (h : observeMembers o t (depth + 1) path members = (.error (.tooDeep p limit), t')) :
    ∃ rest, p = path.reverse ++ rest ∧
      LeadsTooDeep o depth (.object (before ++ members)) rest := by
  cases members with
  | nil => cases h
  | cons member members =>
      rcases member with ⟨key, v⟩
      rw [observeMembers.eq_def] at h
      simp only at h
      split at h
      · next hv =>
          cases h
          rcases leadsTooDeep_of_observe hv with ⟨rest, rfl, hrest⟩
          rw [List.reverse_cons, List.append_assoc, List.singleton_append]
          exact ⟨_, rfl, hrest.member (by simp)⟩
      · split at h
        · cases h
        · next hmembers =>
            cases h
            rw [List.append_cons]
            exact leadsTooDeep_of_observeMembers (before ++ [(key, v)]) hmembers

end

/-- The depth at which the value of a request lies. -/
def Request.depth : Request → Nat
  | .value _ depth _ => depth
  | .document _ _ => 0

/-- What a request reports lies inside its value. -/
theorem Request.leadsTooDeep_of_error? {o : Options} {t : ClassTable} {r : Request}
    {p : List Step} {limit : Nat} (h : r.error? o t = some (.tooDeep p limit)) :
    LeadsTooDeep o r.depth r.json p := by
  cases r with
  | value hint depth v =>
      rw [error?] at h
      split at h
      · cases h
      · next he =>
          cases h
          rcases leadsTooDeep_of_observe (Prod.ext he rfl) with ⟨rest, rfl, hrest⟩
          exact hrest
  | document name v =>
      rw [error?] at h
      split at h
      · cases h
      · next he =>
          cases h
          cases v with
          | null | bool _ | number _ | string _ | array _ => cases he
          | object members =>
              -- The object of a document is named without looking at its depth.
              rw [observeRoot] at he
              split at he
              · cases he
              · next hmembers =>
                  cases he
                  rcases leadsTooDeep_of_observeMembers [] hmembers with ⟨rest, rfl, hrest⟩
                  exact hrest

/-- A path in words tells the steps it is made of, whatever the keys are. So the
    path that is reported for a value that lies too deep belongs to that value and
    to no other value of the document. -/
theorem reported_path_determines :
    (∀ p q : List Step, Path.render p = Path.render q ↔ p = q) ∧
      ∀ (o : Options) (t : ClassTable) (r : Request) (p : List Step) (limit : Nat),
        r.json.Distinct → r.error? o t = some (.tooDeep p limit) →
          ∃ v, r.json.Leads p v ∧ o.maxDepth < r.depth + p.length ∧
            ∀ q w, r.json.Leads q w → Path.render q = Path.render p → q = p ∧ w = v := by
  refine ⟨fun p q => ⟨Path.render_injective, congrArg Path.render⟩, ?_⟩
  intro o t r p limit hdistinct herror
  rcases r.leadsTooDeep_of_error? herror with ⟨v, hleads, hdeep⟩
  -- The same words are the same steps, and these lead to one value.
  refine ⟨v, hleads, hdeep, fun q w hq hrender => ?_⟩
  have hqp : q = p := Path.render_injective hrender
  rw [hqp] at hq
  exact ⟨hqp, hq.unique hdistinct hleads⟩

/-- A document with a key that looks like two keys, and with these two keys. -/
def lookalikeKeys : Json :=
  .object [("x y']['z w", .object [("k", .null)]),
    ("x y", .object [("z w", .object [("k", .array [.null])])])]

/-- The value behind the two keys is the only one that the report can mean, although
    the path of another value differs from it by two backslashes only. -/
theorem reported_path_determines_lookalikeKeys :
    (Request.document "R" lookalikeKeys).error? { maxDepth := 2 } .empty =
        some (.tooDeep [.key "x y", .key "z w", .key "k"] 2) ∧
      Path.render [.key "x y", .key "z w", .key "k"] = "$['x y']['z w'].k" ∧
      Path.render [.key "x y']['z w", .key "k"] = "$['x y\\'][\\'z w'].k" ∧
      ∃ v, lookalikeKeys.Leads [.key "x y", .key "z w", .key "k"] v ∧
        ∀ q w, lookalikeKeys.Leads q w → Path.render q = "$['x y']['z w'].k" →
          q = [.key "x y", .key "z w", .key "k"] ∧ w = v := by
  have hdistinct : lookalikeKeys.Distinct := by
    simp [lookalikeKeys, Json.Distinct, Json.DistinctItems, Json.DistinctMembers]
  have herror : (Request.document "R" lookalikeKeys).error? { maxDepth := 2 } .empty =
      some (.tooDeep [.key "x y", .key "z w", .key "k"] 2) := by decide +kernel
  have hrender : Path.render [.key "x y", .key "z w", .key "k"] = "$['x y']['z w'].k" := by
    decide +kernel
  rcases reported_path_determines.2 _ _ (.document "R" lookalikeKeys) _ _ hdistinct herror with
    ⟨v, hleads, _, hall⟩
  exact ⟨herror, hrender, by decide +kernel, v, hleads,
    fun q w hq hw => hall q w hq (hw.trans hrender.symm)⟩

end Inference

end DartModels
