import DartModels.Proofs.Writing

/-!
# Places

Which place of a tree a path means, and how little a write can reach.

Paths are compared by their steps. Beside the steps it matters where a path begins,
at the top or in the working directory, and the two together say which place is
meant, whatever the tree is, as long as nothing is missing on the way. A path that is
put behind another goes on from it, unless it begins at the top. Then it discards the
other one.

To write a file is to touch one place. Directories may be made on the way, but no
file appears, changes or goes away anywhere else. The relation `Tree.SameOutside`
says this from both sides, and what single writes keep in this sense, a run over many
files keeps, wherever it ends.

## Main definitions

* `Path.steps`: The steps of a path.
* `Path.GoesOn`: A path that goes on from another.
* `Path.place`: The place that a path means.
* `Tree.SameOutside`: Two trees with the same files outside some places.

## Theorems

* `Path.steps_append`: The steps of a path that is put together.
* `Path.GoesOn.place_eq`: Steps lead to a place below, unless one leads upwards.
* `Tree.eq_place_of_locate`: A path leads nowhere but to its place.
* `Tree.file_at?_put_iff`: What is put into a tree changes no file elsewhere.
* `Tree.sameOutside_write`: Writing a file touches the place of its path.
* `sameOutside_writeAll`: Writing many files touches their places.
-/

namespace DartModels

namespace Path

/-- The steps of a path: what stands between its slashes, without what leads
    nowhere. -/
def steps (path : String) : List String :=
  (segments path).filter fun s => !isIdle s

/-- A path that begins where another does and goes on from it by the given steps. -/
def GoesOn (base path : String) (more : List String) : Prop :=
  path.startsWith "/" = base.startsWith "/" ∧ steps path = steps base ++ more

/-- The place that a step leads to. -/
def stepFrom (here : List String) (step : String) : List String :=
  if step == ".." then here.dropLast else here ++ [step]

/-- The place that a path means, seen from the working directory. -/
def place (home : List String) (path : String) : List String :=
  (steps path).foldl stepFrom (Tree.origin home path)

/-! ### Steps -/

/-- A path begins at the top exactly if its first character is a slash. -/
theorem startsWith_slash_iff {path : String} :
    path.startsWith "/" = true ↔ path.toList.head? = some '/' := by
  rw [String.startsWith_string_iff]
  cases path.toList with
  | nil => exact iff_of_false (fun h => absurd (List.prefix_nil.mp h) (by decide)) nofun
  | cons c rest =>
      show ['/'] <+: c :: rest ↔ _
      rw [List.cons_prefix_cons, List.head?_cons, Option.some.injEq, eq_comm]
      exact and_iff_left List.nil_prefix

/-- The empty path has no steps. -/
theorem steps_empty : steps "" = [] :=
  rfl

/-- It does not begin at the top. -/
theorem startsWith_empty : "".startsWith "/" = false := by
  rw [Bool.eq_false_iff]
  exact fun h => nomatch startsWith_slash_iff.mp h

/-- A slash parts the steps of what stands before it and behind it. -/
theorem steps_append_slash (base name : String) :
    steps (base ++ "/" ++ name) = steps base ++ steps name := by
  rw [steps, segments_append_slash, List.filter_append]
  rfl

/-- A path that ends in a slash is what stands before it. -/
theorem exists_of_endsWith_slash {base : String} (h : base.endsWith "/" = true) :
    ∃ front, base = front ++ "/" ∧ ∀ name, steps (base ++ name) = steps base ++ steps name := by
  rcases List.getLast?_eq_some_iff.mp (endsWith_slash_iff.mp h) with ⟨front, hfront⟩
  have hbase : base = String.ofList front ++ "/" := by
    rw [← String.toList_inj, hfront, String.toList_append, String.toList_ofList]
    rfl
  refine ⟨_, hbase, fun name => ?_⟩
  -- Behind the last slash there is nothing, which is no step.
  have hempty := steps_append_slash (String.ofList front) ""
  rw [String.append_empty, steps_empty, List.append_nil] at hempty
  rw [hbase, steps_append_slash, hempty]

/-- A path that is put together has the steps of both parts, unless the second
    discards the first. -/
theorem steps_append (base name : String) :
    steps (append base name) =
      if name.startsWith "/" then steps name else steps base ++ steps name := by
  rw [append]
  cases habs : name.startsWith "/" with
  | true => rfl
  | false =>
      rw [Bool.false_or, if_neg Bool.false_ne_true]
      by_cases hempty : base.isEmpty = true
      · rw [if_pos hempty, String.isEmpty_iff.mp hempty, steps_empty, List.nil_append]
      · rw [if_neg hempty]
        split
        · rcases exists_of_endsWith_slash ‹_› with ⟨_, -, hsteps⟩
          exact hsteps name
        · exact steps_append_slash base name

/-- A path that is put together begins at the top if either part does. -/
theorem startsWith_append (base name : String) :
    (append base name).startsWith "/" = (name.startsWith "/" || base.startsWith "/") := by
  rw [append]
  cases habs : name.startsWith "/" with
  | true => simp [habs]
  | false =>
      by_cases hempty : base.isEmpty = true
      · rw [if_pos (by simp [hempty]), habs, String.isEmpty_iff.mp hempty]
        exact startsWith_empty
      · -- What is put behind a path that is not empty does not change its beginning.
        have hhead (more : String) :
            (base ++ more).startsWith "/" = base.startsWith "/" := by
          have hne : base.toList ≠ [] := by simpa using hempty
          rw [Bool.eq_iff_iff, startsWith_slash_iff, startsWith_slash_iff, String.toList_append,
            List.head?_append_of_ne_nil _ hne]
        rw [if_neg (by simpa using hempty), Bool.false_or]
        split
        · exact hhead name
        · rw [String.append_assoc, hhead]

/-- A name without a slash is one step. -/
theorem steps_eq_singleton {name : String} (hslash : '/' ∉ name.toList)
    (hidle : isIdle name = false) : steps name = [name] := by
  rw [steps, segments_eq_singleton hslash, List.filter_cons_of_pos (by simp [hidle]),
    List.filter_nil]

/-! ### Places -/

/-- Steps that do not lead upwards are put behind the place. -/
theorem foldl_stepFrom {here more : List String} (h : ∀ s ∈ more, s ≠ "..") :
    more.foldl stepFrom here = here ++ more := by
  induction more generalizing here with
  | nil => exact (List.append_nil here).symm
  | cons step rest ih =>
      have hup : (step == "..") = false := by simpa using h step List.mem_cons_self
      rw [List.foldl_cons, ih fun s hs => h s (List.mem_cons_of_mem step hs), stepFrom, hup,
        if_neg Bool.false_ne_true, List.append_assoc]
      rfl

/-- A relative name goes on by its steps. -/
theorem GoesOn.append {base path : String} {more : List String} (h : GoesOn base path more)
    {name : String} (hname : name.startsWith "/" = false) :
    GoesOn base (append path name) (more ++ steps name) := by
  refine ⟨by rw [startsWith_append, hname, Bool.false_or, h.1], ?_⟩
  rw [steps_append, hname, if_neg Bool.false_ne_true, h.2, List.append_assoc]

/-- Steps that do not lead upwards lead to a place below. -/
theorem GoesOn.place_eq {base path : String} {more : List String} (h : GoesOn base path more)
    (hmore : ∀ s ∈ more, s ≠ "..") (home : List String) :
    place home path = place home base ++ more := by
  rw [place, Tree.origin, h.1, h.2, List.foldl_append, foldl_stepFrom hmore]
  rfl

end Path

namespace Tree

/-- A walk ends where the steps say, if it comes to an end. -/
theorem eq_foldl_of_walk {t : Tree} {here p segments : List String}
    (h : t.walk here segments = .ok p) :
    p = (segments.filter fun s => !Path.isIdle s).foldl Path.stepFrom here := by
  induction segments generalizing here with
  | nil => exact (Except.ok.inj h).symm
  | cons segment rest ih =>
      rw [← List.singleton_append, walk_append] at h
      rcases Steps.bind_eq_ok_iff.mp h with ⟨next, hstep, hrest⟩
      have hnext := (walk_singleton_eq_ok_iff.mp hstep).2
      rw [ih hrest]
      -- A step that leads nowhere is one that the filter drops.
      cases hidle : Path.isIdle segment with
      | true =>
          rw [hidle, if_pos rfl] at hnext
          rw [List.filter_cons_of_neg (by simp [hidle]), hnext]
      | false =>
          rw [hidle, if_neg Bool.false_ne_true] at hnext
          rw [List.filter_cons_of_pos (by simp [hidle]), List.foldl_cons, Path.stepFrom]
          congr 1
          split at hnext
          · rw [if_pos ‹_›, hnext]
          · rw [if_neg ‹_›, hnext.2.2]

/-- A path leads nowhere but to its place. -/
theorem eq_place_of_locate {t : Tree} {home place : List String} {path : String}
    (h : t.locate home path = .ok place) : place = Path.place home path := by
  unfold locate at h
  rcases Steps.bind_eq_ok_iff.mp h with ⟨_, -, hwalk⟩
  exact eq_foldl_of_walk hwalk

/-! ### Files elsewhere -/

/-- Two trees with the same files outside some places. -/
def SameOutside (reach : List String → Prop) (t t' : Tree) : Prop :=
  ∀ p content, ¬ reach p → (t'.at? p = some (.file content) ↔ t.at? p = some (.file content))

/-- A tree has the same files as itself. -/
theorem SameOutside.refl (reach : List String → Prop) (t : Tree) : SameOutside reach t t :=
  fun _ _ _ => Iff.rfl

/-- Nothing changes in two turns either. -/
theorem SameOutside.trans {reach : List String → Prop} {a b c : Tree}
    (h : SameOutside reach a b) (h' : SameOutside reach b c) : SameOutside reach a c :=
  fun p content hp => (h' p content hp).trans (h p content hp)

/-- What is put into a tree changes no file elsewhere, if nothing lies below it before
    and after. -/
theorem file_at?_put_iff {t new : Tree} {folder p : List String} {name : String}
    {es : List (String × Tree)} {content : ByteArray}
    (hfolder : t.at? folder = some (.directory es))
    (hnew : ∀ q, q ≠ [] → new.at? q = none)
    (hold : ∀ q, q ≠ [] → t.at? (folder ++ [name] ++ q) = none) (hp : p ≠ folder ++ [name]) :
    (t.put (folder ++ [name]) new).at? p = some (.file content) ↔
      t.at? p = some (.file content) := by
  by_cases hbelow : folder ++ [name] <+: p
  · -- Below the place there was nothing, and there is nothing.
    rcases hbelow with ⟨q, rfl⟩
    have hq : q ≠ [] := fun hq => hp (by rw [hq, List.append_nil])
    rw [at?_append, at?_put_self, Option.bind_some, hnew q hq, hold q hq]
  by_cases habove : p <+: folder ++ [name]
  · -- Above the place there are directories.
    rcases habove with ⟨q, hq⟩
    have hne : q ≠ [] := fun hnil => hp (by rw [← hq, hnil, List.append_nil])
    rcases at?_put_append t new p hne with ⟨es', hes'⟩
    rw [hq] at hes'
    -- It has been a directory before, since the folder lies in it.
    have hold' : t.at? p ≠ some (.file content) := by
      intro hfile
      have hfront : folder = p ++ q.dropLast := by
        rw [← List.dropLast_append_of_ne_nil hne, hq, List.dropLast_concat]
      rw [hfront] at hfolder
      exact nomatch (eq_nil_of_at?_file hfile hfolder).2
    rw [hes']
    exact iff_of_false nofun hold'
  · rw [at?_put_of_apart t new hbelow habove]

/-- There is nothing below a place without a directory. -/
theorem at?_below_of_not_directory {t : Tree} {place : List String}
    (h : ∀ es, t.at? place ≠ some (.directory es)) {q : List String} (hq : q ≠ []) :
    t.at? (place ++ q) = none := by
  rw [at?_append]
  cases hat : t.at? place with
  | none => rfl
  | some u =>
      cases u with
      | directory es => exact absurd hat (h es)
      | file content =>
          cases q with
          | nil => exact absurd rfl hq
          | cons name rest => rfl

/-- Making a directory changes no file at all. -/
theorem sameOutside_makeDirectory {reach : List String → Prop} {t t' : Tree}
    {home : List String} {path : String} (h : t.makeDirectory home path = .ok t') :
    SameOutside reach t t' := by
  rcases exists_put_of_makeDirectory h with ⟨folder, name, es, hfolder, hfree, rfl⟩
  intro p content _
  by_cases hp : p = folder ++ [name]
  · -- At the place itself there was no file, and now there is a directory.
    rw [hp, at?_put_self, hfree]
    exact iff_of_false nofun nofun
  · refine file_at?_put_iff hfolder (fun q hq => ?_) (fun q hq => ?_) hp
    · cases q with
      | nil => exact absurd rfl hq
      | cons name rest => rfl
    · exact at?_below_of_not_directory (fun es => by rw [hfree]; exact nofun) hq

/-- Writing a file changes no file but the one at the place of its path. -/
theorem sameOutside_write {reach : List String → Prop} {t t' : Tree} {home : List String}
    {path content : String} (hreach : reach (Path.place home path))
    (h : t.write home path content = .ok t') : SameOutside reach t t' := by
  rcases exists_put_of_write h with ⟨folder, name, es, hfolder, hfree, rfl, hlocate⟩
  -- The path leads to where the file was put.
  rw [← eq_place_of_locate hlocate] at hreach
  intro p old hp
  refine file_at?_put_iff hfolder (fun q hq => ?_)
    (fun q hq => at?_below_of_not_directory hfree hq) fun heq => hp (heq ▸ hreach)
  cases q with
  | nil => exact absurd rfl hq
  | cons name rest => rfl

end Tree

/-- A run over several files changes no file but those at the places of their paths,
    wherever it ends. -/
theorem sameOutside_writeAll {reach : List String → Prop} {home : List String}
    {announced : String} {outputs : List Output}
    (h : ∀ o ∈ outputs, reach (Path.place home o.path)) :
    Keeps (Tree.SameOutside reach) (writeAll (Tree.sink home) announced outputs) :=
  keeps_writeAll (.refl reach) (fun _ _ _ => .trans)
    (fun _ _ _ => Tree.sameOutside_makeDirectory)
    fun o ho _ _ => Tree.sameOutside_write (h o ho)

end DartModels
