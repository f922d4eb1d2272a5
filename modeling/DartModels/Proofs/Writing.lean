import DartModels.CommandLine.Run
import DartModels.Proofs.Steps

/-!
# Writing files

What becomes of a directory tree when files are written into it.

A path is followed from directory to directory, so it keeps leading where it led
as long as directories stay directories and nothing is taken away. Writing does
no more than that: it makes directories where nothing was, and puts files where
nothing was or where a file was. The tree that comes out extends the one that
went in, and only the files that are written have another content. All of this
also holds of a run that stops halfway.

So what is written first is still there at the end, unless a later path leads to
the same place. `writeAll_eq_ok` says this of all files of a plan.

## Main definitions

* `Tree.Extends`: A tree that has everything another one has.
* `Keeps`: A program that takes every tree to a related one.
* `Failure.IsOfWriting`: A failure that has to do with files that are written.

## Theorems

* `Tree.at?_put_append`, `Tree.at?_put_of_apart`: What putting something
  into a tree does elsewhere.
* `Tree.Extends.locate_eq_ok`: A path leads to the same place in an extension.
* `Tree.write_eq_ok`: What is written to a path is there.
* `keeps_makeDirectories`, `keeps_writeAll`: What single steps keep, a run keeps.
* `extends_makeDirectories`: Making directories takes no file away.
* `writeAll_eq_ok`: Each file has its text, if no two of them have one place.
* `Plan.isOfWriting_perform`: Why a plan cannot be carried out.
-/

namespace DartModels

namespace Tree

variable {t t' : Tree} {here place p : List String}

/-- What is at a place can be looked up in two stages. -/
theorem at?_append (t : Tree) (p q : List String) :
    t.at? (p ++ q) = (t.at? p).bind fun u => u.at? q := by
  induction p generalizing t with
  | nil => rfl
  | cons name rest ih =>
      cases t with
      | file content => rfl
      | directory es =>
          simp only [List.cons_append, at?]
          cases Json.find? es name with
          | none => rfl
          | some u => exact ih u

/-- What is in a directory is found by its name. -/
theorem at?_entry {es : List (String × Tree)} (h : t.at? p = some (.directory es)) (name : String) :
    t.at? (p ++ [name]) = Json.find? es name := by
  rw [at?_append, h, Option.bind_some]
  exact Option.bind_fun_some _

/-- The directories on the way to a place are there once something is put at
    it. -/
theorem at?_put_append (t new : Tree) (p : List String) {q : List String} (hq : q ≠ []) :
    ∃ es, (t.put (p ++ q) new).at? p = some (.directory es) := by
  induction p generalizing t with
  | nil =>
      cases q with
      | nil => exact absurd rfl hq
      | cons name rest => exact ⟨_, rfl⟩
  | cons name rest ih =>
      simp only [List.cons_append, put, at?, Json.find?_insertMember_self, Option.bind_some]
      exact ih _

/-- What is put at a place does not change what is neither on the way to it nor
    below it. -/
theorem at?_put_of_apart (t new : Tree) (h : ¬ place <+: p) (h' : ¬ p <+: place) :
    (t.put place new).at? p = t.at? p := by
  induction place generalizing t p with
  | nil => exact absurd List.nil_prefix h
  | cons name rest ih =>
      cases p with
      | nil => exact absurd List.nil_prefix h'
      | cons first q =>
          have hcons : t.at? (first :: q) = (Json.find? t.entries first).bind fun u => u.at? q := by
            cases t <;> rfl
          rw [hcons]
          simp only [put, at?]
          by_cases hname : first = name
          · subst hname
            rw [List.cons_prefix_cons] at h h'
            have hchild := ih (p := q) ((Json.find? t.entries first).getD empty)
              (fun hr => h ⟨rfl, hr⟩) (fun hr => h' ⟨rfl, hr⟩)
            rw [Json.find?_insertMember_self, Option.bind_some, hchild]
            cases Json.find? t.entries first with
            | some u => rfl
            | none =>
                cases q with
                | nil => exact absurd ⟨rfl, List.nil_prefix⟩ h'
                | cons second r => rfl
          · -- Another entry of the directory is as it was.
            rw [Json.find?_insertMember_of_ne _ _ hname]

/-! ### Extensions -/

/-- A tree that has everything another one has, with other contents at most in
    the files that are written. -/
structure Extends (written : List String → Prop) (t t' : Tree) : Prop where
  directory : ∀ p es, t.at? p = some (.directory es) → ∃ es', t'.at? p = some (.directory es')
  file : ∀ p content, t.at? p = some (.file content) →
    ∃ content', t'.at? p = some (.file content') ∧ (¬ written p → content' = content)

variable {written : List String → Prop}

namespace Extends

/-- A tree extends itself. -/
theorem refl (written : List String → Prop) (t : Tree) : Extends written t t :=
  ⟨fun _ es h => ⟨es, h⟩, fun _ content h => ⟨content, h, fun _ => rfl⟩⟩

/-- More files may be allowed to be written. -/
theorem mono {more : List String → Prop} (h : Extends written t t')
    (hmore : ∀ p, written p → more p) : Extends more t t' :=
  ⟨h.directory, fun p content hp => by
    rcases h.file p content hp with ⟨content', hp', hsame⟩
    exact ⟨content', hp', fun hn => hsame fun hw => hn (hmore p hw)⟩⟩

/-- What holds for two extensions in a row: a file that neither writes is the same. -/
theorem trans {t'' : Tree} (h : Extends written t t') (h' : Extends written t' t'') :
    Extends written t t'' where
  directory p es hp := by
    rcases h.directory p es hp with ⟨es', hp'⟩
    exact h'.directory p es' hp'
  file p content hp := by
    rcases h.file p content hp with ⟨content', hp', hsame⟩
    rcases h'.file p content' hp' with ⟨content'', hp'', hsame'⟩
    exact ⟨content'', hp'', fun hn => (hsame' hn).trans (hsame hn)⟩

/-- A file that is not written is the same. -/
theorem file_eq {content : ByteArray} (h : Extends written t t')
    (hp : t.at? p = some (.file content)) (hn : ¬ written p) :
    t'.at? p = some (.file content) := by
  rcases h.file p content hp with ⟨content', hp', hsame⟩
  rw [hp', hsame hn]

/-- What is there stays there. -/
theorem isSome (h : Extends written t t') (hp : (t.at? p).isSome = true) :
    (t'.at? p).isSome = true := by
  rcases hat : t.at? p with _ | ⟨content⟩ | ⟨es⟩
  · rw [hat] at hp
    exact nomatch hp
  · rcases h.file p content hat with ⟨content', hp', -⟩
    rw [hp', Option.isSome_some]
  · rcases h.directory p es hat with ⟨es', hp'⟩
    rw [hp', Option.isSome_some]

end Extends

/-- There is nothing below a file. -/
theorem eq_nil_of_at?_file {u : Tree} {content : ByteArray} {q : List String}
    (hp : t.at? p = some (.file content)) (hq : t.at? (p ++ q) = some u) :
    q = [] ∧ u = .file content := by
  rw [at?_append, hp, Option.bind_some] at hq
  cases q with
  | nil => exact ⟨rfl, (Option.some.inj hq).symm⟩
  | cons name rest => exact nomatch hq

/-- To put something in a directory extends the tree, if nothing is there or a
    file takes the place of a file. -/
theorem extends_put {new : Tree} {folder : List String} {name : String} {es : List (String × Tree)}
    (hfolder : t.at? folder = some (.directory es))
    (hfree : t.at? (folder ++ [name]) = none ∨
      (∃ content, t.at? (folder ++ [name]) = some (.file content)) ∧
        ∃ content, new = .file content) :
    Extends (· = folder ++ [name]) t (t.put (folder ++ [name]) new) := by
  -- Only the new place and what is on the way to it can be seen to change.
  have hother (p : List String) (hon : ¬ p <+: folder) (hbelow : ¬ folder ++ [name] <+: p) :
      (t.put (folder ++ [name]) new).at? p = t.at? p := by
    refine at?_put_of_apart t new hbelow fun hp => ?_
    rcases List.prefix_concat_iff.mp hp with rfl | hp
    · exact hbelow List.prefix_rfl
    · exact hon hp
  constructor
  · intro p es' hp
    by_cases hon : p <+: folder
    · -- Directories on the way are made anew, with one more entry.
      rcases hon with ⟨q, rfl⟩
      rw [List.append_assoc]
      exact at?_put_append t new p (by simp)
    by_cases hbelow : folder ++ [name] <+: p
    · rcases hbelow with ⟨q, rfl⟩
      rcases hfree with hnone | ⟨⟨content, hfile⟩, -⟩
      · rw [at?_append, hnone] at hp
        exact nomatch hp
      · exact nomatch (eq_nil_of_at?_file hfile hp).2
    · exact ⟨es', by rw [hother p hon hbelow, hp]⟩
  · intro p content hp
    by_cases hon : p <+: folder
    · -- A file cannot be on the way to a directory.
      rcases hon with ⟨q, rfl⟩
      exact nomatch (eq_nil_of_at?_file hp hfolder).2
    by_cases hbelow : folder ++ [name] <+: p
    · rcases hbelow with ⟨q, rfl⟩
      rcases hfree with hnone | ⟨⟨old, hfile⟩, content', rfl⟩
      · rw [at?_append, hnone] at hp
        exact nomatch hp
      · rcases eq_nil_of_at?_file hfile hp with ⟨rfl, -⟩
        rw [List.append_nil]
        exact ⟨content', at?_put_self t _ _, fun hn => absurd rfl hn⟩
    · exact ⟨content, by rw [hother p hon hbelow, hp], fun _ => rfl⟩

/-! ### Walks -/

/-- To look for a directory succeeds where there is one. -/
theorem directoryAt_eq_ok_iff {es : List (String × Tree)} :
    t.directoryAt p = .ok es ↔ t.at? p = some (.directory es) := by
  unfold directoryAt
  rcases t.at? p with _ | ⟨content⟩ | ⟨es'⟩ <;> simp

/-- A walk goes on from where its first part ends. -/
theorem walk_append (t : Tree) (here a b : List String) :
    t.walk here (a ++ b) = (t.walk here a).bind fun p => t.walk p b := by
  induction a generalizing here with
  | nil => rfl
  | cons segment rest ih =>
      simp only [List.cons_append, walk]
      cases t.directoryAt here with
      | error e => rfl
      | ok es =>
          -- The four ways of the first step: idle, up, too long, by a name.
          simp only [bind, Except.bind]
          split
          · exact ih here
          split
          · exact ih here.dropLast
          split
          · rfl
          cases Json.find? es segment with
          | none => rfl
          | some u => exact ih (here ++ [segment])

/-- One step of a walk: an idle segment stays, a detour goes up, and a name has to
    be there. -/
theorem walk_singleton_eq_ok_iff {segment : String} :
    t.walk here [segment] = .ok p ↔ (∃ es, t.at? here = some (.directory es)) ∧
      if Path.isIdle segment then p = here
      else if segment == ".." then p = here.dropLast
      else segment.utf8ByteSize ≤ Files.maxSegment ∧
        (t.at? (here ++ [segment])).isSome = true ∧ p = here ++ [segment] := by
  simp only [walk]
  cases hes : t.directoryAt here with
  | error e =>
      -- Where there is no directory no step is taken.
      refine iff_of_false nofun fun h => ?_
      rcases h.1 with ⟨es, hat⟩
      rw [directoryAt_eq_ok_iff.mpr hat] at hes
      exact nomatch hes
  | ok es =>
      have hat := directoryAt_eq_ok_iff.mp hes
      rw [at?_entry hat, and_iff_right ⟨es, hat⟩]
      simp only [bind, Except.bind]
      split
      · rw [Except.ok.injEq, eq_comm]
      split
      · rw [Except.ok.injEq, eq_comm]
      split
      · exact iff_of_false nofun fun h => absurd h.1 (Nat.not_le.mpr ‹_›)
      · rw [and_iff_right (Nat.not_lt.mp ‹_›)]
        cases Json.find? es segment with
        | none => exact iff_of_false nofun fun h => nomatch h.1
        | some u => simp [eq_comm]

/-- A step can be taken as before: directories are still directories, and what was
    there is there. -/
theorem Extends.step_eq_ok {segment : String} (h : Extends written t t')
    (hstep : t.walk here [segment] = .ok p) : t'.walk here [segment] = .ok p := by
  rw [walk_singleton_eq_ok_iff] at hstep ⊢
  rcases hstep with ⟨⟨es, hes⟩, hp⟩
  refine ⟨h.directory here es hes, ?_⟩
  by_cases hidle : Path.isIdle segment = true
  · rwa [if_pos hidle] at hp ⊢
  rw [if_neg hidle] at hp ⊢
  by_cases hup : (segment == "..") = true
  · rwa [if_pos hup] at hp ⊢
  · rw [if_neg hup] at hp ⊢
    exact ⟨hp.1, h.isSome hp.2.1, hp.2.2⟩

/-- A walk ends where it ended before. -/
theorem Extends.walk_eq_ok {segments : List String} (h : Extends written t t')
    (hw : t.walk here segments = .ok p) : t'.walk here segments = .ok p := by
  induction segments generalizing here with
  | nil => exact hw
  | cons segment rest ih =>
      rw [← List.singleton_append, walk_append] at hw ⊢
      rcases Steps.bind_eq_ok_iff.mp hw with ⟨q, hstep, hrest⟩
      exact Steps.bind_eq_ok_iff.mpr ⟨q, h.step_eq_ok hstep, ih hrest⟩

/-- A path leads where it led before. -/
theorem Extends.locate_eq_ok {home : List String} {path : String} (h : Extends written t t')
    (hl : t.locate home path = .ok p) : t'.locate home path = .ok p := by
  unfold locate at hl ⊢
  rcases Steps.bind_eq_ok_iff.mp hl with ⟨u, hcheck, hwalk⟩
  exact Steps.bind_eq_ok_iff.mpr ⟨u, hcheck, h.walk_eq_ok hwalk⟩

/-! ### Changes -/

variable {home : List String} {path : String}

/-- A path that does not end in a slash has no segments to spare. -/
theorem properSegments_eq (hne : path ≠ "") (hslash : path.endsWith "/" = false) :
    properSegments path = Path.segments path := by
  rcases Path.segments_getLast hne hslash with ⟨front, name, hsegments, hname⟩
  rw [properSegments, hsegments, List.reverse_append, List.reverse_singleton, List.singleton_append,
    List.dropWhile_cons_of_neg (by simp [hname]), List.reverse_cons, List.reverse_reverse]

/-- The folder that a file is to lie in is a directory, and its name is that of the
    last segment. -/
theorem locateParent_eq_ok {segments folder : List String} {name : String}
    (h : t.locateParent home path segments = .ok (folder, name)) :
    t.walk (origin home path) segments.dropLast = .ok folder ∧
      (∃ es, t.at? folder = some (.directory es)) ∧ name = segments.getLast?.getD "" ∧
        name.utf8ByteSize ≤ Files.maxSegment := by
  unfold locateParent at h
  rcases Steps.bind_eq_ok_iff.mp h with ⟨place, hwalk, h⟩
  rcases Steps.bind_eq_ok_iff.mp h with ⟨es, hes, h⟩
  dsimp only at h
  split at h
  · exact nomatch h
  · cases h
    exact ⟨hwalk, ⟨es, directoryAt_eq_ok_iff.mp hes⟩, rfl, Nat.not_lt.mp ‹_›⟩

/-- A directory that is made is new and lies in one that exists. -/
theorem exists_put_of_makeDirectory (h : t.makeDirectory home path = .ok t') :
    ∃ folder name es, t.at? folder = some (.directory es) ∧ t.at? (folder ++ [name]) = none ∧
      t' = t.put (folder ++ [name]) empty := by
  unfold makeDirectory at h
  rcases Steps.bind_eq_ok_iff.mp h with ⟨_, -, h⟩
  rcases Steps.bind_eq_ok_iff.mp h with ⟨⟨folder, name⟩, hparent, h⟩
  rcases locateParent_eq_ok hparent with ⟨-, ⟨es, hfolder⟩, -, -⟩
  dsimp only at h
  split at h
  · exact nomatch h
  · cases hfree : t.at? (folder ++ [name]) with
    | some u =>
        rw [hfree] at h
        exact nomatch h
    | none =>
        rw [hfree] at h
        cases h
        exact ⟨folder, name, es, hfolder, hfree, rfl⟩

/-- A new directory takes no file away. -/
theorem extends_makeDirectory (h : t.makeDirectory home path = .ok t') :
    Extends (fun _ => False) t t' := by
  rcases exists_put_of_makeDirectory h with ⟨folder, name, es, hfolder, hfree, rfl⟩
  have hput : Extends (· = folder ++ [name]) t (t.put (folder ++ [name]) empty) :=
    extends_put hfolder (Or.inl hfree)
  -- Nothing was at the new place, so no file is among what was written.
  refine ⟨hput.directory, fun p content hp => ⟨content, hput.file_eq hp ?_, fun _ => rfl⟩⟩
  rintro rfl
  exact nomatch hfree.symm.trans hp

/-- A path that can be used is not empty. -/
theorem ne_empty_of_checkPath {u : Unit} (h : Files.checkPath path = .ok u) : path ≠ "" := by
  rintro rfl
  exact nomatch h

/-- A path leads to the place below the folder of its last segment, once there is
    something. -/
theorem locate_eq_ok {folder : List String} {name : String}
    (hcheck : Files.checkPath path = .ok ()) (hslash : path.endsWith "/" = false)
    (hname : (properSegments path).getLast?.getD "" = name) (hdetour : isDetour name = false)
    (hsize : name.utf8ByteSize ≤ Files.maxSegment)
    (hwalk : t.walk (origin home path) (properSegments path).dropLast = .ok folder)
    (hfolder : ∃ es, t.at? folder = some (.directory es))
    (hat : (t.at? (folder ++ [name])).isSome = true) :
    t.locate home path = .ok (folder ++ [name]) := by
  have hne := ne_empty_of_checkPath hcheck
  rcases Path.segments_getLast hne hslash with ⟨front, last, hsegments, -⟩
  rw [properSegments_eq hne hslash, hsegments] at hname hwalk
  rw [List.dropLast_concat] at hwalk
  rw [List.getLast?_concat, Option.getD_some] at hname
  subst hname
  rw [isDetour, Bool.or_eq_false_iff] at hdetour
  rw [locate, hcheck, hsegments]
  change t.walk (origin home path) (front ++ [last]) = _
  -- The last step goes by the name, which is no detour.
  rw [walk_append, hwalk]
  refine walk_singleton_eq_ok_iff.mpr ⟨hfolder, ?_⟩
  rw [hdetour.1, hdetour.2]
  exact ⟨hsize, hat, rfl⟩

/-- A file that is put where no directory is takes at most a file away. -/
theorem extends_put_file {folder : List String} {name : String} {es : List (String × Tree)}
    (hfolder : t.at? folder = some (.directory es))
    (hfree : ∀ es', t.at? (folder ++ [name]) ≠ some (.directory es')) (content : ByteArray) :
    Extends (· = folder ++ [name]) t (t.put (folder ++ [name]) (.file content)) := by
  rcases hat : t.at? (folder ++ [name]) with _ | ⟨old⟩ | ⟨es'⟩
  · exact extends_put hfolder (Or.inl hat)
  · exact extends_put hfolder (Or.inr ⟨⟨old, hat⟩, content, rfl⟩)
  · exact absurd hat (hfree es')

/-- A file that is written is put where its path leads then, in a directory that
    exists and where no directory is. -/
theorem exists_put_of_write {content : String} (h : t.write home path content = .ok t') :
    ∃ folder name es, t.at? folder = some (.directory es) ∧
      (∀ es', t.at? (folder ++ [name]) ≠ some (.directory es')) ∧
      t' = t.put (folder ++ [name]) (.file content.toUTF8) ∧
      t'.locate home path = .ok (folder ++ [name]) := by
  unfold write at h
  rcases Steps.bind_eq_ok_iff.mp h with ⟨_, hcheck, h⟩
  rcases Steps.bind_eq_ok_iff.mp h with ⟨⟨folder, name⟩, hparent, h⟩
  rcases locateParent_eq_ok hparent with ⟨hwalk, ⟨es, hfolder⟩, hname, hsize⟩
  dsimp only at h
  cases hfile : isDetour name || path.endsWith "/" with
  | true =>
      rw [hfile] at h
      exact nomatch h
  | false =>
      rw [hfile] at h
      rw [Bool.or_eq_false_iff] at hfile
      -- A directory in the place is refused, and a file is replaced.
      have hfree : ∀ es', t.at? (folder ++ [name]) ≠ some (.directory es') := by
        intro es' hat
        rw [hat] at h
        exact nomatch h
      have hput : t' = t.put (folder ++ [name]) (.file content.toUTF8) := by
        rcases hat : t.at? (folder ++ [name]) with _ | ⟨old⟩ | ⟨es'⟩
        · rw [hat] at h
          cases h
          rfl
        · rw [hat] at h
          cases h
          rfl
        · exact absurd hat (hfree es')
      subst hput
      -- The way to the folder is still there.
      have hextends := extends_put_file hfolder hfree content.toUTF8
      refine ⟨folder, name, es, hfolder, hfree, rfl, ?_⟩
      exact locate_eq_ok hcheck hfile.2 hname.symm hfile.1 hsize (hextends.walk_eq_ok hwalk)
        (hextends.directory folder es hfolder) (by rw [at?_put_self, Option.isSome_some])

/-- What is written to a path is there, and nothing else is written. -/
theorem write_eq_ok {content : String} (h : t.write home path content = .ok t') :
    ∃ place, t'.locate home path = .ok place ∧ t'.at? place = some (.file content.toUTF8) ∧
      Extends (· = place) t t' := by
  rcases exists_put_of_write h with ⟨folder, name, es, hfolder, hfree, rfl, hlocate⟩
  exact ⟨folder ++ [name], hlocate, at?_put_self t _ _, extends_put_file hfolder hfree _⟩

end Tree

/-! ### Runs -/

section Runs

variable {t : Tree} {home : List String}

/-- A file is written once the directories on the way to it are made. -/
theorem Output.run_write (o : Output) (home : List String) (t : Tree) :
    (o.write (Tree.sink home)).run t =
      let parent := (Path.parent? o.path).getD ""
      let made := (Files.makeDirectories (Tree.sink home) parent).run t
      match made.1 with
      | .error e => (.error (.directory parent e), made.2)
      | .ok () =>
          let written := (Tree.change fun t => t.write home o.path o.text).run made.2
          (written.1.mapError (.writing o.path), written.2) := by
  rw [Output.write]
  simp only [StateT.run_bind]
  generalize (Files.makeDirectories (Tree.sink home) _).run t = made
  rcases made with ⟨_ | _, t⟩ <;> rfl

/-- The first fault ends the writing. -/
theorem run_writeAll_cons (announced : String) (o : Output) (rest : List Output) :
    (writeAll (Tree.sink home) announced (o :: rest)).run t =
      let written := (o.write (Tree.sink home)).run t
      match written.1 with
      | .error e => ((announced, some e), written.2)
      | .ok () =>
          (writeAll (Tree.sink home) (announced ++ (o.classes.map (announce o.path)).getD "")
            rest).run written.2 := by
  rw [writeAll]
  simp only [StateT.run_bind]
  generalize (o.write (Tree.sink home)).run t = written
  rcases written with ⟨_ | _, t⟩ <;> rfl

/-- A plan writes its files and then says what was written. -/
theorem run_perform (warnings : List Warning) (plan : Plan) :
    (plan.perform (Tree.sink home) warnings).run t =
      let done := (writeAll (Tree.sink home) "" plan.outputs).run t
      ({ standardOutput := plan.standardOutput, standardError := done.1.1,
         warnings := warnings, failure := done.1.2 }, done.2) := by
  rw [Plan.perform]
  simp only [StateT.run_bind]
  rfl

/-- A program that takes every tree to one that is related to it. -/
def Keeps {α : Type} (R : Tree → Tree → Prop) (x : StateM Tree α) : Prop :=
  ∀ t, R t (x.run t).2

section Keeps

variable {R : Tree → Tree → Prop} {α β : Type}

/-- To do nothing keeps every tree. -/
theorem Keeps.pure (hrefl : ∀ t, R t t) (a : α) : Keeps R (Pure.pure a : StateM Tree α) :=
  fun t => hrefl t

/-- Two programs in a row keep what both keep. -/
theorem Keeps.bind (htrans : ∀ a b c, R a b → R b c → R a c) {x : StateM Tree α}
    {f : α → StateM Tree β} (hx : Keeps R x) (hf : ∀ a, Keeps R (f a)) : Keeps R (x >>= f) :=
  fun t => htrans _ _ _ (hx t) (hf (x.run t).1 (x.run t).2)

/-- A change that is refused leaves the tree as it is. -/
theorem Keeps.change (hrefl : ∀ t, R t t) {f : Tree → Except Files.Fault Tree}
    (hf : ∀ t t', f t = .ok t' → R t t') : Keeps R (Tree.change f) := by
  intro t
  have hrun : ((Tree.change f).run t).2 = (f t).toOption.getD t := by
    simp only [Tree.change, StateT.run]
    cases f t <;> rfl
  rw [hrun]
  cases hft : f t with
  | error e => exact hrefl t
  | ok t' => exact hf t t' hft

variable (hrefl : ∀ t, R t t) (htrans : ∀ a b c, R a b → R b c → R a c)
  (hmake : ∀ path t t', t.makeDirectory home path = .ok t' → R t t')
include hrefl htrans hmake

/-- To make a directory, or to find that it is there. -/
theorem keeps_ensureDirectory (path : String) :
    Keeps R (Files.ensureDirectory (Tree.sink home) path) := by
  unfold Files.ensureDirectory
  refine Keeps.bind htrans (.change hrefl (hmake path)) fun made => ?_
  cases made with
  | ok _ => exact .pure hrefl _
  | error e =>
      have hlook : Keeps R ((Tree.sink home).isDirectory path) := fun t => hrefl t
      refine Keeps.bind htrans hlook fun found => ?_
      split <;> exact .pure hrefl _

/-- What the making of one directory keeps, the making of several does, whether or not
    all of them can be made. -/
theorem keeps_makeDirectories (path : String) :
    Keeps R (Files.makeDirectories (Tree.sink home) path) := by
  unfold Files.makeDirectories
  generalize path.length + 1 = fuel
  -- The fuel bounds the number of parents that can be missing.
  induction fuel generalizing path with
  | zero => exact .pure hrefl _
  | succ n ih =>
      unfold Files.makeDirectoriesUpTo
      split
      · exact .pure hrefl _
      refine Keeps.bind htrans (keeps_ensureDirectory hrefl htrans hmake path) fun made => ?_
      split
      · -- A parent is missing: it comes first, and then the directory once more.
        split
        · exact .pure hrefl _
        · refine Keeps.bind htrans (ih _) fun parentMade => ?_
          split
          · exact keeps_ensureDirectory hrefl htrans hmake path
          · exact .pure hrefl _
      · exact .pure hrefl _

/-- What holds of single directories and files holds of a run over several files,
    wherever it ends. -/
theorem keeps_writeAll {announced : String} {outputs : List Output}
    (hwrite : ∀ o ∈ outputs, ∀ t t', t.write home o.path o.text = .ok t' → R t t') :
    Keeps R (writeAll (Tree.sink home) announced outputs) := by
  have hfile (o : Output) (ho : o ∈ outputs) : Keeps R (o.write (Tree.sink home)) := by
    unfold Output.write
    refine Keeps.bind htrans (keeps_makeDirectories hrefl htrans hmake _) fun made => ?_
    cases made with
    | error e => exact .pure hrefl _
    | ok _ =>
        exact Keeps.bind htrans (.change hrefl (hwrite o ho)) fun _ => .pure hrefl _
  induction outputs generalizing announced with
  | nil => exact .pure hrefl _
  | cons o rest ih =>
      unfold writeAll
      refine Keeps.bind htrans (hfile o List.mem_cons_self) fun written => ?_
      cases written with
      | error e => exact .pure hrefl _
      | ok _ =>
          exact ih (fun o' ho' => hwrite o' (List.mem_cons_of_mem o ho'))
            fun o' ho' => hfile o' (List.mem_cons_of_mem o ho')

end Keeps

/-- Making directories takes no file away, whether or not all of them can be
    made. -/
theorem extends_makeDirectories (path : String) :
    Keeps (Tree.Extends fun _ => False) (Files.makeDirectories (Tree.sink home) path) :=
  keeps_makeDirectories (.refl _) (fun _ _ _ => .trans) (fun _ _ _ => Tree.extends_makeDirectory)
    path

/-- A file that is written is where its path leads, and nothing else is
    written. -/
theorem Output.write_eq_ok {o : Output} {t' : Tree}
    (h : (o.write (Tree.sink home)).run t = (.ok (), t')) :
    ∃ place, t'.locate home o.path = .ok place ∧ t'.at? place = some (.file o.text.toUTF8) ∧
      Tree.Extends (· = place) t t' := by
  have hmade := @extends_makeDirectories home ((Path.parent? o.path).getD "") t
  rw [Output.run_write] at h
  dsimp only at h
  generalize (Path.parent? o.path).getD "" = parent at h hmade
  generalize (Files.makeDirectories (Tree.sink home) parent).run t = made at h hmade
  rcases made with ⟨e | _, t₁⟩
  · exact nomatch h
  · simp only [Tree.change, StateT.run] at h
    cases hwrite : t₁.write home o.path o.text with
    | error e =>
        rw [hwrite] at h
        exact nomatch h
    | ok t₂ =>
        rw [hwrite] at h
        cases h
        rcases Tree.write_eq_ok hwrite with ⟨place, hlocate, hat, hextends⟩
        exact ⟨place, hlocate, hat, (hmade.mono fun _ => False.elim).trans hextends⟩

/-- The places that paths lead to. -/
def placesOf (t : Tree) (home : List String) (outputs : List Output) (place : List String) : Prop :=
  ∃ o ∈ outputs, t.locate home o.path = .ok place

/-- A path is read where it leads. -/
theorem Tree.read_eq_ok {path : String} {place : List String} {content : ByteArray}
    (hlocate : t.locate home path = .ok place) (hat : t.at? place = some (.file content)) :
    t.read home path = .ok content := by
  rw [Tree.read, hlocate]
  simp only [bind, Except.bind, hat]
  rfl

/-- When all files are written, nothing but the places that their paths lead to
    has been written, and a file whose place is not taken by a later one has its
    text. -/
theorem writeAll_eq_ok {announced said : String} {outputs : List Output} {t' : Tree}
    (h : (writeAll (Tree.sink home) announced outputs).run t = ((said, none), t')) :
    Tree.Extends (placesOf t' home outputs) t t' ∧
      (outputs.Pairwise (fun o later => ∀ place,
          t'.locate home o.path = .ok place → t'.locate home later.path ≠ .ok place) →
        ∀ o ∈ outputs, t'.read home o.path = .ok o.text.toUTF8) := by
  induction outputs generalizing t announced with
  | nil =>
      cases h
      exact ⟨.refl _ _, fun _ => nofun⟩
  | cons o rest ih =>
      rw [run_writeAll_cons] at h
      dsimp only at h
      rcases hwrite : (o.write (Tree.sink home)).run t with ⟨e | _, t₁⟩
      · rw [hwrite] at h
        exact nomatch h
      · rw [hwrite] at h
        rcases Output.write_eq_ok hwrite with ⟨place, hlocate, hat, hextends⟩
        rcases ih h with ⟨hrest, hread⟩
        -- The path leads to the same place when the later files are there.
        have hlocate' : t'.locate home o.path = .ok place := hrest.locate_eq_ok hlocate
        refine ⟨?_, fun hpairwise p hp => ?_⟩
        · refine (hextends.mono ?_).trans (hrest.mono ?_)
          · rintro p rfl
            exact ⟨o, List.mem_cons_self, hlocate'⟩
          · rintro p ⟨later, hlater, hp⟩
            exact ⟨later, List.mem_cons_of_mem o hlater, hp⟩
        · rw [List.pairwise_cons] at hpairwise
          rcases List.mem_cons.mp hp with rfl | hp
          · -- No later file is put in its place.
            have hkept : t'.at? place = some (.file p.text.toUTF8) := by
              refine hrest.file_eq hat ?_
              rintro ⟨later, hlater, hplace⟩
              exact hpairwise.1 later hlater place hlocate' hplace
            exact Tree.read_eq_ok hlocate' hkept
          · exact hread hpairwise.2 p hp

/-- Why the writing of a plan ends early. -/
inductive Failure.IsOfWriting : Failure → Prop where
  | directory (path : String) (fault : Files.Fault) : IsOfWriting (.directory path fault)
  | writing (path : String) (fault : Files.Fault) : IsOfWriting (.writing path fault)

/-- One file can fail in its directory or in itself. -/
theorem Output.isOfWriting {o : Output} {e : Failure}
    (h : ((o.write (Tree.sink home)).run t).1 = .error e) : e.IsOfWriting := by
  rw [Output.run_write] at h
  dsimp only at h
  split at h
  · cases h
    exact .directory _ _
  · generalize ((Tree.change _).run _).1 = written at h
    cases written with
    | error fault =>
        cases h
        exact .writing _ _
    | ok _ => exact nomatch h

/-- And so can several. -/
theorem isOfWriting_writeAll {announced : String} {outputs : List Output} {e : Failure}
    (h : ((writeAll (Tree.sink home) announced outputs).run t).1.2 = some e) : e.IsOfWriting := by
  induction outputs generalizing t announced with
  | nil => exact nomatch h
  | cons o rest ih =>
      rw [run_writeAll_cons] at h
      dsimp only at h
      split at h
      · cases h
        exact Output.isOfWriting ‹_›
      · exact ih h

/-- Once there is a plan, only files and their directories can fail. -/
theorem Plan.isOfWriting_perform {plan : Plan} {warnings : List Warning} {e : Failure}
    (h : ((plan.perform (Tree.sink home) warnings).run t).1.failure = some e) :
    e.IsOfWriting := by
  rw [run_perform] at h
  exact isOfWriting_writeAll h

end Runs

end DartModels
