import DartModels.Proofs.OwnFiles
import DartModels.Proofs.Places

/-!
# Packages of a class name

Where the file of a class lies whose name has packages.

The packages of a name are what its points separate, and a file lies in a folder
for each of them. They are taken as they were written, and only a blank one is
turned away. So a package can hold a slash, and then it is not one folder. With a
slash inside, it is several folders, one in the other. With a slash in front, it
is a path of its own, and whatever stood before it is discarded. Then the file is
not in the output directory at all.

That is all that can go wrong. A package holds no point, so it is no way upwards,
and the class itself becomes a file name of letters, digits and underscores. If no
package begins at the top, then a run changes no file outside of the output
directory, wherever it ends.

## Main definitions

* `Path.IsFolder`: A text that is one step.

## Theorems

* `splitClassName?_eq_some`: What packages are.
* `goesOn_documentPath`: The steps to a file.
* `Inputs.package_of_documents`: The packages of the documents of a command.
* `splitClassName?_below`: Which names have their files below the output directory.
-/

namespace DartModels

open Steps

/-- What a text is split into is made of its other characters. -/
theorem mem_of_mem_splitOn {sep : Char} {cs piece : List Char} (h : piece ∈ cs.splitOn sep) :
    ∀ c ∈ piece, c ∈ cs ∧ c ≠ sep := by
  induction cs generalizing piece with
  | nil =>
      rw [List.splitOn_nil, List.mem_singleton] at h
      rw [h]
      exact fun _ => nofun
  | cons head rest ih =>
      rw [List.splitOn_cons_eq_if_modifyHead] at h
      split at h
      · rcases List.mem_cons.mp h with rfl | h
        · exact fun _ => nofun
        · exact fun c hc => ⟨List.mem_cons_of_mem head (ih h c hc).1, (ih h c hc).2⟩
      · rename_i hsep
        -- A character that is not the separator belongs to the first piece.
        cases hsplit : rest.splitOn sep with
        | nil => exact absurd hsplit (List.splitOn_ne_nil sep rest)
        | cons first more =>
            rw [hsplit] at h ih
            rcases List.mem_cons.mp h with rfl | h
            · intro c hc
              rcases List.mem_cons.mp hc with rfl | hc
              · exact ⟨List.mem_cons_self, fun heq => hsep (beq_iff_eq.mpr heq)⟩
              · have hfirst := ih List.mem_cons_self c hc
                exact ⟨List.mem_cons_of_mem head hfirst.1, hfirst.2⟩
            · intro c hc
              have hmore := ih (List.mem_cons_of_mem first h) c hc
              exact ⟨List.mem_cons_of_mem head hmore.1, hmore.2⟩

/-- A text that is one step below any path. -/
def Path.IsFolder (s : String) : Prop :=
  s.startsWith "/" = false ∧ (Path.steps s).length = 1

instance (s : String) : Decidable (Path.IsFolder s) :=
  inferInstanceAs (Decidable (_ ∧ _))

/-! ### Packages -/

/-- The packages of a name and its class are what the points of the name separate, and
    no package is blank. -/
theorem splitClassName?_eq_some {name className : String} {package : List String}
    (h : splitClassName? name = some (package, className)) :
    String.intercalate "." (package ++ [className]) = name ∧
      ∀ s ∈ package, '.' ∉ s.toList ∧ s ≠ "" := by
  set parts := (name.toList.splitOn '.').map String.ofList with hparts
  have hne : parts ≠ [] := by
    rw [hparts]
    exact fun hnil => List.splitOn_ne_nil '.' name.toList (List.map_eq_nil_iff.mp hnil)
  rw [splitClassName?] at h
  split at h
  · exact nomatch h
  rename_i hblank
  rw [Option.some.injEq, Prod.mk.injEq] at h
  rcases h with ⟨hpackage, hclass⟩
  -- The last part is the class, and those before it are the packages.
  have hall : package ++ [className] = parts := by
    rw [← hpackage, ← hclass, List.getLast?_eq_some_getLast hne, Option.getD_some]
    exact List.dropLast_concat_getLast hne
  refine ⟨?_, fun s hs => ?_⟩
  · rw [hall, ← String.toList_inj, String.toList_intercalate, hparts, List.map_map]
    have hid : String.toList ∘ String.ofList = id := funext fun _ => String.toList_ofList
    rw [hid, List.map_id]
    exact List.intercalate_splitOn '.'
  · have hmem : s ∈ parts := hall ▸ List.mem_append_left _ hs
    refine ⟨fun hdot => ?_, fun hempty => hblank ?_⟩
    · rw [hparts] at hmem
      rcases List.mem_map.mp hmem with ⟨piece, hpiece, rfl⟩
      rw [String.toList_ofList] at hdot
      exact (mem_of_mem_splitOn hpiece '.' hdot).2 rfl
    · exact List.any_eq_true.mpr ⟨s, hmem, by rw [hempty]; rfl⟩

/-- Without points no step leads upwards. -/
theorem ne_up_of_mem_steps {s : String} (hdot : '.' ∉ s.toList) {step : String}
    (h : step ∈ Path.steps s) : step ≠ ".." := by
  rintro rfl
  rcases List.mem_map.mp (List.mem_of_mem_filter h) with ⟨piece, hpiece, heq⟩
  have hchars : piece = ['.', '.'] := by
    rw [← String.toList_ofList (l := piece), heq]
    rfl
  exact hdot (mem_of_mem_splitOn hpiece '.' (by rw [hchars]; exact List.mem_cons_self)).1

/-- A package that does not begin at the top has a step. -/
theorem steps_ne_nil {s : String} (hdot : '.' ∉ s.toList) (hne : s ≠ "")
    (hrel : s.startsWith "/" = false) : Path.steps s ≠ [] := by
  cases hs : s.toList with
  | nil => exact absurd (String.toList_eq_nil_iff.mp hs) hne
  | cons c rest =>
      have hc : (c == '/') = false := by
        rw [beq_eq_false_iff_ne]
        rintro rfl
        rw [Path.startsWith_slash_iff.mpr (by rw [hs, List.head?_cons])] at hrel
        exact nomatch hrel
      cases hsplit : rest.splitOn '/' with
      | nil => exact absurd hsplit (List.splitOn_ne_nil '/' rest)
      | cons first more =>
          -- What stands before the first slash begins with the first character.
          have hmem : String.ofList (c :: first) ∈ Path.steps s := by
            refine List.mem_filter.mpr ⟨List.mem_map.mpr ⟨c :: first, ?_, rfl⟩, ?_⟩
            · rw [hs, List.splitOn_cons_eq_if_modifyHead, hc, if_neg Bool.false_ne_true, hsplit]
              exact List.mem_cons_self
            · have hpoint : c ≠ '.' := fun heq => hdot (by rw [hs, heq]; exact List.mem_cons_self)
              have hidle : Path.isIdle (String.ofList (c :: first)) = false := by
                rw [Path.isIdle, Bool.or_eq_false_iff, beq_eq_false_iff_ne]
                refine ⟨by simp, fun heq => hpoint ?_⟩
                have hchars := congrArg String.toList heq
                rw [String.toList_ofList] at hchars
                exact (List.cons.inj hchars).1
              rw [hidle, Bool.not_false]
          exact List.ne_nil_of_mem hmem

/-! ### Files of documents -/

/-- The file is one step. -/
theorem steps_fileName (className : String) :
    Path.steps (fileName className) = [fileName className] := by
  have hdetour := not_isDetour_fileName className
  rw [Tree.isDetour, Bool.or_eq_false_iff] at hdetour
  exact Path.steps_eq_singleton (slash_not_mem_fileName className) hdetour.1

/-- Its name does not begin at the top. -/
theorem startsWith_fileName (className : String) :
    (fileName className).startsWith "/" = false := by
  rw [Bool.eq_false_iff]
  intro h
  exact slash_not_mem_fileName className
    (List.mem_of_head? (Path.startsWith_slash_iff.mp h))

/-- The path of a file begins at the top if its directory or one of the packages does. -/
theorem startsWith_documentPath (directory : String) (d : Document) :
    (documentPath directory d).startsWith "/" =
      (d.package.any (·.startsWith "/") || directory.startsWith "/") := by
  have hfold (package : List String) (base : String) :
      (package.foldl Path.append base).startsWith "/" =
        (package.any (·.startsWith "/") || base.startsWith "/") := by
    induction package generalizing base with
    | nil => rfl
    | cons s rest ih =>
        rw [List.foldl_cons, ih, Path.startsWith_append, List.any_cons, ← Bool.or_assoc,
          Bool.or_comm (rest.any _)]
  rw [documentPath, Path.startsWith_append, ← fileName, startsWith_fileName, Bool.false_or, hfold]

/-- The steps to a file are those of the packages, if none of them begins at the
    top, and then the name of the file. -/
theorem goesOn_documentPath {d : Document} (h : ∀ s ∈ d.package, s.startsWith "/" = false)
    (directory : String) :
    Path.GoesOn directory (documentPath directory d)
      (d.package.flatMap Path.steps ++ [fileName d.className]) := by
  have hfold (package : List String) (hrel : ∀ s ∈ package, s.startsWith "/" = false)
      {base path : String} {more : List String} (hon : Path.GoesOn base path more) :
      Path.GoesOn base (package.foldl Path.append path) (more ++ package.flatMap Path.steps) := by
    induction package generalizing path more with
    | nil => rwa [List.flatMap_nil, List.append_nil]
    | cons s rest ih =>
        rw [List.foldl_cons, List.flatMap_cons, ← List.append_assoc]
        exact ih (fun s' hs' => hrel s' (List.mem_cons_of_mem s hs'))
          (hon.append (hrel s List.mem_cons_self))
  -- The packages are put behind the directory one by one, and the file comes last.
  have hself : Path.GoesOn directory directory [] := ⟨rfl, (List.append_nil _).symm⟩
  have hpackage := hfold d.package h hself
  rw [List.nil_append] at hpackage
  have hfile := hpackage.append (startsWith_fileName d.className)
  rwa [steps_fileName] at hfile

/-- If no package begins at the top, then the file lies below the directory, and the
    way to it never turns upwards. -/
theorem place_documentPath {d : Document} (hdot : ∀ s ∈ d.package, '.' ∉ s.toList)
    (hrel : ∀ s ∈ d.package, s.startsWith "/" = false) (home : List String)
    (directory : String) :
    Path.place home (documentPath directory d) = Path.place home directory ++
      (d.package.flatMap Path.steps ++ [fileName d.className]) := by
  refine (goesOn_documentPath hrel directory).place_eq (fun step hstep => ?_) home
  rcases List.mem_append.mp hstep with hstep | hstep
  · rcases List.mem_flatMap.mp hstep with ⟨s, hs, hstep⟩
    exact ne_up_of_mem_steps (hdot s hs) hstep
  · have hdetour := not_isDetour_fileName d.className
    rw [Tree.isDetour, Bool.or_eq_false_iff, beq_eq_false_iff_ne] at hdetour
    rw [List.mem_singleton.mp hstep]
    exact hdetour.2

/-- A package that begins at the top leads out of a directory. -/
theorem exists_place_documentPath {d : Document} {s : String} (hs : s ∈ d.package)
    (habs : s.startsWith "/" = true) :
    ∃ home directory, ∀ more,
      Path.place home (documentPath directory d) ≠ Path.place home directory ++ more := by
  have htop : (documentPath "" d).startsWith "/" = true := by
    rw [startsWith_documentPath, List.any_eq_true.mpr ⟨s, hs, habs⟩, Bool.true_or]
  -- The file is in the same place wherever the run begins, so it can begin deeper.
  have hplace (home : List String) :
      Path.place home (documentPath "" d) = Path.place [] (documentPath "" d) := by
    rw [Path.place, Path.place, Tree.origin, Tree.origin, htop, if_pos rfl, if_pos rfl]
  refine ⟨Path.place [] (documentPath "" d) ++ [""], "", fun more heq => ?_⟩
  have hempty (home : List String) : Path.place home "" = home := rfl
  have hlength := congrArg List.length (heq.symm.trans (hplace _))
  rw [hempty, List.length_append, List.length_append, List.length_singleton] at hlength
  omega

/-- Of packages that have a step each there are as many as steps exactly if none has
    more. -/
theorem length_flatMap_steps {package : List String} (h : ∀ s ∈ package, Path.steps s ≠ []) :
    package.length ≤ (package.flatMap Path.steps).length ∧
      ((package.flatMap Path.steps).length = package.length ↔
        ∀ s ∈ package, (Path.steps s).length = 1) := by
  induction package with
  | nil => exact ⟨Nat.le_refl 0, iff_of_true rfl fun _ => nofun⟩
  | cons s rest ih =>
      have hs : 0 < (Path.steps s).length := List.length_pos_iff.mpr (h s List.mem_cons_self)
      rcases ih fun s' hs' => h s' (List.mem_cons_of_mem s hs') with ⟨hle, hiff⟩
      rw [List.flatMap_cons, List.length_append, List.length_cons, List.forall_mem_cons, ← hiff]
      omega

namespace Inputs

variable {inputs : Inputs} {view : Files.View Id} {content : ByteArray}

/-- With a name from the command, all documents lie in the packages of the name. -/
theorem package_of_documents {name className : String} {package : List String}
    (hname : inputs.className = some name)
    (hsplit : splitClassName? name = some (package, className)) {ds : List Document}
    (h : inputs.documents view content = .ok ds) : ∀ d ∈ ds, d.package = package := by
  rcases documents_eq_ok h with ⟨loaded, rfl, hloaded⟩
  intro d hd
  rcases (exists_of_mem_distinguish hd).1 with ⟨e, he, hpackage⟩
  rcases hloaded e he with ⟨source, hsource⟩
  simp only [classOf, hname, hsplit, Except.ok.injEq, Prod.mk.injEq] at hsource
  rw [hpackage, ← hsource.1]

end Inputs

namespace Command

variable {inputs : Inputs} {overrides : Overrides} {t : Tree} {home : List String}
  {content : ByteArray}

/-- A run into a directory changes no file but those of its documents, wherever it
    ends. -/
theorem sameOutside_runOn {directory : String} {reach : List String → Prop}
    (h : ∀ ds, inputs.documents (t.view home) content = .ok ds →
      ∀ d ∈ ds, reach (Path.place home (documentPath directory d))) :
    Tree.SameOutside reach t
      ((dart inputs overrides (.directory directory)).runOn t home content).2 := by
  rcases hprepare : (dart inputs overrides (.directory directory)).prepare (t.view home)
    (pure content) with ⟨warnings, e | plan⟩
  · -- Without a plan the tree is left alone.
    rw [runOn_of_failure _ t home content warnings e hprepare]
    exact .refl reach t
  · rcases prepare_dart_eq_ok (congrArg Prod.snd hprepare) with
      ⟨o, ds, converted, -, hds, hconverted, rfl⟩
    have hrun : (dart inputs overrides (.directory directory)).runOn t home content =
        ((planDart (.directory directory) o converted).2.perform
          (Tree.sink home) warnings).run t := by
      simp only [runOn, hprepare]
    rw [hrun, run_perform]
    -- Every file of the plan is that of a document.
    refine sameOutside_writeAll (fun output houtput => ?_) t
    rw [outputs_planDart_directory] at houtput
    rcases List.mem_map.mp houtput with ⟨c, hc, rfl⟩
    have hmem : c.1 ∈ ds := (convertAll_eq_ok hconverted).1 ▸ List.mem_map_of_mem hc
    exact h ds hds c.1 hmem

end Command

/-- A name has a file for its class in one folder for each package, below every output
    directory, exactly if each package is a folder. The file is below every output
    directory, at whatever depth, exactly if no package begins at the top, and then a
    run with this name changes no file elsewhere. -/
theorem splitClassName?_below {name className : String} {package : List String}
    (h : splitClassName? name = some (package, className)) :
    String.intercalate "." (package ++ [className]) = name ∧
      (∀ d : Document, d.package = package →
        ((∀ directory, ∃ folders, folders.length = package.length ∧
            Path.GoesOn directory (documentPath directory d)
              (folders ++ [fileName d.className])) ↔
          ∀ s ∈ package, Path.IsFolder s) ∧
        ((∀ home directory, ∃ more, more ≠ [] ∧
            Path.place home (documentPath directory d) = Path.place home directory ++ more) ↔
          ∀ s ∈ package, s.startsWith "/" = false)) ∧
      ((∀ s ∈ package, s.startsWith "/" = false) →
        ∀ (inputs : Inputs) (overrides : Overrides) (directory : String) (t : Tree)
          (home : List String) (content : ByteArray), inputs.className = some name →
          Tree.SameOutside (fun p => ∃ more, more ≠ [] ∧ p = Path.place home directory ++ more) t
            ((Command.dart inputs overrides (.directory directory)).runOn t home content).2) := by
  rcases splitClassName?_eq_some h with ⟨hjoin, hpackage⟩
  have hsteps (hrel : ∀ s ∈ package, s.startsWith "/" = false) :
      ∀ s ∈ package, Path.steps s ≠ [] := fun s hs =>
    steps_ne_nil (hpackage s hs).1 (hpackage s hs).2 (hrel s hs)
  have hplace (hrel : ∀ s ∈ package, s.startsWith "/" = false) (d : Document)
      (hd : d.package = package) (home : List String) (directory : String) :
      ∃ more, more ≠ [] ∧
        Path.place home (documentPath directory d) = Path.place home directory ++ more := by
    subst hd
    exact ⟨_, by simp, place_documentPath (fun s hs => (hpackage s hs).1) hrel home directory⟩
  refine ⟨hjoin, fun d hd => ?_, fun hrel inputs overrides directory t home content hname => ?_⟩
  · subst hd
    refine ⟨⟨fun hall => ?_, fun hfolder directory => ?_⟩, fun hall s hs => ?_, fun hrel => ?_⟩
    · -- One relative directory is enough to see it.
      rcases hall "" with ⟨folders, hlength, htop, hgoes⟩
      have hrel : ∀ s ∈ d.package, s.startsWith "/" = false := by
        rw [startsWith_documentPath, Path.startsWith_empty, Bool.or_false] at htop
        exact fun s hs => Bool.eq_false_iff.mpr (List.any_eq_false.mp htop s hs)
      rw [(goesOn_documentPath hrel "").2, ← List.append_assoc, ← List.append_assoc] at hgoes
      have hfolders := List.append_cancel_left (List.append_cancel_right hgoes)
      rw [← hfolders] at hlength
      exact fun s hs => ⟨hrel s hs, (length_flatMap_steps (hsteps hrel)).2.mp hlength s hs⟩
    · have hrel : ∀ s ∈ d.package, s.startsWith "/" = false := fun s hs => (hfolder s hs).1
      refine ⟨_, ?_, goesOn_documentPath hrel directory⟩
      exact (length_flatMap_steps (hsteps hrel)).2.mpr fun s hs => (hfolder s hs).2
    · -- A package at the top leads out of some directory, against the assumption.
      by_contra habs
      rcases exists_place_documentPath hs (Bool.eq_true_of_not_eq_false habs) with
        ⟨home, directory, hout⟩
      rcases hall home directory with ⟨more, -, hin⟩
      exact hout more hin
    · exact hplace hrel d rfl
  · refine Command.sameOutside_runOn fun ds hds d hd => ?_
    exact hplace hrel d (Inputs.package_of_documents hname h hds d hd) home directory

/-- A package with a slash inside is two folders, and the file is below them all the
    same. -/
theorem splitClassName?_below_nested :
    splitClassName? "api.v1/beta.Account" = some (["api", "v1/beta"], "Account") ∧
      (¬ ∀ directory, ∃ folders : List String, folders.length = 2 ∧
        Path.GoesOn directory (documentPath directory ⟨"", ["api", "v1/beta"], "Account", .null⟩)
          (folders ++ [fileName "Account"])) ∧
      ∀ home directory, ∃ more, more ≠ [] ∧
        Path.place home (documentPath directory ⟨"", ["api", "v1/beta"], "Account", .null⟩) =
          Path.place home directory ++ more := by
  have hsplit : splitClassName? "api.v1/beta.Account" =
      some (["api", "v1/beta"], "Account") := by
    decide +kernel
  rcases (splitClassName?_below hsplit).2.1 ⟨"", ["api", "v1/beta"], "Account", .null⟩ rfl with
    ⟨hfolders, hbelow⟩
  have htwo : ¬ ∀ s ∈ ["api", "v1/beta"], Path.IsFolder s := by
    decide +kernel
  have hrel : ∀ s ∈ ["api", "v1/beta"], s.startsWith "/" = false := by
    decide +kernel
  exact ⟨hsplit, fun hall => htwo (hfolders.mp hall), hbelow.mpr hrel⟩

/-- A package may begin at the top, and then the output directory does not count. -/
theorem not_forall_goesOn :
    ¬ ∀ (directory name className : String) (package : List String),
      splitClassName? name = some (package, className) →
      ∀ d : Document, d.package = package → ∃ folders, folders.length = package.length ∧
        Path.GoesOn directory (documentPath directory d)
          (folders ++ [fileName d.className]) := by
  intro h
  have hsplit : splitClassName? "/tmp.Item" = some (["/tmp"], "Item") := by
    decide +kernel
  rcases h "out" _ _ _ hsplit ⟨"", ["/tmp"], "Item", .null⟩ rfl with ⟨folders, -, htop, -⟩
  rw [startsWith_documentPath] at htop
  exact absurd htop (by decide +kernel)

end DartModels
