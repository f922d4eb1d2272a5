import DartModels.Proofs.Failures
import DartModels.Proofs.FileNames

/-!
# A file for each document

What is in a directory once the classes of several documents are written to it.

The files are written one after another, and a later one takes the place of an
earlier one of the same path. Whether that happens is a question of the names of
the root classes alone. These names are told apart before anything is written,
but not by what the names of the files keep of them, so that names that differ
may still have one file. What has to differ are the class names that are made of
them, once more. Then every document has a file of its own, and each file has the
classes of its document.

## Main definitions

* `Document.Plain`: A document whose class is named after its file.
* `fileName`: The name of the file of a class.

## Theorems

* `Inputs.plain_of_documents`: Which names documents have.
* `documentPath_eq_iff`: Which documents have the same file.
* `Command.runOn_dart_of_status`: What has worked when a run ends well.
* `Command.runOn_directory`: What each file has in it.
-/

namespace DartModels

open Steps

/-! ### The names of documents -/

/-- A document that lies in no package and has a class name of the customary
    form. -/
structure Document.Plain (d : Document) : Prop where
  package : d.package = []
  className : Identifier.IsTypeName d.className

/-- A name with a number behind it is still of the customary form. -/
theorem isTypeName_of_mem_numberRepeatedAfter {before names : List String} {name : String}
    (hnames : ∀ n ∈ names, Identifier.IsTypeName n)
    (h : name ∈ numberRepeatedAfter before names) : Identifier.IsTypeName name := by
  induction names generalizing before with
  | nil => exact nomatch h
  | cons first rest ih =>
      have hfirst := hnames first List.mem_cons_self
      rw [numberRepeatedAfter] at h
      rcases List.mem_cons.mp h with rfl | h
      · split
        · exact hfirst
        · exact Identifier.isTypeName_variant hfirst _
      · exact ih (fun n hn => hnames n (List.mem_cons_of_mem first hn)) h

/-- A number behind a name changes nothing else about a document. -/
theorem exists_of_mem_distinguish {ds : List Document} {d : Document} (h : d ∈ distinguish ds) :
    (∃ e ∈ ds, d.package = e.package) ∧
      d.className ∈ numberRepeated (ds.map Document.className) := by
  rw [distinguish, ← List.map_uncurry_zip_eq_zipWith] at h
  rcases List.mem_map.mp h with ⟨⟨e, name⟩, hmem, rfl⟩
  rcases List.of_mem_zip hmem with ⟨he, hname⟩
  exact ⟨⟨e, he, rfl⟩, hname⟩

/-- Telling documents apart leaves them plain. -/
theorem plain_of_mem_distinguish {ds : List Document} (hds : ∀ d ∈ ds, d.Plain) {d : Document}
    (h : d ∈ distinguish ds) : d.Plain := by
  rcases exists_of_mem_distinguish h with ⟨⟨e, he, hpackage⟩, hname⟩
  refine ⟨hpackage.trans (hds e he).package, isTypeName_of_mem_numberRepeatedAfter ?_ hname⟩
  intro n hn
  rcases List.mem_map.mp hn with ⟨e, he, rfl⟩
  exact (hds e he).className

namespace Inputs

variable {inputs : Inputs} {view : Files.View Id} {content : ByteArray}

/-- The documents of a source have the class and the packages of the source. -/
theorem classOf_of_documentsOf {source : Source} {text : String} {ds : List Document}
    (h : inputs.documentsOf source text = .ok ds) :
    ∀ d ∈ ds, inputs.classOf source = .ok (d.package, d.className) := by
  cases hblank : Text.isBlankText text with
  | true => simp [documentsOf, hblank] at h
  | false =>
      cases hread : Json.read text with
      | error e => simp [documentsOf, hblank, hread] at h
      | ok v =>
          rw [documentsOf_of_read hblank hread] at h
          rcases bind_eq_ok_iff.mp h with ⟨part, -, h⟩
          rcases bind_eq_ok_iff.mp h with ⟨values, -, h⟩
          rcases map_eq_ok_iff.mp h with ⟨⟨package, className⟩, hclass, rfl⟩
          intro d hd
          rcases List.mem_map.mp hd with ⟨value, -, rfl⟩
          exact hclass

/-- Each document of several sources has the class and the packages of one of them. -/
theorem exists_classOf_of_documentsFrom {sources : List Source} {ds : List Document}
    (h : inputs.documentsFrom view content sources = .ok ds) :
    ∀ d ∈ ds, ∃ source, inputs.classOf source = .ok (d.package, d.className) := by
  induction sources generalizing content ds with
  | nil =>
      cases h
      exact fun _ => nofun
  | cons source rest ih =>
      rw [documentsFrom_cons] at h
      rcases bind_eq_ok_iff.mp h with ⟨text, -, h⟩
      rcases bind_eq_ok_iff.mp h with ⟨first, hfirst, h⟩
      rcases map_eq_ok_iff.mp h with ⟨more, hmore, rfl⟩
      intro d hd
      rcases List.mem_append.mp hd with hd | hd
      · exact ⟨source, classOf_of_documentsOf hfirst d hd⟩
      · exact ih hmore d hd

/-- The documents of a command are those of its sources, with numbers behind names. -/
theorem documents_eq_ok {ds : List Document} (h : inputs.documents view content = .ok ds) :
    ∃ loaded, distinguish loaded = ds ∧
      ∀ d ∈ loaded, ∃ source, inputs.classOf source = .ok (d.package, d.className) := by
  rw [documents_eq] at h
  rcases bind_eq_ok_iff.mp h with ⟨sources, -, h⟩
  rcases map_eq_ok_iff.mp h with ⟨loaded, hloaded, rfl⟩
  exact ⟨loaded, rfl, exists_classOf_of_documentsFrom hloaded⟩

/-- Without a name from the command a source gives the name of its file, or the one for
    the root. -/
theorem plain_of_classOf (hname : inputs.className = none) {source : Source} {d : Document}
    (h : inputs.classOf source = .ok (d.package, d.className)) : d.Plain := by
  -- Without a file name the class has the name of the root.
  have hroot {package : List String} {name : String}
      (hpair : (([], "Root") : List String × String) = (package, name)) :
      package = [] ∧ Identifier.IsTypeName name := by
    cases hpair
    exact ⟨rfl, Identifier.isTypeName_root⟩
  have hplain : d.package = [] ∧ Identifier.IsTypeName d.className := by
    cases source with
    | standardInput =>
        simp only [classOf, hname, Except.ok.injEq] at h
        exact hroot h
    | file path =>
        cases hstem : Path.stem? path with
        | none =>
            simp only [classOf, hname, hstem, Except.ok.injEq] at h
            exact hroot h
        | some stem =>
            simp only [classOf, hname, hstem, Except.ok.injEq, Prod.mk.injEq] at h
            rw [← h.1, ← h.2]
            exact ⟨rfl, Identifier.isTypeName_typeName stem Identifier.isTypeName_root⟩
  exact ⟨hplain.1, hplain.2⟩

/-- Without a name from the command, documents are named after their files. -/
theorem plain_of_documents (hname : inputs.className = none) {ds : List Document}
    (h : inputs.documents view content = .ok ds) : ∀ d ∈ ds, d.Plain := by
  rcases documents_eq_ok h with ⟨loaded, rfl, hloaded⟩
  refine fun d => plain_of_mem_distinguish fun e he => ?_
  rcases hloaded e he with ⟨source, hsource⟩
  exact plain_of_classOf hname hsource

end Inputs

/-! ### Paths of documents -/

/-- The name of the file of a class. -/
def fileName (className : String) : String :=
  Identifier.fileStem className ++ ".dart"

/-- A plain document has its file in the directory itself. -/
theorem Document.Plain.documentPath_eq {d : Document} (h : d.Plain) (directory : String) :
    documentPath directory d = Path.append directory (fileName d.className) := by
  rw [documentPath, h.package]
  rfl

/-- The name of a file has no slash. -/
theorem slash_not_mem_fileName (className : String) : '/' ∉ (fileName className).toList := by
  rw [fileName, String.toList_append, List.mem_append]
  rintro (h | h)
  · exact Identifier.slash_not_mem_fileStem className h
  · exact absurd h (by decide)

/-- Files have one name exactly if they have one stem. -/
theorem fileName_inj {a b : String} :
    fileName a = fileName b ↔ Identifier.fileStem a = Identifier.fileStem b := by
  constructor
  · intro h
    rw [fileName, fileName, ← String.toList_inj, String.toList_append, String.toList_append] at h
    exact String.toList_inj.mp (List.append_cancel_right h)
  · intro h
    rw [fileName, fileName, h]

/-- Documents have the same file exactly if the same class name is made of their
    class names. -/
theorem documentPath_eq_iff {d e : Document} (hd : d.Plain) (he : e.Plain) (directory : String) :
    documentPath directory d = documentPath directory e ↔
      Identifier.typeName d.className "Root" = Identifier.typeName e.className "Root" := by
  rw [← Identifier.fileStem_eq_iff hd.className he.className, ← fileName_inj,
    hd.documentPath_eq, he.documentPath_eq]
  constructor
  · intro h
    -- Without a slash the name of the file is the last segment of the path.
    rcases Path.segments_append directory (slash_not_mem_fileName d.className) with ⟨front, hfront⟩
    rcases Path.segments_append directory (slash_not_mem_fileName e.className) with
      ⟨front', hfront'⟩
    have hlast :=
      congrArg List.getLast? (hfront.symm.trans ((congrArg Path.segments h).trans hfront'))
    rwa [List.getLast?_concat, List.getLast?_concat, Option.some.injEq] at hlast
  · intro h
    rw [h]

/-- The name of a file is no detour. -/
theorem not_isDetour_fileName (className : String) :
    Tree.isDetour (fileName className) = false := by
  have hlength : 5 ≤ (fileName className).length := by
    rw [fileName, String.length_append]
    exact Nat.le_add_left 5 _
  rw [Bool.eq_false_iff]
  intro h
  -- A detour has two characters at most.
  simp only [Tree.isDetour, Path.isIdle, Bool.or_eq_true, String.isEmpty_iff, beq_iff_eq] at h
  rcases h with (h | h) | h <;> rw [h] at hlength <;> exact absurd hlength (by decide)

/-- The last step to a file is its name. -/
theorem getLast?_of_locate {t : Tree} {home place : List String} {directory className : String}
    (h : t.locate home (Path.append directory (fileName className)) = .ok place) :
    place.getLast? = some (fileName className) := by
  rcases Path.segments_append directory (slash_not_mem_fileName className) with ⟨front, hfront⟩
  have hdetour := not_isDetour_fileName className
  rw [Tree.isDetour, Bool.or_eq_false_iff] at hdetour
  unfold Tree.locate at h
  rcases bind_eq_ok_iff.mp h with ⟨_, -, hwalk⟩
  rw [hfront, Tree.walk_append] at hwalk
  rcases bind_eq_ok_iff.mp hwalk with ⟨folder, -, hlast⟩
  have hstep := (Tree.walk_singleton_eq_ok_iff.mp hlast).2
  rw [hdetour.1, hdetour.2] at hstep
  rw [hstep.2.2, List.getLast?_concat]

/-! ### Runs -/

/-- Documents that were converted are all there, each with its code. -/
theorem convertAll_eq_ok {o : Options} {ds : List Document} {converted : List Converted}
    (h : convertAll o ds = .ok converted) :
    converted.map Prod.fst = ds ∧
      ∀ c ∈ converted, convert o c.1.className c.1.value = .ok c.2 := by
  have hall := mapM_eq_ok_iff.mp h
  clear h
  induction hall with
  | nil => exact ⟨rfl, fun _ => nofun⟩
  | @cons d c ds converted hc _ ih =>
      have hd : c.1 = d ∧ convert o d.className d.value = .ok c.2 := by
        cases hconvert : convert o d.className d.value with
        | error e =>
            rw [hconvert] at hc
            exact nomatch hc
        | ok units =>
            rw [hconvert] at hc
            cases hc
            exact ⟨rfl, rfl⟩
      refine ⟨by rw [List.map_cons, hd.1, ih.1], fun b hb => ?_⟩
      rcases List.mem_cons.mp hb with rfl | hb
      · rw [hd.1, hd.2]
      · exact ih.2 b hb

namespace Command

variable {inputs : Inputs} {overrides : Overrides} {destination : Destination} {t : Tree}
  {home : List String} {content : ByteArray}

/-- A plan is made of documents that have all been converted. -/
theorem prepare_dart_eq_ok {plan : Plan}
    (h : ((dart inputs overrides destination).prepare (t.view home) (pure content)).2 = .ok plan) :
    ∃ o ds converted, (overrides.options (t.view home)).2 = .ok o ∧
      inputs.documents (t.view home) content = .ok ds ∧ convertAll o ds = .ok converted ∧
        (planDart destination o converted).2 = plan := by
  rw [prepare_dart, gather_eq] at h
  -- One step of the preparation after another has succeeded.
  rcases bind_eq_ok_iff.mp h with ⟨⟨o, ds⟩, hgather, hplan⟩
  rcases bind_eq_ok_iff.mp hgather with ⟨o', ho, hds⟩
  rcases map_eq_ok_iff.mp hds with ⟨ds', hds', hpair⟩
  cases hpair
  rcases map_eq_ok_iff.mp hplan with ⟨converted, hconverted, rfl⟩
  exact ⟨o, ds, converted, ho, hds', hconverted, rfl⟩

/-- A run that ends with status 0 has converted all documents and written all
    files of its plan. -/
theorem runOn_dart_of_status
    (h : ((dart inputs overrides destination).runOn t home content).1.status = 0) :
    ∃ o ds converted said, (overrides.options (t.view home)).2 = .ok o ∧
      inputs.documents (t.view home) content = .ok ds ∧ convertAll o ds = .ok converted ∧
        (writeAll (Tree.sink home) "" (planDart destination o converted).2.outputs).run t =
          ((said, none), ((dart inputs overrides destination).runOn t home content).2) := by
  rcases hprepare : (dart inputs overrides destination).prepare (t.view home) (pure content)
    with ⟨warnings, e | plan⟩
  · -- Without a plan the status is 1.
    rw [runOn_of_failure _ t home content warnings e hprepare] at h
    have hone : 1 = 0 := h
    exact absurd hone Nat.one_ne_zero
  · rcases prepare_dart_eq_ok (congrArg Prod.snd hprepare) with
      ⟨o, ds, converted, ho, hds, hconverted, rfl⟩
    have hrun : (dart inputs overrides destination).runOn t home content =
        (((planDart destination o converted).2.perform (Tree.sink home) warnings).run t) := by
      simp only [runOn, hprepare]
    rw [hrun, run_perform] at h ⊢
    dsimp only at h ⊢
    rcases hdone : (writeAll (Tree.sink home) "" (planDart destination o converted).2.outputs).run t
      with ⟨⟨said, _ | e⟩, t'⟩
    · exact ⟨o, ds, converted, said, ho, hds, hconverted, hdone⟩
    · rw [hdone] at h
      have hone : 1 = 0 := h
      exact absurd hone Nat.one_ne_zero

/-- The file of a converted document. -/
def outputIn (directory : String) (c : Converted) : Output :=
  ⟨documentPath directory c.1, joinUnits c.2, some c.2.length⟩

/-- A plan for a directory has one file for each document. -/
theorem outputs_planDart_directory (directory : String) (o : Options)
    (converted : List Converted) :
    (planDart (.directory directory) o converted).2.outputs =
      converted.map (outputIn directory) :=
  rfl

/-- Files that lie in one place have one name, and so they have one path. -/
theorem documentPath_eq_of_locate {directory : String} {d e : Document} (hd : d.Plain)
    (he : e.Plain) {place : List String}
    (hd' : t.locate home (documentPath directory d) = .ok place)
    (he' : t.locate home (documentPath directory e) = .ok place) :
    documentPath directory d = documentPath directory e := by
  rw [hd.documentPath_eq] at hd' ⊢
  rw [he.documentPath_eq] at he' ⊢
  have hname := (getLast?_of_locate hd').symm.trans (getLast?_of_locate he')
  rw [Option.some.inj hname]

/-- The files of all documents differ exactly if the class names that are made of theirs
    do. -/
theorem nodup_documentPath_iff {ds : List Document} (hds : ∀ d ∈ ds, d.Plain)
    (directory : String) :
    (ds.map (documentPath directory)).Nodup ↔
      ((ds.map Document.className).map fun name => Identifier.typeName name "Root").Nodup := by
  rw [List.map_map]
  unfold List.Nodup
  rw [List.pairwise_map, List.pairwise_map]
  refine List.Pairwise.iff_of_mem fun hd he => not_congr ?_
  exact documentPath_eq_iff (hds _ hd) (hds _ he) directory

/-- A run into a directory, without a name for the classes and with status 0:
    documents have different files exactly if the class names that are made of
    their class names differ, and then each file has the classes of its document. -/
theorem runOn_directory {directory : String} (hname : inputs.className = none)
    (h : ((dart inputs overrides (.directory directory)).runOn t home content).1.status = 0) :
    ∃ o ds, (overrides.options (t.view home)).2 = .ok o ∧
      inputs.documents (t.view home) content = .ok ds ∧
      ((ds.map (documentPath directory)).Nodup ↔
        ((ds.map Document.className).map fun name => Identifier.typeName name "Root").Nodup) ∧
      ((ds.map (documentPath directory)).Nodup → ∀ d ∈ ds, ∃ units,
        convert o d.className d.value = .ok units ∧
          ((dart inputs overrides (.directory directory)).runOn t home content).2.read home
            (documentPath directory d) = .ok (joinUnits units).toUTF8) := by
  rcases runOn_dart_of_status h with ⟨o, ds, converted, said, ho, hds, hconverted, hrun⟩
  have hplain := Inputs.plain_of_documents hname hds
  refine ⟨o, ds, ho, hds, nodup_documentPath_iff hplain directory, fun hnodup d hd => ?_⟩
  rcases convertAll_eq_ok hconverted with ⟨hfst, hconvert⟩
  rw [← hfst] at hd hnodup hplain
  rcases List.mem_map.mp hd with ⟨c, hc, rfl⟩
  -- The file of this document is one of those that are written.
  rw [outputs_planDart_directory] at hrun
  have hread := (writeAll_eq_ok hrun).2 ?_ (outputIn directory c) (List.mem_map_of_mem hc)
  · exact ⟨c.2, hconvert c hc, hread⟩
  -- Different paths lead to different places.
  rw [List.map_map] at hnodup
  unfold List.Nodup at hnodup
  rw [List.pairwise_map] at hnodup
  refine List.pairwise_map.mpr (hnodup.imp_of_mem fun {b c} hb hc hne place hplace hplace' => ?_)
  exact hne (documentPath_eq_of_locate (hplain _ (List.mem_map_of_mem hb))
    (hplain _ (List.mem_map_of_mem hc)) hplace hplace')

/-- Two files whose class names differ, each with the classes of its own document. -/
theorem runOn_directory_apart :
    ((intoDirectory ["a_b.json", "c.json"]).runOn (blankDocuments ["a_b.json", "c.json"]) []
        ByteArray.empty).1.status = 0 ∧
      ∃ (o : Options) (ds : List Document), ds.map Document.className = ["AB", "C"] ∧
        ∀ d ∈ ds, ∃ units, convert o d.className d.value = .ok units ∧
          ((intoDirectory ["a_b.json", "c.json"]).runOn (blankDocuments ["a_b.json", "c.json"]) []
            ByteArray.empty).2.read [] (documentPath "out" d) = .ok (joinUnits units).toUTF8 := by
  have hstatus : ((intoDirectory ["a_b.json", "c.json"]).runOn
      (blankDocuments ["a_b.json", "c.json"]) [] ByteArray.empty).1.status = 0 := by
    decide +kernel
  have hnames : (Id.run (Inputs.documents ⟨["a_b.json", "c.json"], none, none, none⟩
      ((blankDocuments ["a_b.json", "c.json"]).view []) ByteArray.empty)).toOption.map
        (List.map Document.className) = some ["AB", "C"] := by
    decide +kernel
  rcases runOn_directory rfl hstatus with ⟨o, ds, -, hds, hiff, hread⟩
  rw [hds] at hnames
  -- The documents that the run has found are those that were computed.
  have hnames' : ds.map Document.className = ["AB", "C"] := Option.some.inj hnames
  have hnodup : (["AB", "C"].map fun name => Identifier.typeName name "Root").Nodup := by
    decide +kernel
  exact ⟨hstatus, o, ds, hnames', hread (hiff.mpr (hnames' ▸ hnodup))⟩

/-- Class names may differ although they have one file: `AB` is called after
    `a_b` and `Ab` after `ab`, and the file of both is `ab.dart`. -/
theorem not_forall_nodup_documentPath :
    ¬ ∀ (inputs : Inputs) (overrides : Overrides) (directory : String) (t : Tree)
      (home : List String) (content : ByteArray) (ds : List Document),
      inputs.className = none →
      ((dart inputs overrides (.directory directory)).runOn t home content).1.status = 0 →
      inputs.documents (t.view home) content = .ok ds →
      (ds.map Document.className).Nodup → (ds.map (documentPath directory)).Nodup := by
  intro h
  have hstatus : ((intoDirectory ["a_b.json", "ab.json"]).runOn
      (blankDocuments ["a_b.json", "ab.json"]) [] ByteArray.empty).1.status = 0 := by
    decide +kernel
  have hnames : (Id.run (Inputs.documents ⟨["a_b.json", "ab.json"], none, none, none⟩
      ((blankDocuments ["a_b.json", "ab.json"]).view []) ByteArray.empty)).toOption.map
        (List.map Document.className) = some ["AB", "Ab"] := by
    decide +kernel
  rcases runOn_directory rfl hstatus with ⟨o, ds, -, hds, hiff, -⟩
  rw [hds] at hnames
  have hnames' : ds.map Document.className = ["AB", "Ab"] := Option.some.inj hnames
  have hnodup := h _ _ _ _ _ _ ds rfl hstatus hds (by rw [hnames']; decide)
  -- One class name is made of both.
  rw [hiff, hnames'] at hnodup
  exact absurd hnodup (by decide +kernel)

end Command

end DartModels
