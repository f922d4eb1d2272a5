import DartModels.CommandLine.Plan
import DartModels.Proofs.DoubleTexts
import DartModels.Proofs.Steps

/-!
# Documents that are alike

The rounding of doubles does not matter to anything that is done with a document.

Two documents are alike if they differ in nothing but the rounding of their
doubles. A walk over a document sees of a number only whether it is an integer
of the signed range, and no comparison of values is made anywhere. So documents
that are alike have the same classes, and a command that works on one list of
them or on the other has the same plan.

## Main definitions

* `Json.Alike`: Equal but for the rounding of doubles.
* `Document.Alike`: The same for documents with their origin and class.

## Theorems

* `Inference.observe_alike`: A walk finds the same.
* `convert_alike`: Documents that are alike have the same classes.
* `planDart_alike`: They have the same plan.
-/

namespace DartModels

namespace Json

/-- Numbers of the same kind, integers the same and doubles up to rounding. -/
def Number.Alike : Number → Number → Prop
  | .integer m, .integer n => m = n
  | .double f, .double g => Near f g
  | _, _ => False

mutual

/-- Documents that are equal but for the rounding of their doubles. -/
def Alike : Json → Json → Prop
  | .null, .null => True
  | .bool a, .bool b => a = b
  | .number m, .number n => m.Alike n
  | .string s, .string t => s = t
  | .array vs, .array ws => AlikeItems vs ws
  | .object vs, .object ws => AlikeMembers vs ws
  | _, _ => False

/-- Lists of such documents, of one length. -/
def AlikeItems : List Json → List Json → Prop
  | [], [] => True
  | v :: vs, w :: ws => Alike v w ∧ AlikeItems vs ws
  | _, _ => False

/-- Members with the same keys in the same order, and such documents as values. -/
def AlikeMembers : List (String × Json) → List (String × Json) → Prop
  | [], [] => True
  | (k, v) :: vs, (l, w) :: ws => k = l ∧ Alike v w ∧ AlikeMembers vs ws
  | _, _ => False

end

variable {m n : Number}

/-- Rounding makes no integer of a double. -/
theorem Number.Alike.isSigned64_eq (h : m.Alike n) : n.isSigned64 = m.isSigned64 := by
  cases m with
  | integer m =>
      cases n with
      | integer n =>
          cases h
          rfl
      | double g => exact h.elim
  | double f =>
      cases n with
      | integer n => exact h.elim
      | double g => rfl

end Json

namespace Inference

open Json

variable {o : Options}

/-- So numbers that are alike have one type. -/
theorem numberShape_alike {m n : Number} (h : m.Alike n) : numberShape n = numberShape m := by
  rw [numberShape, numberShape, h.isSigned64_eq]

mutual

/-- Of a number a walk sees only whether it is an integer, so it finds the same
    in documents that are alike. -/
theorem observe_alike : (v : Json) → {w : Json} → v.Alike w → (t : ClassTable) → (hint : String) →
    (depth : Nat) → (path : List Step) →
    observe o t hint depth path w = observe o t hint depth path v
  | .null, w, h, _, _, _, _ => by
      cases w <;> first | rfl | exact h.elim
  | .bool _, w, h, _, _, _, _ => by
      cases w <;> first | (cases h; rfl) | exact h.elim
  | .string _, w, h, _, _, _, _ => by
      cases w <;> first | (cases h; rfl) | exact h.elim
  | .number m, w, h, t, hint, depth, path => by
      cases w with
      | number n => rw [observe, observe, numberShape_alike h]
      | _ => exact h.elim
  | .array vs, w, h, t, hint, depth, path => by
      cases w with
      | array ws => rw [observe, observe, observeItems_alike vs h t hint (depth + 1) path 0]
      | _ => exact h.elim
  | .object vs, w, h, t, hint, depth, path => by
      cases w with
      | object ws => rw [observe, observe, observeMembers_alike vs h t (depth + 1) path]
      | _ => exact h.elim

/-- The elements one after another. -/
theorem observeItems_alike : (vs : List Json) → {ws : List Json} → AlikeItems vs ws →
    (t : ClassTable) → (hint : String) → (depth : Nat) → (path : List Step) → (i : Nat) →
    observeItems o t hint depth path i ws = observeItems o t hint depth path i vs
  | [], ws, h, _, _, _, _, _ => by
      cases ws with
      | nil => rfl
      | cons w ws => exact h.elim
  | v :: vs, ws, h, t, hint, depth, path, i => by
      cases ws with
      | nil => exact h.elim
      | cons w ws =>
          rw [observeItems, observeItems, observe_alike v h.1 t hint depth (.index i :: path)]
          -- Whether an element is passed over depends on its number alone.
          split
          · rfl
          · -- After the first element both walks are at the same point.
            generalize observe o t hint depth (.index i :: path) v = seen
            rcases seen with ⟨_ | slot, t⟩
            · rfl
            · dsimp only
              rw [observeItems_alike vs h.2 t hint depth path (i + 1)]

/-- And the members. -/
theorem observeMembers_alike : (vs : List (String × Json)) → {ws : List (String × Json)} →
    AlikeMembers vs ws → (t : ClassTable) → (depth : Nat) → (path : List Step) →
    observeMembers o t depth path ws = observeMembers o t depth path vs
  | [], ws, h, _, _, _ => by
      cases ws with
      | nil => rfl
      | cons w ws => exact h.elim
  | (k, v) :: vs, ws, h, t, depth, path => by
      rcases ws with _ | ⟨⟨l, w⟩, ws⟩
      · exact h.elim
      · obtain ⟨rfl, hvw, hrest⟩ := h
        rw [observeMembers, observeMembers, observe_alike v hvw t k depth (.key k :: path)]
        generalize observe o t k depth (.key k :: path) v = seen
        rcases seen with ⟨_ | slot, t⟩
        · rfl
        · dsimp only
          rw [observeMembers_alike vs hrest t depth path]

end

/-- And the root. -/
theorem observeRoot_alike {v w : Json} (h : v.Alike w) (t : ClassTable) (name : String) :
    observeRoot o t name w = observeRoot o t name v := by
  cases v <;> cases w <;> first | rfl | exact h.elim | skip
  rw [observeRoot, observeRoot, observeMembers_alike _ h]

end Inference

section Conversion

variable {o : Options} {v w : Json}

/-- Documents that are alike have the same classes before any code is made. -/
theorem Catalog.ofDocument_alike (h : v.Alike w) (name : String) :
    Catalog.ofDocument o name w = Catalog.ofDocument o name v := by
  rw [Catalog.ofDocument, Catalog.ofDocument, Inference.observeRoot_alike h]

/-- Documents that are alike have the same classes, or the same error. -/
theorem convert_alike (h : v.Alike w) (name : String) : convert o name w = convert o name v := by
  rw [convert, convert, Catalog.ofDocument_alike h]

end Conversion

/-! ### Commands -/

/-- Documents of one origin, package and class with values that are alike. -/
structure Document.Alike (d e : Document) : Prop where
  origin : d.origin = e.origin
  package : d.package = e.package
  className : d.className = e.className
  value : d.value.Alike e.value

/-- The same classes of documents that are alike. -/
structure Converted.Alike (c c' : Converted) : Prop where
  document : c.1.Alike c'.1
  units : c.2 = c'.2

section Commands

open Steps

variable {o : Options} {ds es : List Document} {cs cs' : List Converted}

/-- Names are told apart in the same way. -/
theorem distinguish_alike (h : List.Forall₂ Document.Alike ds es) :
    List.Forall₂ Document.Alike (distinguish ds) (distinguish es) := by
  have hnames : es.map Document.className = ds.map Document.className := by
    induction h with
    | nil => rfl
    | cons hde _ ih => rw [List.map_cons, List.map_cons, hde.className, ih]
  unfold distinguish
  rw [hnames]
  -- Both lists get the same names. Which ones they are does not matter any more.
  generalize numberRepeated (ds.map Document.className) = names
  clear hnames
  induction h generalizing names with
  | nil => exact .nil
  | cons hde _ ih =>
      cases names with
      | nil => exact .nil
      | cons name names => exact .cons ⟨hde.origin, hde.package, rfl, hde.value⟩ (ih names)

theorem convertAll_alike (h : List.Forall₂ Document.Alike ds es) :
    Related (List.Forall₂ Converted.Alike) (convertAll o ds) (convertAll o es) := by
  refine Related.mapM h fun d e hde => ?_
  rw [← hde.className, ← hde.origin, convert_alike hde.value]
  cases convert o d.className d.value with
  | error e => exact .error _
  | ok units => exact .ok ⟨hde, rfl⟩

/-- They are described in the same words. -/
theorem describe_alike {d e : Document} (h : d.Alike e) : describe o e = describe o d := by
  rw [describe, describe, ← h.className, ← h.origin, Catalog.ofDocument_alike h.value]

/-- And so are lists of them. -/
theorem mapM_describe_alike (h : List.Forall₂ Document.Alike ds es) :
    es.mapM (describe o) = ds.mapM (describe o) := by
  induction h with
  | nil => rfl
  | cons hde _ ih => rw [mapM_cons, mapM_cons, describe_alike hde, ih]

/-- What does not depend on the rounding is the same for lists that are alike. -/
theorem map_alike {β : Type} (h : List.Forall₂ Converted.Alike cs cs') {f : Converted → β}
    (hf : ∀ c c', c.Alike c' → f c = f c') : cs'.map f = cs.map f := by
  induction h with
  | nil => rfl
  | cons hc _ ih => rw [List.map_cons, List.map_cons, hf _ _ hc, ih]

/-- The packages of the documents choose the directory, and these are the same. -/
theorem chooseDirectory_alike (h : List.Forall₂ Converted.Alike cs cs')
    (destination : Destination) :
    chooseDirectory destination o cs' = chooseDirectory destination o cs := by
  have hpackages : cs'.map (fun c => c.1.package) = cs.map (fun c => c.1.package) :=
    map_alike h fun _ _ hc => hc.document.package
  have hany : (cs'.any fun c => !c.1.package.isEmpty) = cs.any fun c => !c.1.package.isEmpty := by
    have hmap (l : List Converted) : (l.any fun c => !c.1.package.isEmpty) =
        (l.map fun c => c.1.package).any fun p => !p.isEmpty := by
      rw [List.any_map]
      rfl
    rw [hmap, hmap, hpackages]
  unfold chooseDirectory
  rw [hany]

/-- A plan looks at the documents only for the places of their files. -/
theorem planDart_alike (h : List.Forall₂ Converted.Alike cs cs') (destination : Destination) :
    planDart destination o cs' = planDart destination o cs := by
  have hunits : cs'.map Prod.snd = cs.map Prod.snd := map_alike h fun _ _ hc => hc.units
  -- A file is placed by package and class name, and its content is the code.
  have houtput (directory : String) :
      cs'.map (fun c => (⟨documentPath directory c.1, joinUnits c.2, some c.2.length⟩ : Output)) =
        cs.map fun c => ⟨documentPath directory c.1, joinUnits c.2, some c.2.length⟩ :=
    map_alike h fun c c' hc => by
      rw [documentPath, documentPath, hc.document.package, hc.document.className, hc.units]
  have htext : joinAll cs' = joinAll cs := by
    rw [joinAll, joinAll, map_alike h fun c c' hc => by rw [hc.units]]
  have hcount : cs'.foldl (fun n c => n + c.2.length) 0 =
      cs.foldl (fun n c => n + c.2.length) 0 := by
    have hfold (l : List Converted) : l.foldl (fun n c => n + c.2.length) 0 =
        (l.map Prod.snd).foldl (fun n us => n + us.length) 0 := by
      rw [List.foldl_map]
    rw [hfold, hfold, hunits]
  have hlength : cs'.length = cs.length := h.length_eq.symm
  -- All that a plan asks for is the same by now.
  unfold planDart
  rw [chooseDirectory_alike h, hlength]
  simp only [houtput, htext, hcount]

end Commands

end DartModels
