import DartModels.Proofs.Index
import DartModels.Shape.Inference

/-!
# Claiming a name

Which name a new class gets, and what else is changed by giving it one.

A class of a new shape is called by its base, or by the base with the first
number that makes it a name nobody has. Numbered names are names like any other:
they may be the base of another class, or reserved by a caller. So nothing can be
said about the set of names beforehand, and the search is a search of ten
thousand candidates one after the other.

Searching and inserting can be one thing. A candidate that is put among the names
tells by this whether it was there, and the search stops at the first that was
not. `claimName` does that. It leaves behind exactly the name that it finds, and
if it finds none the table is the very same, since putting a name where it is
already changes nothing. That is what allows `registerOrReuse` to look first and
to insert when the class is added.

## Main definitions

* `claimName`: The search that inserts what it tries.
* `AddedAs`: One class more, and nothing else changed.

## Theorems

* `insert_of_mem`: A name that is there already is not added.
* `claimName_eq`: Trying leaves only the name that is found.
* `IndexExact.addedAs_push`: What a class of a new shape changes.
* `Reachable.register_claims_first`: A class of a new shape gets the first free
  name, and without one nothing is changed.
-/

namespace DartModels

namespace ClassTable

variable {t : ClassTable} {base name : String} {fields : List Field}

/-- The search for a name that puts each candidate among the names as it is
    tried. The first that was not there is the name. -/
def claimName (t : ClassTable) : List String → Option String × ClassTable
  | [] => (none, t)
  | name :: rest =>
      match t.names.containsThenInsert name with
      | (true, names) => claimName { t with names } rest
      | (false, names) => (some name, { t with names })

/-- A name that is there already is not added. -/
theorem insert_of_mem {names : Std.TreeSet String} (h : name ∈ names) :
    names.insert name = names := by
  rcases names with ⟨⟨⟨names, _⟩⟩⟩
  have hmem : Std.DTreeMap.Internal.Impl.contains name names = true := h
  simp only [Std.TreeSet.insert, Std.TreeMap.insertIfNew, Std.DTreeMap.insertIfNew,
    Std.DTreeMap.Internal.Impl.insertIfNew, hmem, if_true]

/-- Of the candidates that were tried only the last, which was free, is among
    the names that were not there before. -/
theorem claimName_eq (t : ClassTable) (candidates : List String) :
    t.claimName candidates =
      match candidates.find? (!t.names.contains ·) with
      | some name => (some name, t.reserveName name)
      | none => (none, t) := by
  induction candidates with
  | nil => rfl
  | cons name rest ih =>
      have hboth : t.names.containsThenInsert name =
          (t.names.contains name, t.names.insert name) :=
        Prod.ext Std.TreeSet.containsThenInsert_fst Std.TreeSet.containsThenInsert_snd
      rw [claimName, hboth]
      cases hmem : t.names.contains name with
      | true =>
          have hfind : (name :: rest).find? (!t.names.contains ·) =
              rest.find? (!t.names.contains ·) :=
            List.find?_cons_of_neg (by rw [hmem]; decide)
          -- Trying a name that is taken has left the table as it was.
          simp only [insert_of_mem (Std.TreeSet.mem_iff_contains.mpr hmem), hfind, ih]
      | false =>
          have hfind : (name :: rest).find? (!t.names.contains ·) = some name :=
            List.find?_cons_of_pos (by rw [hmem]; rfl)
          simp only [hfind, reserveName]

/-- A candidate is passed over exactly if it is among the names. -/
theorem free_iff : (!t.names.contains name) = true ↔ name ∉ t.names := by
  rw [Std.TreeSet.mem_iff_contains, Bool.not_eq_true', Bool.not_eq_true]

/-! ### A class is added -/

/-- The table `t'` is `t` with one class more, which is called `name`. -/
structure AddedAs (t : ClassTable) (name : String) (fields : List Field) (t' : ClassTable) :
    Prop where
  classes : t'.classes = t.classes ++ [⟨t.entries.size, name, fields⟩]
  entries_size : t'.entries.size = t.entries.size + 1
  entries : ∀ i < t.entries.size, t'.entries[i]? = t.entries[i]?
  names : ∀ s, s ∈ t'.names ↔ s = name ∨ s ∈ t.names
  index : ∀ s, t'.index[s]? =
    if s = signatureOf fields then some t.entries.size else t.index[s]?
  pinned : t'.pinned = t.pinned

/-- The index after a class was added whose signature no older one has. -/
theorem IndexExact.index_push (h : t.IndexExact) (name : String)
    (hnone : t.scan (signatureOf fields) = none) (s : String) :
    (t.push name fields).2.index[s]? =
      if s = signatureOf fields then some t.entries.size else t.index[s]? := by
  have hsig : (ClassDef.mk t.entries.size name fields).signature = signatureOf fields := rfl
  rw [h.push name fields s, scan_push, Option.map_or, ← h s]
  by_cases hs : s = signatureOf fields
  · subst hs
    rw [if_pos rfl, h, hnone, List.find?_cons_of_pos (by rw [hsig]; exact decide_eq_true rfl)]
    rfl
  · rw [if_neg hs, List.find?_cons_of_neg (by rw [hsig]; simpa using Ne.symm hs), List.find?_nil,
      Option.map_none, Option.or_none]

/-- Adding a class changes what `AddedAs` says, and nothing else. -/
theorem IndexExact.addedAs_push (h : t.IndexExact) (name : String)
    (hnone : t.scan (signatureOf fields) = none) :
    t.AddedAs name fields (t.push name fields).2 where
  classes := classes_push t name fields
  entries_size := entries_size_push t name fields
  entries i hi := by simp only [ClassTable.push, Array.getElem?_push, if_neg (Nat.ne_of_lt hi)]
  names s := by
    simp only [ClassTable.push, Std.TreeSet.mem_insert, Std.LawfulEqCmp.compare_eq_iff_eq,
      @eq_comm _ s]
  index := h.index_push name hnone
  pinned := rfl

/-- If no class has the shape yet, and one of the candidate names is free, a
    class is added under the first such name, and nothing else is changed. If
    none is free the search fails, and the table is the same as before: also when
    every candidate is put among the names as it is tried, and also for a walk
    that ends with this failure. -/
theorem Reachable.register_claims_first (h : t.Reachable) (base : String)
    (hnone : ∀ c ∈ t.classes, c.signature ≠ signatureOf (t.canonical fields)) :
    ((∃ name ∈ Identifier.candidates base maxNameAttempts, name ∉ t.names) →
      ∃ before name after t',
        Identifier.candidates base maxNameAttempts = before ++ name :: after ∧
        (∀ s ∈ before, s ∈ t.names) ∧ name ∉ t.names ∧
        t.claimName (Identifier.candidates base maxNameAttempts) =
          (some name, t.reserveName name) ∧
        t.registerOrReuse base fields = .ok (t.entries.size, t') ∧
        t.AddedAs name (t.canonical fields) t') ∧
      ((∀ name ∈ Identifier.candidates base maxNameAttempts, name ∈ t.names) →
        t.claimName (Identifier.candidates base maxNameAttempts) = (none, t) ∧
        t.registerOrReuse base fields = .error ⟨base, maxNameAttempts⟩ ∧
        (Operation.register base fields).apply t = t ∧
        ∀ hint, Identifier.typeName hint Inference.fallbackName = base →
          Inference.registerObject t hint fields =
            (.error (.namesExhausted base maxNameAttempts), t)) := by
  have hscan : t.scan (signatureOf (t.canonical fields)) = none :=
    List.find?_eq_none.mpr fun c hc => by simpa using hnone c hc
  have hreg := h.indexExact.registerOrReuse_of_scan_eq_none h.wellFormed.toValid base hscan
  have hclaim := t.claimName_eq (Identifier.candidates base maxNameAttempts)
  refine ⟨fun hfree => ?_, fun htaken => ?_⟩
  · rcases hfree with ⟨free, hmem, hnot⟩
    have hsome : ((Identifier.candidates base maxNameAttempts).find?
        (!t.names.contains ·)).isSome = true :=
      List.find?_isSome.mpr ⟨free, hmem, free_iff.mpr hnot⟩
    rcases Option.isSome_iff_exists.mp hsome with ⟨name, hname⟩
    rcases List.find?_eq_some_iff_append.mp hname with ⟨hfirst, before, after, heq, hbefore⟩
    rw [hname] at hreg hclaim
    refine ⟨before, name, after, _, heq, fun s hs => ?_, free_iff.mp hfirst, hclaim, hreg,
      h.indexExact.addedAs_push name hscan⟩
    -- A candidate before the one that was found did not pass the test.
    by_contra hs'
    have htaken := hbefore s hs
    rw [free_iff.mpr hs'] at htaken
    exact Bool.noConfusion htaken
  · -- The search runs through all candidates, and each leaves the names as they are.
    have hfind : (Identifier.candidates base maxNameAttempts).find? (!t.names.contains ·) =
        none :=
      List.find?_eq_none.mpr fun name hname hfree => free_iff.mp hfree (htaken name hname)
    rw [hfind] at hreg hclaim
    refine ⟨hclaim, hreg, by rw [Operation.apply, hreg], fun hint hbase => ?_⟩
    rw [Inference.registerObject, hbase, hreg]

/-- Two of the candidate names are taken, one by a class whose own base it is. -/
def overlapOps : List Operation :=
  [.reserve "Data", .register "Data2" [⟨"x", "x", ⟨.primitive .int, false⟩⟩]]

/-- The third is the first that is free. -/
theorem register_claims_first_overlap : ∃ t t', t = empty.run overlapOps ∧ t.Reachable ∧
    (∀ c ∈ t.classes, c.signature ≠ signatureOf (t.canonical [])) ∧
    (∃ name ∈ Identifier.candidates "Data" maxNameAttempts, name ∉ t.names) ∧
    t.registerOrReuse "Data" [] = .ok (1, t') ∧ t.AddedAs "Data3" [] t' := by
  have hreach : (empty.run overlapOps).Reachable := Reachable.empty.run (by decide +kernel)
  have hnone : ∀ c ∈ (empty.run overlapOps).classes,
      c.signature ≠ signatureOf ((empty.run overlapOps).canonical []) := by decide +kernel
  have hfree : ∃ name ∈ Identifier.candidates "Data" maxNameAttempts,
      name ∉ (empty.run overlapOps).names :=
    ⟨"Data3", List.mem_cons_of_mem _ (List.mem_map.mpr ⟨3, by
      rw [List.mem_range']; exact ⟨1, by decide, rfl⟩, by decide +kernel⟩), by decide +kernel⟩
  rcases (hreach.register_claims_first "Data" hnone).1 hfree with
    ⟨before, name, after, t', heq, hbefore, hname, _, hreg, hadded⟩
  have hsize : (empty.run overlapOps).entries.size = 1 := by decide +kernel
  -- What is named is the first free candidate, and that can be looked for.
  have hfind : (Identifier.candidates "Data" maxNameAttempts).find?
      (!(empty.run overlapOps).names.contains ·) = some name :=
    List.find?_eq_some_iff_append.mpr ⟨free_iff.mpr hname, before, after, heq, fun s hs => by
      rw [Bool.not_not, Std.TreeSet.mem_iff_contains.mp (hbefore s hs)]⟩
  have hthird : (Identifier.candidates "Data" maxNameAttempts).find?
      (!(empty.run overlapOps).names.contains ·) = some "Data3" := by decide +kernel
  obtain rfl := Option.some.inj (hfind.symm.trans hthird)
  rw [hsize] at hreg
  exact ⟨_, t', rfl, hreach, hnone, hfree, hreg, hadded⟩

end ClassTable

end DartModels
