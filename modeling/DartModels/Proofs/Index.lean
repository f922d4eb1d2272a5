import DartModels.Proofs.FreeNames
import DartModels.Proofs.Runs

/-!
# The index of signatures

The index of a class table answers what a search of its classes would answer.

An index can fail in two ways. It can lead to a class that is gone or has
changed, and it can miss a class that is there. The first would be noticed, for
what the index finds is looked at once more before it is used. The second would
not: a class would be added a second time. So it matters that the index is
always the exact summary of the classes, whatever was done to them.

It is exact for a simple reason. A class that is added cannot take a signature
away from an older one, and every other change of the table ends by building the
index anew. Nothing else about the table is needed, not even that its pointers
end, and a merge is covered by the two operations it consists of.

What registering a class does can then be said without the index. It returns the
first class that a search finds, and if there is none it adds one class, unless
every name for it is taken.

## Main definitions

* `scan`: A search of the live classes for a signature.
* `IndexExact`: The index answers like a search.

## Theorems

* `IndexExact.push`, `indexExact_reindex`: A class is added, the index rebuilt.
* `IndexExact.apply`, `Reachable.indexExact`: The index is always exact.
* `Reachable.index_iff`: What it leads to is the oldest class of a signature.
* `Reachable.register_eq_scan`: The index, and registering, in terms of a
  search.
* `not_forall_scan_none_adds`: A class may be neither found nor added.
-/

namespace DartModels

namespace ClassTable

variable {t : ClassTable} {i id : ClassId} {c : ClassDef} {s : String}

/-- The signature of a class with these fields. Neither the number nor the name
    of a class is part of it. -/
def signatureOf (fields : List Field) : String :=
  (ClassDef.mk 0 "" fields).signature

/-- The first live class with a signature. -/
def scan (t : ClassTable) (s : String) : Option ClassDef :=
  t.classes.find? fun c => c.signature = s

/-- The index has exactly what a search would find. -/
def IndexExact (t : ClassTable) : Prop :=
  ∀ s, t.index[s]? = (t.scan s).map ClassDef.id

theorem scan_eq_some (h : t.scan s = some c) : c ∈ t.classes ∧ c.signature = s :=
  ⟨List.mem_of_find?_eq_some h, by simpa using List.find?_some h⟩

theorem scan_push (t : ClassTable) (name : String) (fields : List Field) (s : String) :
    (t.push name fields).2.scan s =
      (t.scan s).or ([⟨t.entries.size, name, fields⟩].find? fun c => c.signature = s) := by
  rw [scan, classes_push, List.find?_append]
  rfl

/-! ### Every change -/

theorem indexExact_empty : IndexExact .empty := fun _ => Std.TreeMap.getElem?_emptyc

/-- Built anew, the index has what a search finds, whatever it had before. -/
theorem indexExact_reindex (t : ClassTable) : t.reindex.IndexExact := by
  intro s
  rw [reindex, getElem?_foldl_insertIfNew, Std.TreeMap.getElem?_emptyc, Option.none_or]
  rfl

/-- References change signatures, and the index is built anew once they are up to date. -/
theorem indexExact_settle (t : ClassTable) : t.settle.IndexExact :=
  indexExact_reindex t.updateReferences

/-- A new class is the last that a search would come to, and enters the index only under
    a signature that is not there yet. -/
theorem IndexExact.push (h : t.IndexExact) (name : String) (fields : List Field) :
    (t.push name fields).2.IndexExact := by
  intro s
  rw [scan_push, Option.map_or, ← h s]
  -- The new class enters the index last, like one more class of a list.
  exact getElem?_foldl_insertIfNew t.index [⟨t.entries.size, name, fields⟩] s

theorem IndexExact.registerPinned (h : t.IndexExact) (name : String) (fields : List Field) :
    (t.registerPinned name fields).2.IndexExact :=
  h.push name (t.canonical fields)

/-- Classes that are one already leave the table as it is; any other two end in a table
    that settles. -/
theorem IndexExact.absorb (h : t.IndexExact) (a b : ClassId) :
    (t.absorb a b).2.IndexExact := by
  unfold ClassTable.absorb
  by_cases hab : t.resolve a = t.resolve b
  · simp only [if_pos hab]
    exact h
  · simp only [if_neg hab]
    exact indexExact_settle _

/-- A class either has no twin and nothing happens, or the table settles without it. -/
theorem IndexExact.foldIntoTwin (h : t.IndexExact) (id : ClassId) :
    (t.foldIntoTwin id).2.IndexExact := by
  unfold ClassTable.foldIntoTwin
  split
  · exact h
  · split
    · exact h
    · simp only
      split
      · exact h
      · exact indexExact_settle _

/-- New fields have the index built anew, so nothing is asked of the one before. -/
theorem indexExact_replaceFields (t : ClassTable) (id : ClassId) (fields : List Field) :
    (t.replaceFields id fields).2.IndexExact :=
  (indexExact_reindex _).foldIntoTwin _

/-- Each round of folding ends in a table that settles. -/
theorem IndexExact.foldRounds (h : t.IndexExact) (rounds : Nat) :
    (foldRounds rounds t).IndexExact := by
  induction rounds generalizing t with
  | zero => exact h
  | succ rounds ih =>
      rw [foldRounds_succ]
      split
      · exact h
      · exact ih (indexExact_settle _)

/-- Nested merges go through the two changes they consist of. -/
theorem IndexExact.run_merges (h : t.IndexExact) {ops : List Operation}
    (hops : ∀ op ∈ ops, op.Merges) : (t.run ops).IndexExact := by
  induction ops generalizing t with
  | nil => exact h
  | cons op rest ih =>
      refine ih ?_ fun o ho => hops o (List.mem_cons_of_mem op ho)
      have hop := hops op List.mem_cons_self
      cases op with
      | absorb a b => exact h.absorb a b
      | replace id fields => exact indexExact_replaceFields t id fields
      | _ => exact hop.elim

/-- The step: every operation leaves an exact index. -/
theorem IndexExact.apply (h : t.IndexExact) (op : Operation) : (op.apply t).IndexExact := by
  cases op with
  | reserve name => exact h
  | register base fields =>
      rcases t.register_apply_cases base fields with heq | ⟨name, heq, _⟩
      · rwa [heq]
      · rw [heq]
        exact h.push name _
  | pin name fields => exact h.registerPinned name fields
  | absorb a b => exact h.absorb a b
  | replace id fields => exact indexExact_replaceFields t id fields
  -- The three merges are runs of absorptions and of new fields.
  | mergeClasses a b =>
      rw [Operation.apply, ← run_mergeOps]
      exact h.run_merges (merges_mergeOpsUpTo t.size t a b)
  | mergeSlots a b =>
      have hrun : t.run (a.shape.joinOps mergeOps t b.shape) = (t.joinSlots a b).2 :=
        Shape.run_joinOps run_mergeOps t a.shape b.shape
      rw [Operation.apply, ← hrun]
      exact h.run_merges (Shape.merges_joinOps (fun t => merges_mergeOpsUpTo t.size t) t _ _)
  | mergeAll slots =>
      rw [Operation.apply, ← run_joinAllOps]
      exact h.run_merges (merges_joinAllOps t slots)
  | fold => exact h.foldRounds _

/-- The run: the index of a table that operations have led to is exact. -/
theorem Reachable.indexExact (h : t.Reachable) : t.IndexExact := by
  induction h with
  | empty => exact indexExact_empty
  | apply _ op _ ih => exact ih.apply op

/-! ### What the index finds -/

/-- A search finds the oldest class. -/
theorem Valid.scan_oldest (h : t.Valid) (hc : t.scan s = some c) :
    ∀ d ∈ t.classes, d.signature = s → c.id ≤ d.id := by
  intro d hd hsig
  rcases List.find?_eq_some_iff_append.mp hc with ⟨_, before, after, heq, hbefore⟩
  have hsorted := h.classes_sorted
  rw [heq] at hd hsorted
  -- No class before the one that is found has the signature, and those after it are younger.
  rcases List.mem_append.mp hd with hd | hd
  · exact absurd hsig (by simpa using hbefore d hd)
  · rcases List.mem_cons.mp hd with rfl | hd
    · exact Nat.le_refl _
    · have htail := (List.pairwise_append.mp hsorted).2.1
      exact Nat.le_of_lt ((List.pairwise_cons.mp htail).1 d hd)

/-- A search for the signature of a live class comes back with a class. -/
theorem scan_isSome (hc : c ∈ t.classes) : ∃ d, t.scan c.signature = some d := by
  refine Option.isSome_iff_exists.mp ?_
  rw [scan, List.find?_isSome]
  exact ⟨c, hc, decide_eq_true rfl⟩

/-- The index leads from a signature to the live class with the smallest number
    that has it, and nowhere if there is none. -/
theorem IndexExact.index_iff (h : t.IndexExact) (hv : t.Valid) :
    t.index[s]? = some id ↔ (∃ c, t.at? id = some c ∧ c.signature = s) ∧
      ∀ j d, t.at? j = some d → d.signature = s → id ≤ j := by
  rw [h s]
  constructor
  · intro hid
    rcases Option.map_eq_some_iff.mp hid with ⟨c, hc, rfl⟩
    rcases scan_eq_some hc with ⟨hmem, hsig⟩
    refine ⟨⟨c, hv.at?_id hmem, hsig⟩, fun j d hd hdsig => ?_⟩
    have hle := hv.scan_oldest hc d (mem_classes_iff.mpr ⟨j, hd⟩) hdsig
    rwa [hv.id_eq j d hd] at hle
  · rintro ⟨⟨c, hc, rfl⟩, hle⟩
    have hmem : c ∈ t.classes := mem_classes_iff.mpr ⟨id, hc⟩
    rcases scan_isSome hmem with ⟨d, hd⟩
    rcases scan_eq_some hd with ⟨hdmem, hdsig⟩
    -- Both are the oldest class with the signature.
    have hdc := hv.scan_oldest hd c hmem rfl
    rw [hv.id_eq id c hc] at hdc
    rw [hd, Option.map_some, Nat.le_antisymm hdc (hle _ d (hv.at?_id hdmem) hdsig)]

/-- What the index finds for a list of fields is what a search finds. -/
theorem IndexExact.lookup?_eq_scan (h : t.IndexExact) (hv : t.Valid) (fields : List Field) :
    t.lookup? fields = (t.scan (signatureOf fields)).map ClassDef.id := by
  have hsig : (ClassDef.mk t.entries.size "" fields).signature = signatureOf fields := rfl
  rw [lookup?, hsig, h (signatureOf fields)]
  cases hscan : t.scan (signatureOf fields) with
  | none => rfl
  | some c =>
      rcases scan_eq_some hscan with ⟨hmem, hc⟩
      -- The class found is asked for its signature once more, which is the one looked up.
      have hat := hv.at?_id hmem
      simp only [Option.map_some, Option.bind_some, find?_eq_at?, resolve_of_at? hat, hat,
        if_pos hc]

/-! ### What registering does -/

/-- Registering returns a class that is there if and only if a search finds it. -/
theorem IndexExact.registerOrReuse_eq_ok_iff (h : t.IndexExact) (hv : t.Valid) (base : String)
    (fields : List Field) (hc : c ∈ t.classes) :
    t.registerOrReuse base fields = .ok (c.id, t) ↔
      t.scan (signatureOf (t.canonical fields)) = some c := by
  have hlookup := h.lookup?_eq_scan hv (t.canonical fields)
  constructor
  · intro hreg
    rcases t.registerOrReuse_cases base fields with ⟨id, heq, hid⟩ | ⟨name, heq, _⟩ | heq
    · rw [heq] at hreg
      have hidc : id = c.id := congrArg Prod.fst (Except.ok.inj hreg)
      rw [hlookup, hidc] at hid
      rcases Option.map_eq_some_iff.mp hid with ⟨d, hd, hdid⟩
      -- The number that comes back is that of the class found, and two live classes with
      -- one number are the same.
      have hat := hv.at?_id (scan_eq_some hd).1
      rw [hdid, hv.at?_id hc] at hat
      rw [hd, Option.some.inj hat]
    · rw [heq] at hreg
      -- The number of a new class was not given out before.
      have hnew : t.entries.size = c.id := congrArg Prod.fst (Except.ok.inj hreg)
      exact absurd (lt_of_at? (hv.at?_id hc)) (hnew ▸ Nat.lt_irrefl _)
    · rw [heq] at hreg
      exact absurd hreg (by simp only [reduceCtorEq, not_false_eq_true])
  · intro hscan
    rw [registerOrReuse, hlookup, hscan]
    rfl

/-- If a search finds nothing, the first candidate name that is free decides
    what happens. -/
theorem IndexExact.registerOrReuse_of_scan_eq_none (h : t.IndexExact) (hv : t.Valid)
    (base : String) {fields : List Field}
    (hscan : t.scan (signatureOf (t.canonical fields)) = none) :
    t.registerOrReuse base fields =
      match (Identifier.candidates base maxNameAttempts).find? (!t.names.contains ·) with
      | some name => .ok (t.push name (t.canonical fields))
      | none => .error ⟨base, maxNameAttempts⟩ := by
  have hlookup := h.lookup?_eq_scan hv (t.canonical fields)
  rw [hscan, Option.map_none] at hlookup
  cases hfree : (Identifier.candidates base maxNameAttempts).find? (!t.names.contains ·) <;>
    simp only [registerOrReuse, hlookup, Identifier.firstFree_eq_find?, hfree]

/-- The index of a table that operations have led to answers like a search: it
    leads to the oldest live class of a signature. Registering returns the class
    that a search finds for the fields. If there is none it adds one class, under
    a candidate name that was free, or fails and changes nothing because no
    candidate was. -/
theorem Reachable.index_refines_scan (h : t.Reachable) :
    (∀ s id, t.index[s]? = some id ↔
        (∃ c, t.at? id = some c ∧ c.signature = s) ∧
          ∀ j d, t.at? j = some d → d.signature = s → id ≤ j) ∧
      ∀ base fields,
        (∀ c ∈ t.classes, t.registerOrReuse base fields = .ok (c.id, t) ↔
          t.scan (signatureOf (t.canonical fields)) = some c) ∧
        (t.scan (signatureOf (t.canonical fields)) = none →
          (∃ name ∈ Identifier.candidates base maxNameAttempts, name ∉ t.names ∧
            ∃ t', t.registerOrReuse base fields = .ok (t.entries.size, t') ∧
              t'.classes = t.classes ++ [⟨t.entries.size, name, t.canonical fields⟩]) ∨
          (∀ name ∈ Identifier.candidates base maxNameAttempts, name ∈ t.names) ∧
            t.registerOrReuse base fields = .error ⟨base, maxNameAttempts⟩ ∧
            (Operation.register base fields).apply t = t) := by
  have hv := h.wellFormed.toValid
  have hexact := h.indexExact
  refine ⟨fun s id => hexact.index_iff hv, fun base fields =>
    ⟨fun c hc => hexact.registerOrReuse_eq_ok_iff hv base fields hc, fun hscan => ?_⟩⟩
  have hreg := hexact.registerOrReuse_of_scan_eq_none hv base hscan
  -- Without a class of the signature all depends on whether a candidate is free.
  cases hfree : (Identifier.candidates base maxNameAttempts).find? (!t.names.contains ·) with
  | some name =>
      rw [hfree] at hreg
      have hnot := List.find?_some hfree
      refine Or.inl ⟨name, List.mem_of_find?_eq_some hfree, fun hmem => ?_, _, hreg,
        classes_push t name _⟩
      rw [Std.TreeSet.mem_iff_contains.mp hmem] at hnot
      exact Bool.noConfusion hnot
  | none =>
      rw [hfree] at hreg
      refine Or.inr ⟨fun name hname => ?_, hreg, by rw [Operation.apply, hreg]⟩
      rw [Std.TreeSet.mem_iff_contains]
      simpa using List.find?_eq_none.mp hfree name hname

/-- Two classes become equal when the classes they refer to are made one. -/
def twinOps : List Operation :=
  [.register "A" [⟨"x", "x", ⟨.primitive .int, false⟩⟩],
    .register "B" [⟨"y", "y", ⟨.primitive .int, false⟩⟩],
    .register "C" [⟨"r", "r", ⟨.ref 1, false⟩⟩],
    .register "D" [⟨"r", "r", ⟨.ref 0, false⟩⟩], .mergeClasses 0 1]

/-- Registering their fields finds the older of the two. -/
theorem index_refines_scan_twins : (empty.run twinOps).Reachable ∧
    (empty.run twinOps).registerOrReuse "E" [⟨"r", "r", ⟨.ref 1, false⟩⟩] =
      .ok (2, empty.run twinOps) := by
  have hreach : (empty.run twinOps).Reachable := Reachable.empty.run (by decide +kernel)
  refine ⟨hreach, ?_⟩
  exact ((hreach.index_refines_scan.2 "E" [⟨"r", "r", ⟨.ref 1, false⟩⟩]).1
    ⟨2, "C", [⟨"r", "r", ⟨.ref 0, false⟩⟩]⟩ (by decide +kernel)).mpr (by decide +kernel)

/-! ### When no name is free -/

/-- Reserving names gives the table these names and leaves its classes. -/
theorem run_reserve (t : ClassTable) (names : List String) :
    (t.run (names.map .reserve)).entries = t.entries ∧
      ∀ s, s ∈ (t.run (names.map .reserve)).names ↔ s ∈ names ∨ s ∈ t.names := by
  induction names generalizing t with
  | nil => exact ⟨rfl, fun s => by simp only [List.map_nil, run_nil, List.not_mem_nil, false_or]⟩
  | cons name rest ih =>
      rcases ih (t.reserveName name) with ⟨hentries, hnames⟩
      refine ⟨hentries, fun s => (hnames s).trans ?_⟩
      rw [reserveName, Std.TreeSet.mem_insert, Std.LawfulEqCmp.compare_eq_iff_eq,
        List.mem_cons, eq_comm, or_left_comm, or_assoc]

/-- Names may be reserved at any time. -/
theorem Reachable.run_reserve (h : t.Reachable) (names : List String) :
    (t.run (names.map .reserve)).Reachable := by
  induction names generalizing t with
  | nil => exact h
  | cons name rest ih => exact ih (h.apply (.reserve name) trivial)

/-- With every candidate name reserved, a class without fields is neither found
    nor added. -/
theorem not_forall_scan_none_adds : ¬ ∀ t : ClassTable, t.Reachable → ∀ base fields,
    t.scan (signatureOf (t.canonical fields)) = none →
      ∃ id t', t.registerOrReuse base fields = .ok (id, t') ∧ t'.size = t.size + 1 := by
  intro hall
  have hreach := Reachable.empty.run_reserve (Identifier.candidates "Data" maxNameAttempts)
  rcases ClassTable.run_reserve empty (Identifier.candidates "Data" maxNameAttempts) with
    ⟨hentries, hnames⟩
  generalize empty.run ((Identifier.candidates "Data" maxNameAttempts).map .reserve) = t at *
  have hscan : t.scan (signatureOf (t.canonical [])) = none := by
    rw [scan, classes, hentries]
    rfl
  rcases hall t hreach "Data" [] hscan with ⟨id, t', hok, _⟩
  rw [hreach.indexExact.registerOrReuse_of_scan_eq_none hreach.wellFormed.toValid "Data" hscan,
    List.find?_eq_none.mpr fun name hname => by
      simpa using Std.TreeSet.mem_iff_contains.mp ((hnames name).mpr (Or.inl hname))] at hok
  exact absurd hok (by simp only [reduceCtorEq, not_false_eq_true])

end ClassTable

end DartModels
