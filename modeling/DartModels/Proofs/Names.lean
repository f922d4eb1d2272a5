import DartModels.Proofs.Success
import DartModels.Proofs.TypeNames

/-!
# Names of classes

Which names the classes of a document have, and which names the class table
holds on to.

The set of names decides what a new class may be called, so an error in it does
not show where it is made. A name that is released while its class is live is
given out a second time, and one that is kept after its class is gone makes a
later class be numbered for no reason. The delicate place is `absorb`. The
class that gives way may hand its name to the one that stays, and only because
its name was released before is it free for the other to take.

`Named` says what the set of names is at any moment, and with it what the names
of the classes are. Its parts need each other. A name can be released because
no other class has it; that the name is not held for another reason, as that of
a core type or of the root, is what the form of the names is for.

## Main definitions

* `ClassTable.Named`: The names of the classes and those held on to.

## Theorems

* `Named.redirect`, `Named.rename`: A name given up is free, and one that is
  free can be taken.
* `Named.apply`: The operations of a walk keep the names in order.
* `named_ofDocument`: The names in the catalog of a document.
* `observeRoot_named`: The names at every moment of an inference.
-/

namespace DartModels

namespace ClassTable

variable {t t' : ClassTable} {a b i j id source target : ClassId} {c : ClassDef} {root : String}

/-- The names of a table whose root class is, or will be, called `root`. -/
structure Named (root : String) (t : ClassTable) : Prop where
  /-- The names held on to: those of the core types, of the root and of the
      live classes. -/
  mem_names : ∀ s, s ∈ t.names ↔ s ∈ Identifier.coreTypes ∨ s = root ∨
    ∃ i c, t.at? i = some c ∧ c.name = s
  /-- No two live classes have the same name. -/
  distinct : ∀ i j c d, t.at? i = some c → t.at? j = some d → c.name = d.name → i = j
  /-- All classes but the root have names of their own. -/
  form : ∀ i c, t.at? i = some c → t.pinned ≠ some i → Identifier.IsTypeName c.name ∧
    c.name ∉ Identifier.coreTypes ∧ c.name ≠ root
  /-- The root has the name that was asked for. -/
  root : ∀ i c, t.pinned = some i → t.at? i = some c → c.name = root

/-- If the root may be called so, then every class has a name in upper camel case
    that is none of a core type. -/
theorem Named.isTypeName (h : Named root t) (hroot : Identifier.IsTypeName root)
    (hcore : root ∉ Identifier.coreTypes) (hc : t.at? i = some c) :
    Identifier.IsTypeName c.name ∧ c.name ∉ Identifier.coreTypes := by
  by_cases hp : t.pinned = some i
  · rw [h.root i c hp hc]
    exact ⟨hroot, hcore⟩
  · rcases h.form i c hc hp with ⟨htype, hnot, _⟩
    exact ⟨htype, hnot⟩

/-- In a table without classes, the names held on to are those of the core types and of
    the root. -/
theorem named_reserveName_empty (root : String) : Named root (empty.reserveName root) where
  mem_names s := by
    have hnone : ¬ ∃ i c, (empty.reserveName root).at? i = some c ∧ c.name = s :=
      fun ⟨i, c, hc, _⟩ => absurd (lt_of_at? hc) (Nat.not_lt_zero i)
    rw [or_iff_left hnone]
    simp only [reserveName, empty, Std.TreeSet.mem_insert, Std.TreeSet.mem_ofList,
      Std.LawfulEqCmp.compare_eq_iff_eq]
    rw [List.contains_iff_mem, or_comm, eq_comm]
  distinct i _ _ _ hc _ _ := absurd (lt_of_at? hc) (Nat.not_lt_zero i)
  form i _ hc _ := absurd (lt_of_at? hc) (Nat.not_lt_zero i)
  root i _ _ hc := absurd (lt_of_at? hc) (Nat.not_lt_zero i)

/-- Classes that change in place under their names. -/
theorem Named.rewrites {f : ClassId → ClassDef → ClassDef} (h : Named root t)
    (hr : Rewrites f t t') (hf : ∀ i c, (f i c).name = c.name)
    (hn : ∀ s, s ∈ t'.names ↔ s ∈ t.names) : Named root t' where
  mem_names s := by
    rw [hn, h.mem_names]
    -- A class that is rewritten keeps its name, so the names in use are the same.
    refine or_congr_right (or_congr_right ⟨?_, ?_⟩)
    · rintro ⟨i, c, hc, rfl⟩
      exact ⟨i, f i c, hr.at?_eq_some.mpr ⟨c, hc, rfl⟩, hf i c⟩
    · rintro ⟨i, c, hc, rfl⟩
      rcases hr.at?_eq_some.mp hc with ⟨c', hc', rfl⟩
      exact ⟨i, c', hc', (hf i c').symm⟩
  distinct i j c d hc hd hname := by
    rcases hr.at?_eq_some.mp hc with ⟨c', hc', rfl⟩
    rcases hr.at?_eq_some.mp hd with ⟨d', hd', rfl⟩
    rw [hf, hf] at hname
    exact h.distinct i j c' d' hc' hd' hname
  form i c hc hp := by
    rcases hr.at?_eq_some.mp hc with ⟨c', hc', rfl⟩
    rw [hf]
    exact h.form i c' hc' (hr.pinned ▸ hp)
  root i c hp hc := by
    rcases hr.at?_eq_some.mp hc with ⟨c', hc', rfl⟩
    rw [hf]
    exact h.root i c' (hr.pinned ▸ hp) hc'

/-- Settling changes references and builds the index anew, and no name is in either. -/
theorem Named.settle (h : Named root t) : Named root t.settle :=
  h.rewrites (rewrites_settle t) (fun _ _ => rfl) fun _ => Iff.rfl

/-- The name of a class that gave way is free. -/
theorem Named.redirect (h : Named root t) (hg : t.GivesWay source target) :
    Named root (t.redirect source target) := by
  rcases hg.source_live with ⟨cs, hs⟩
  rcases h.form source cs hs hg.not_pinned with ⟨_, hcore, hroot⟩
  have hnames : (t.redirect source target).names = t.names.erase cs.name := by
    simp only [ClassTable.redirect, at?_eq_some_iff.mp hs]
  refine ⟨fun s => ?_, ?_, ?_, ?_⟩
  · rw [hnames, Std.TreeSet.mem_erase, h.mem_names, ne_eq,
      Std.LawfulEqCmp.compare_eq_iff_eq]
    constructor
    -- A name kept for two reasons would be lost here. That of a class is kept for one.
    · rintro ⟨hne, hcore' | hroot' | ⟨i, c, hc, rfl⟩⟩
      · exact Or.inl hcore'
      · exact Or.inr (Or.inl hroot')
      · -- A class with a name other than that of `source` is not `source`, so it stays.
        have hi : i ≠ source := fun hi => hne (by
          rw [hi, hs] at hc
          rw [Option.some.inj hc])
        exact Or.inr (Or.inr ⟨i, c, at?_redirect_eq_some_iff.mpr ⟨hi, hc⟩, rfl⟩)
    · rintro (hcore' | rfl | ⟨i, c, hc, rfl⟩)
      · exact ⟨fun he => hcore (he ▸ hcore'), Or.inl hcore'⟩
      · exact ⟨hroot, Or.inr (Or.inl rfl)⟩
      · rcases at?_redirect_eq_some_iff.mp hc with ⟨hi, hc⟩
        exact ⟨fun he => hi (h.distinct i source c cs hc hs he.symm),
          Or.inr (Or.inr ⟨i, c, hc, rfl⟩)⟩
  · intro i j c d hc hd
    exact h.distinct i j c d (at?_redirect_eq_some_iff.mp hc).2 (at?_redirect_eq_some_iff.mp hd).2
  · intro i c hc
    exact h.form i c (at?_redirect_eq_some_iff.mp hc).2
  · intro i c hp hc
    exact h.root i c hp (at?_redirect_eq_some_iff.mp hc).2

/-- One class, new or not, has a name that no other class has. -/
theorem Named.distinct_of_fresh (h : Named root t)
    (hat : ∀ i, t'.at? i = if i = id then some c else t.at? i)
    (hnew : ∀ i d, t.at? i = some d → d.name ≠ c.name) {d e : ClassDef} (hd : t'.at? i = some d)
    (he : t'.at? j = some e) (hde : d.name = e.name) : i = j := by
  rw [hat] at hd he
  by_cases hi : i = id
  · by_cases hj : j = id
    · rw [hi, hj]
    · rw [if_pos hi] at hd
      rw [if_neg hj] at he
      exact absurd (hde.symm.trans (congrArg ClassDef.name (Option.some.inj hd)).symm) (hnew j e he)
  · rw [if_neg hi] at hd
    by_cases hj : j = id
    · rw [if_pos hj] at he
      exact absurd (hde.trans (congrArg ClassDef.name (Option.some.inj he)).symm) (hnew i d hd)
    · rw [if_neg hj] at he
      exact h.distinct i j d e hd he hde

/-- A class, new or not, may take a name that nobody holds. The name it had
    before is free then. -/
theorem Named.claim (h : Named root t) (hat : ∀ i, t'.at? i = if i = id then some c else t.at? i)
    (hnames : ∀ s, s ∈ t'.names ↔
      s = c.name ∨ s ∈ t.names ∧ ∀ d, t.at? id = some d → d.name ≠ s)
    (hpin : t'.pinned = t.pinned) (hp : t.pinned ≠ some id)
    (hname : Identifier.IsTypeName c.name) (hfree : c.name ∉ t.names) : Named root t' := by
  have hself : t'.at? id = some c := by rw [hat, if_pos rfl]
  have hother : ∀ {i d}, i ≠ id → (t'.at? i = some d ↔ t.at? i = some d) := fun hi => by
    rw [hat, if_neg hi]
  -- What is held on to names all live classes, so a free name is none of theirs.
  rw [h.mem_names] at hfree
  have hnew : ∀ i d, t.at? i = some d → d.name ≠ c.name := fun i d hd he =>
    hfree (Or.inr (Or.inr ⟨i, d, hd, he⟩))
  refine ⟨fun s => ?_, ?_, ?_, ?_⟩
  · rw [hnames, h.mem_names]
    constructor
    · -- The names held on to are named after, and only the old name of the class itself
      -- went free.
      rintro (rfl | ⟨hcore | hroot | ⟨i, d, hd, rfl⟩, hne⟩)
      · exact Or.inr (Or.inr ⟨id, c, hself, rfl⟩)
      · exact Or.inl hcore
      · exact Or.inr (Or.inl hroot)
      · have hi : i ≠ id := fun hi => hne d (hi ▸ hd) rfl
        exact Or.inr (Or.inr ⟨i, d, (hother hi).mpr hd, rfl⟩)
    · rintro (hcore | hroot | ⟨i, d, hd, rfl⟩)
      · -- A core type or the root may not lose its name: the class was not called so.
        exact Or.inr ⟨Or.inl hcore, fun d hd he => (h.form id d hd hp).2.1 (he ▸ hcore)⟩
      · exact Or.inr ⟨Or.inr (Or.inl hroot), fun d hd he =>
          (h.form id d hd hp).2.2 (he.trans hroot)⟩
      · by_cases hi : i = id
        · rw [hi] at hd
          exact Or.inl (congrArg ClassDef.name (Option.some.inj (hd.symm.trans hself)))
        · have hd' := (hother hi).mp hd
          exact Or.inr ⟨Or.inr (Or.inr ⟨i, d, hd', rfl⟩),
            fun e he hne => hi (h.distinct i id d e hd' he hne.symm)⟩
  · exact fun i j d e hd he hde => h.distinct_of_fresh hat hnew hd he hde
  · intro i d hd hpi
    by_cases hi : i = id
    · rw [hi, hself] at hd
      rw [← Option.some.inj hd]
      exact ⟨hname, fun hm => hfree (Or.inl hm), fun he => hfree (Or.inr (Or.inl he))⟩
    · exact h.form i d ((hother hi).mp hd) (hpin ▸ hpi)
  · intro i d hpi hd
    have hi : i ≠ id := fun hi => hp (hi ▸ hpin ▸ hpi)
    exact h.root i d (hpin ▸ hpi) ((hother hi).mp hd)

/-- A class may be given a free name, unless it is the root. -/
theorem Named.rename (h : Named root t) (hc : t.at? id = some c) (hp : t.pinned ≠ some id)
    {name : String} (hname : Identifier.IsTypeName name) (hfree : name ∉ t.names) :
    Named root (t.rename id name) := by
  have hren := rewrites_rename t id name
  rw [resolve_of_at? hc] at hren
  have hfind : t.find? id = some c := by rw [find?_eq_at?, resolve_of_at? hc, hc]
  have hat : ∀ i, (t.rename id name).at? i =
      if i = id then some { c with name } else t.at? i := fun i => by
    rw [hren.at?_eq]
    by_cases hi : i = id
    · rw [if_pos hi, hi, hc, onlyAt_self, Option.map_some]
    · rw [if_neg hi, onlyAt_of_ne _ hi, Option.map_id']
  refine h.claim hat (fun s => ?_) hren.pinned hp hname hfree
  simp only [ClassTable.rename, hfind, Std.TreeSet.mem_insert, Std.TreeSet.mem_erase, ne_eq,
    Std.LawfulEqCmp.compare_eq_iff_eq]
  refine or_congr eq_comm ⟨fun hs => ⟨hs.2, fun d hd => ?_⟩, fun hs => ⟨hs.2 c hc, hs.1⟩⟩
  rw [← Option.some.inj (hc.symm.trans hd)]
  exact hs.1

/-- A class may be added under a free name. -/
theorem Named.push (h : Named root t) {name : String} (fields : List Field)
    (hp : t.pinned ≠ some t.entries.size) (hname : Identifier.IsTypeName name)
    (hfree : name ∉ t.names) : Named root (t.push name fields).2 := by
  refine h.claim (at?_push t name fields) (fun s => ?_) rfl hp hname hfree
  simp only [ClassTable.push, Std.TreeSet.mem_insert, Std.LawfulEqCmp.compare_eq_iff_eq]
  refine or_congr eq_comm ⟨fun hs => ⟨hs, fun d hd => ?_⟩, And.left⟩
  exact absurd (lt_of_at? hd) (Nat.lt_irrefl _)

/-- The root takes the name that was kept for it. -/
theorem Named.registerPinned (h : Named root t) (fields : List Field) (hp : t.pinned = none) :
    Named root (t.registerPinned root fields).2 := by
  have hat : ∀ i, (t.registerPinned root fields).2.at? i = if i = t.entries.size then
      some ⟨t.entries.size, root, t.canonical fields⟩ else t.at? i :=
    at?_push t root (t.canonical fields)
  have hself : (t.registerPinned root fields).2.at? t.entries.size =
      some ⟨t.entries.size, root, t.canonical fields⟩ := by rw [hat, if_pos rfl]
  have hother : ∀ {i d}, i ≠ t.entries.size →
      ((t.registerPinned root fields).2.at? i = some d ↔ t.at? i = some d) := fun hi => by
    rw [hat, if_neg hi]
  -- No class is the root yet, so none has its name.
  have hnone : ∀ i, t.pinned ≠ some i := fun i he => by
    rw [hp] at he
    cases he
  have hne : ∀ i d, t.at? i = some d → d.name ≠ root := fun i d hd => (h.form i d hd (hnone i)).2.2
  refine ⟨fun s => ?_, ?_, ?_, ?_⟩
  · simp only [ClassTable.registerPinned, ClassTable.push, Std.TreeSet.mem_insert,
      Std.LawfulEqCmp.compare_eq_iff_eq]
    rw [h.mem_names]
    constructor
    · rintro (rfl | hcore | hroot | ⟨i, d, hd, rfl⟩)
      · exact Or.inr (Or.inl rfl)
      · exact Or.inl hcore
      · exact Or.inr (Or.inl hroot)
      · exact Or.inr (Or.inr ⟨i, d, at?_push_of_at? root _ hd, rfl⟩)
    · rintro (hcore | hroot | ⟨i, d, hd, rfl⟩)
      · exact Or.inr (Or.inl hcore)
      · exact Or.inl hroot.symm
      · by_cases hi : i = t.entries.size
        · rw [hi] at hd
          exact Or.inl (congrArg ClassDef.name (Option.some.inj (hself.symm.trans hd)))
        · exact Or.inr (Or.inr (Or.inr ⟨i, d, (hother hi).mp hd, rfl⟩))
  · exact fun i j d e hd he hde => h.distinct_of_fresh hat hne hd he hde
  · intro i d hd hpin
    have hi : i ≠ t.entries.size := fun hi => hpin (hi ▸ rfl)
    exact h.form i d ((hother hi).mp hd) (hnone i)
  · intro i d hpin hd
    rw [← Option.some.inj hpin, hself] at hd
    rw [← Option.some.inj hd]

/-! ### Operations -/

/-- Absorbing frees the name of the class that gives way, which the other takes if it
    has to. -/
theorem Named.absorb (h : Named root t) (hw : t.WellFormed) (ha : a < t.entries.size)
    (hb : b < t.entries.size) : Named root (t.absorb a b).2 := by
  by_cases hab : t.resolve a = t.resolve b
  · rw [absorb_of_eq hab]
    exact h
  · rcases absorb_cases hw.toValid ha hb hab with ⟨stays, gives, hg, _, heq | ⟨hpin, c, hc, heq⟩⟩
    · rw [heq]
      exact (h.redirect hg).settle
    · rw [heq]
      rcases hg.target_live with ⟨d, hd⟩
      have hd' : (t.redirect gives stays).at? stays = some d :=
        at?_redirect_eq_some_iff.mpr ⟨hg.ne.symm, hd⟩
      have hname := h.form gives c hc hg.not_pinned
      refine ((h.redirect hg).rename hd' hpin hname.1 ?_).settle
      -- The name went free with the class that gave way.
      simp only [ClassTable.redirect, at?_eq_some_iff.mp hc, Std.TreeSet.mem_erase, ne_eq,
        Std.LawfulEqCmp.compare_eq_iff_eq, not_true_eq_false, false_and, not_false_eq_true]

/-- New fields leave the names. If the class has a twin then, one of the two goes, and
    with it its name. -/
theorem Named.replaceFields (h : Named root t) (hw : t.WellFormed) (hi : id < t.entries.size)
    {fields : List Field} (hk : Field.KnownAll t.entries.size fields) :
    Named root (t.replaceFields id fields).2 := by
  have hinstall : Named root (t.install id fields) := by
    refine h.rewrites (hw.linked.rewrites_install hi fields) (fun i c => ?_) fun s => ?_
    · simp only [onlyAt]
      split <;> rfl
    · simp only [ClassTable.install, ClassTable.reindex, ClassTable.setFields]
      split <;> exact Iff.rfl
  rcases hw.at?_install hi fields with ⟨c, hc, _⟩
  rw [replaceFields_eq]
  rcases foldIntoTwin_cases (hw.toValid.indexSound_install hk) hc with
    heq | ⟨_, _, stays, gives, _, _, _, hg, _, heq⟩
  · rw [heq]
    exact hinstall
  · rw [heq]
    exact (hinstall.redirect hg).settle

/-- Folding keeps the names in order, as it only redirects and settles. -/
theorem foldable_named (root : String) : Foldable (Named root) where
  redirect _ _ _ _ h hg := h.redirect hg
  settle _ _ h := h.settle

/-- The operations of an inference keep the names in order. -/
theorem Named.apply (h : Named root t) (hw : t.WellFormed) {op : Operation}
    (hk : op.Known t.entries.size) (hp : op.Pins → t.pinned = none)
    (hop : Inference.Walks op ∨ (∃ fields, op = .pin root fields) ∨ op = .fold) :
    Named root (op.apply t) := by
  rcases hop with (hm | ⟨hint, fields, rfl⟩) | ⟨fields, rfl⟩ | rfl
  · -- The walk merges by absorbing and by replacing fields, and adds classes under their
    -- first free name.
    cases op with
    | absorb a b => exact h.absorb hw hk.1 hk.2
    | replace id fields => exact h.replaceFields hw hk.1 hk.2
    | _ => exact hm.elim
  · rcases t.register_apply_cases (Identifier.typeName hint Inference.fallbackName) fields with
      heq | ⟨name, heq, hfree⟩
    · rwa [heq]
    · rw [heq]
      have hbase : Identifier.IsTypeName Inference.fallbackName :=
        ⟨'I', ['t', 'e', 'm'], rfl, rfl, List.all_eq_true.mp rfl⟩
      refine h.push _ ?_ (Identifier.isTypeName_firstFree
        (Identifier.isTypeName_typeName hint hbase) hfree) ?_
      · -- The number of the new class is that of no live class, the root among them.
        intro hpin
        rcases hw.pinned_live _ hpin with ⟨c, hc⟩
        exact Nat.lt_irrefl _ (lt_of_at? hc)
      · rw [Std.TreeSet.mem_iff_contains, Identifier.firstFree_not_taken hfree]
        exact Bool.false_ne_true
  · exact h.registerPinned fields (hp trivial)
  · exact ((foldable_named root).foldDuplicates hw h).2

/-- So does a run of them. -/
theorem Named.run (h : Named root t) (hw : t.WellFormed) {ops : List Operation} (hl : t.Legal ops)
    (hops : ∀ op ∈ ops, Inference.Walks op ∨ (∃ fields, op = .pin root fields) ∨ op = .fold) :
    Named root (t.run ops) := by
  induction ops generalizing t with
  | nil => exact h
  | cons op rest ih =>
      rcases hl with ⟨hk, hp, hrest⟩
      exact ih (h.apply hw hk hp (hops op List.mem_cons_self)) (hw.apply hk hp).1 hrest
        fun o ho => hops o (List.mem_cons_of_mem op ho)

end ClassTable

/-! ### Inference -/

namespace Inference

open ClassTable

/-- A walk over a whole document keeps a name for the root first, and takes it
    last. -/
theorem observeRootOps_eq (o : Options) (t : ClassTable) (name : String) (v : Json) :
    observeRootOps o t name v = [] ∨ ∃ tail, observeRootOps o t name v = .reserve name :: tail ∧
      ∀ op ∈ tail, Walks op ∨ (∃ fields, op = .pin name fields) ∨ op = .fold := by
  cases v with
  | null | bool _ | number _ | string _ | array _ => exact Or.inl rfl
  | object members =>
      refine Or.inr ⟨_, rfl, fun op hop => ?_⟩
      rcases List.mem_append.mp hop with hop | hop
      · exact Or.inl (walks_observeMembersOps o _ 1 [] members op hop)
      · split at hop
        · exact Or.inr (Or.inl ⟨_, List.mem_singleton.mp hop⟩)
        · exact absurd hop List.not_mem_nil

/-- Where the walk succeeds, the class it returns is the root of the table. -/
theorem pinned_observeRoot {o : Options} {t t' : ClassTable} {name : String} {v : Json}
    {root : ClassId} (h : observeRoot o t name v = (.ok root, t')) : t'.pinned = some root := by
  rcases observeRoot_eq_ok h with ⟨members, fields, t₁, _, _, hpin, _⟩
  cases hpin
  rfl

/-- The names are in order after any part of the journal but the empty one: before the
    first operation no name is kept for the root. -/
theorem named_run_prefix (o : Options) (name : String) (v : Json) {ops : List Operation}
    (hpre : ops <+: observeRootOps o .empty name v) (hne : ops ≠ []) :
    Named name (ClassTable.empty.run ops) := by
  have hl := legal_observeRootOps o WellFormed.empty rfl name v
  -- A prefix of a legal journal is legal.
  rcases hpre with ⟨post, hpost⟩
  rw [← hpost, legal_append] at hl
  rcases observeRootOps_eq o .empty name v with hnil | ⟨tail, htail, hops⟩
  · rw [hnil] at hpost
    exact absurd (List.append_eq_nil_iff.mp hpost).1 hne
  · cases ops with
    | nil => exact absurd rfl hne
    | cons op rest =>
        rw [htail, List.cons_append, List.cons.injEq] at hpost
        rcases hpost with ⟨rfl, rfl⟩
        -- The first operation keeps the name of the root, which makes the table `Named`.
        rw [run_cons, Operation.apply]
        simp only [Legal, Operation.apply] at hl
        have hw := WellFormed.empty.rewrites_self (rewrites_reserveName .empty name)
        exact (named_reserveName_empty name).run hw hl.1.2.2 fun op hop =>
          hops op (List.mem_append_left post hop)

/-- The names in the catalog of a document. -/
theorem named_ofDocument {o : Options} {name : String} {v : Json} {catalog : Catalog}
    (h : Catalog.ofDocument o name v = .ok catalog) :
    Named name catalog.table ∧ catalog.table.pinned = some catalog.root ∧
      ∃ c, catalog.table.at? catalog.root = some c ∧ c.name = name := by
  rcases Catalog.ofDocument_eq_ok h with ⟨root, t, hr, hl, hfold, rfl⟩
  have hpin := pinned_observeRoot hr
  have hne : observeRootOps o .empty name v ≠ [] := fun hnil => by
    have hrun := congrArg ClassTable.pinned hl.run
    rw [hnil, hpin] at hrun
    exact absurd hrun (by simp only [run_nil, ClassTable.empty, reduceCtorEq, not_false_eq_true])
  have hnamed := named_run_prefix o name v List.prefix_rfl hne
  rw [hl.run] at hnamed
  rcases (foldable_named name).foldDuplicates hl.wellFormed hnamed with ⟨hw, hnamed'⟩
  -- The root is pinned, so no fold makes it give way.
  have hpin' : t.foldDuplicates.pinned = some root := hfold.evolves.pinned root hpin
  rcases hw.pinned_live root hpin' with ⟨c, hc⟩
  have hroot : t.foldDuplicates.resolve root = root := resolve_of_at? hc
  simp only [Catalog.ofTable, hroot]
  exact ⟨hnamed', hpin', c, hc, hnamed'.root root c hpin' hc⟩

/-- At every moment of an inference, and in the table that comes out of it, the
    names of the classes are distinct and well-formed, the root has the name
    that was asked for, and exactly these names are held on to. -/
theorem observeRoot_named (o : Options) (name : String) (v : Json) :
    (∀ ops, ops <+: observeRootOps o .empty name v → ops ≠ [] →
        Named name (ClassTable.empty.run ops)) ∧
      ClassTable.empty.run (observeRootOps o .empty name v) = (observeRoot o .empty name v).2 ∧
      ∀ catalog, Catalog.ofDocument o name v = .ok catalog →
        Named name catalog.table ∧ catalog.table.pinned = some catalog.root ∧
          ∃ c, catalog.table.at? catalog.root = some c ∧ c.name = name :=
  ⟨fun _ => named_run_prefix o name v, run_observeRootOps o .empty name v,
    fun _ => named_ofDocument⟩

/-- A document for which there is a catalog. -/
theorem observeRoot_named_elements : ∃ catalog,
    Catalog.ofDocument {} "List" elementsDocument = .ok catalog ∧ Named "List" catalog.table := by
  rcases ofDocument_elementsDocument with ⟨catalog, hc⟩
  exact ⟨catalog, hc, ((observeRoot_named {} "List" _).2.2 catalog hc).1⟩

end Inference

end DartModels
