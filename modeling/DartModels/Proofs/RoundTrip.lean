import DartModels.Proofs.Completion
import DartModels.Proofs.Evaluation
import DartModels.Proofs.FieldNames
import DartModels.Proofs.Lowered
import DartModels.Proofs.Names

/-!
# Round trip

What the classes of a document read, they write back.

Reading and writing are two recursions over the shape of a slot. Each decides for
itself where a value may be null, and where nothing needs to be done, and whether
the two agree does not show before the program runs. It depends on names as well:
a factory whose class has a field called like a type would cast to something
else, and two classes with one name would read each other's objects.

What comes back is the completed document, in which nulls stand for the keys that
were missing. Its keys come in the order of the fields, so values are compared up
to the order of entries.

`RoundTrips` says of a single value in a slot what is read and what is written,
wherever the expressions may stand. So that of a list follows from that of its
elements, each of which stands in a variable of its own, and that of an object
from that of its fields.

## Main definitions

* `Dart.Accepts`: What the program takes in the place of a slot.
* `Dart.Value.Agrees`: Equality of values up to the order of entries.
* `Dart.Runnable`: What is needed of a catalog.
* `Dart.RoundTrips`: A value is read from a slot, and written back.

## Theorems

* `Dart.accepts_of_conforms`: What conforms to a slot is accepted.
* `Dart.Runnable.roundTrips_list`, `Dart.Runnable.roundTrips_ref`: Lists and
  objects come back if their parts do.
* `Dart.Runnable.exists_roundTrips`: All that is accepted comes back.
* `Catalog.runnable`: The catalog of a document has what is needed.
* `Catalog.toJson_fromJson_of_ofDocument`: What the classes of a document read,
  they write back.
-/

namespace DartModels

namespace Dart

/-- What the program takes in the place of a slot: null and nothing where there
    may be null, anything else where there is no type, and otherwise what the
    type says, with no keys that a class does not have. -/
inductive Accepts (t : ClassTable) : Json → Slot → Prop where
  | null {s : Slot} (hs : s.nullable = true) : Accepts t .null s
  | untyped {v : Json} {s : Slot} (hs : s.shape = .null ∨ s.shape = .dynamic) (hv : v ≠ .null) :
      Accepts t v s
  | bool {b : Bool} {s : Slot} (hs : s.shape = .primitive .bool) : Accepts t (.bool b) s
  | int {n : Json.Number} {s : Slot} (hs : s.shape = .primitive .int) (hn : n.isSigned64 = true) :
      Accepts t (.number n) s
  | double {n : Json.Number} {s : Slot} (hs : s.shape = .primitive .double) :
      Accepts t (.number n) s
  | string {text : String} {s : Slot} (hs : s.shape = .primitive .string) :
      Accepts t (.string text) s
  | list {items : List Json} {s : Slot} {item : Shape} {nullable : Bool}
      (hs : s.shape = .list item nullable) (hitems : ∀ v ∈ items, Accepts t v ⟨item, nullable⟩) :
      Accepts t (.array items) s
  | ref {members : List (String × Json)} {s : Slot} {id : ClassId} {d : ClassDef}
      (hs : s.shape = .ref id) (hd : t.find? id = some d)
      (hkeys : ∀ m ∈ members, ∃ f ∈ d.fields, f.key = m.1)
      (hmembers : ∀ m ∈ members, ∀ f ∈ d.fields, f.key = m.1 → Accepts t m.2 f.slot)
      (habsent : ∀ f ∈ d.fields, (∀ m ∈ members, m.1 ≠ f.key) → f.slot.nullable = true) :
      Accepts t (.object members) s

/-- What conforms is accepted. The converse fails in one place: no value but null
    conforms to the slot of a place where only nulls were seen, yet that slot has
    no type in the program. -/
theorem accepts_of_conforms {t : ClassTable} (hk : t.Keyed) {v : Json} {s : Slot}
    (h : Conforms t v s) : Accepts t v s := by
  induction v using Json.of_parts generalizing s with
  | null => exact .null (by rwa [Conforms] at h)
  | bool b =>
      rw [Conforms] at h
      exact h.elim (fun hs => .untyped (Or.inr hs) Json.noConfusion) .bool
  | number n =>
      rw [Conforms] at h
      rcases h with hs | hs | ⟨hs, hn⟩
      · exact .untyped (Or.inr hs) Json.noConfusion
      · exact .double hs
      · exact .int hs hn
  | string text =>
      rw [Conforms] at h
      exact h.elim (fun hs => .untyped (Or.inr hs) Json.noConfusion) .string
  | array items ih =>
      rcases conforms_array_iff.mp h with hs | ⟨item, nullable, hs, hitems⟩
      · exact .untyped (Or.inr hs) Json.noConfusion
      · exact .list hs fun v hv => ih v hv (hitems v hv)
  | object members ih =>
      rcases conforms_object_iff.mp h with hs | ⟨id, d, hs, hd, hmembers, habsent⟩
      · exact .untyped (Or.inr hs) Json.noConfusion
      · refine .ref hs hd (fun m hm => ?_) (fun m hm f hf hkey => ?_) habsent
        · rcases hmembers m hm with ⟨f, hf, hkey, _⟩
          exact ⟨f, hf, hkey⟩
        · -- The member fits the field of its key, and there is only one.
          rcases hmembers m hm with ⟨g, hg, hkey', hfits⟩
          rw [ClassTable.find?_eq_at?] at hd
          cases Field.eq_of_key_eq (hk _ d hd) hg hf (hkey'.trans hkey.symm)
          exact ih m hm hfits

/-- Equal but for the order of the entries of maps. -/
inductive Value.Agrees : Value → Value → Prop where
  | refl (v : Value) : Agrees v v
  | list {xs ys : List Value} (h : List.Forall₂ Agrees xs ys) : Agrees (.list xs) (.list ys)
  | map {xs ys : List (String × Value)} (hkeys : (xs.map Prod.fst).Perm (ys.map Prod.fst))
      (h : ∀ key v w, Json.find? xs key = some v → Json.find? ys key = some w → Agrees v w) :
      Agrees (.map xs) (.map ys)

/-- What a catalog has to be like so that its program runs: the names in it are
    distinct and hide no type, and every reference leads to one of its classes. -/
structure Runnable (o : Options) (c : Catalog) : Prop where
  nullSafety : o.nullSafety = true
  placeholder : o.nullTypeName = "dynamic"
  nodup_names : (c.classes.map ClassDef.name).Nodup
  typeName : ∀ d ∈ c.classes, Identifier.IsTypeName d.name
  not_core : ∀ d ∈ c.classes, d.name ∉ Identifier.coreTypes
  labelled : ∀ d ∈ c.classes, Field.Labelled d.fields
  found : ∀ d ∈ c.classes, c.table.find? d.id = some d
  ref_listed : ∀ d ∈ c.classes, ∀ f ∈ d.fields, ∀ i ∈ f.slot.shape.ids,
    ∃ d' ∈ c.classes, c.table.find? i = some d'

/-- No name in a scope is that of a type. -/
def Scope.HidesNoType (s : Scope) : Prop :=
  ∀ name ∈ s.names, Identifier.IsFieldName name ∧ Identifier.isReserved name = false

section Scopes

variable {s : Scope}

/-- The variable for the elements of a list has a form that no type has. -/
theorem elementVar_form (depth : Nat) : Identifier.IsFieldName (elementVar depth) ∧
    Identifier.isReserved (elementVar depth) = false := by
  have he : Identifier.IsFieldName "e" :=
    ⟨'e', [], rfl, rfl, fun _ hd => absurd hd List.not_mem_nil⟩
  rw [elementVar]
  split
  · exact ⟨he, by decide +kernel⟩
  · exact ⟨he.variant depth, Identifier.isReserved_variant "e" depth⟩

/-- One more of these variables hides no type either. -/
theorem Scope.HidesNoType.bind (h : s.HidesNoType) (depth : Nat) (v : Value) :
    (s.bind (elementVar depth) v).HidesNoType := by
  intro name hname
  rcases Scope.mem_names_bind.mp hname with rfl | hname
  · exact elementVar_form depth
  · exact h name hname

/-- The name of a class is in reach. -/
theorem Scope.HidesNoType.not_mem (h : s.HidesNoType) {name : String}
    (hname : Identifier.IsTypeName name) : name ∉ s.names :=
  fun hmem => (h name hmem).1.not_isTypeName hname

/-- In a factory there are the map and the fields, and none is called like a type. -/
theorem hidesNoType_factoryScope {d : ClassDef} (h : Field.Labelled d.fields) (json : Value) :
    (factoryScope d json).HidesNoType := by
  have hjson : Identifier.IsFieldName "json" :=
    ⟨'j', ['s', 'o', 'n'], rfl, rfl, fun d hd => Or.inl (List.all_eq_true.mp rfl d hd)⟩
  have hnames : (factoryScope d json).names =
      "json" :: Identifier.distinctFieldNames (d.fields.map Field.key) := by
    rw [← h.names]
    rfl
  intro name hname
  rw [hnames] at hname
  rcases List.mem_cons.mp hname with rfl | hname
  · exact ⟨hjson, by decide +kernel⟩
  · exact Identifier.distinctFieldNames_form _ name hname

/-- A type of the core library is in reach. -/
theorem Scope.HidesNoType.means (h : s.HidesNoType) {m : Methods}
    (hm : ∀ name ∈ m.classNames, name ∉ Identifier.coreTypes) {type : Ty}
    (ht : ∀ name ∈ type.names, name ∈ Identifier.coreTypes) : s.Means m type := by
  intro name hname
  refine ⟨fun hmem => ?_, fun hmem => hm name hmem (ht name hname)⟩
  have hres := (h name hmem).2
  rw [Identifier.isReserved, List.contains_iff_mem.mpr (ht name hname), Bool.or_true] at hres
  exact Bool.noConfusion hres

end Scopes

/-! ### Slots -/

section Slots

variable {o : Options} {c : Catalog} {limit : Nat} {s : Scope} {source : Expr} {base : Ty}
  {nullable : Bool}

/-- A question mark is no name. -/
theorem names_marked (o : Options) (base : Ty) (nullable : Bool) :
    (marked o base nullable).names = base.names := by
  unfold marked
  split <;> rfl

/-- In a program that runs, a type of the core library means what it should. -/
theorem Runnable.means (hr : Runnable o c) (hs : s.HidesNoType) {type : Ty}
    (ht : ∀ name ∈ type.names, name ∈ Identifier.coreTypes) : s.Means (methods o c limit) type := by
  refine hs.means (fun name hname => ?_) ht
  rw [classNames_methods] at hname
  rcases List.mem_map.mp hname with ⟨d, hd, rfl⟩
  exact hr.not_core d hd

/-- A cast to a type of the core library, with a question mark where the value
    may be null. -/
theorem Runnable.eval_marked (hr : Runnable o c) (hs : s.HidesNoType) {v : Value}
    (he : source.eval (methods o c limit) s = .ok v)
    (ht : ∀ name ∈ base.names, name ∈ Identifier.coreTypes)
    (hv : base.admits v = true ∨ v = .null ∧ nullable = true) :
    (Expr.cast source (marked o base nullable)).eval (methods o c limit) s = .ok v := by
  refine eval_cast he (hr.means hs (names_marked o base nullable ▸ ht)) ?_
  rcases hv with hv | ⟨rfl, hn⟩
  · unfold marked
    split
    · cases v with
      | null => rfl
      | _ => exact hv
    · exact hv
  · rw [marked, hr.nullSafety, hn]
    rfl

/-- Reading the document `v` in a slot makes the value `u`, and writing this
    makes `w`, which is what was to come back. -/
structure RoundTrips (o : Options) (c : Catalog) (v : Json) (slot : Slot) (u w : Value) : Prop where
  agrees : w.Agrees (.ofJson (v.completed c.table slot))
  reads : ∀ limit, v.nesting ≤ limit → ∀ source depth (s : Scope), s.HidesNoType →
    source.eval (methods o c limit) s = .ok (.ofJson v) →
      (read o c source depth slot.nullable slot.shape).eval (methods o c limit) s = .ok u
  writes : ∀ limit, v.nesting ≤ limit → ∀ source depth (s : Scope),
    source.eval (methods o c limit) s = .ok u →
      ((write? o source depth slot.nullable slot.shape).getD source).eval (methods o c limit) s =
        .ok w

/-- A value without a type is left as it is. -/
theorem Runnable.roundTrips_untyped (hr : Runnable o c) (v : Json) {slot : Slot}
    (hslot : slot.shape = .null ∨ slot.shape = .dynamic) :
    RoundTrips o c v slot (.ofJson v) (.ofJson v) where
  agrees := by
    have heq : v.completed c.table slot = v := by
      rcases hslot with hs | hs <;> exact Json.completed_of_primitive c.table v hs (by decide)
    rw [heq]
    exact .refl _
  reads := fun _ _ source _ _ _ he => by
    rcases hslot with hs | hs <;> (rw [hs, read, read.placeholder, hr.placeholder]; exact he)
  writes := fun _ _ source _ _ he => by
    rcases hslot with hs | hs <;> (rw [hs]; exact he)

/-- Null comes back where it is allowed. No member of it is ever reached, by the guard
    of each form. -/
theorem Runnable.roundTrips_null (hr : Runnable o c) {slot : Slot} (hn : slot.nullable = true) :
    RoundTrips o c .null slot .null .null where
  agrees := .refl _
  reads := by
    intro limit _ source depth s hs he
    rcases slot with ⟨shape, nullable⟩
    simp only at hn
    cases shape with
    | primitive p =>
        cases p with
        | bool | int | string =>
            exact hr.eval_marked hs he (by decide) (Or.inr ⟨rfl, hn⟩)
        | double =>
            exact (eval_toDouble (hr.eval_marked hs he (by decide) (Or.inr ⟨rfl, hn⟩))).trans
              (reach_null (guardAccess_ne_plain hn))
        | null | dynamic =>
            rw [read, read.placeholder, hr.placeholder]
            exact he
    | list item itemNullable =>
        exact (eval_mapList (hr.eval_marked hs he (by decide) (Or.inr ⟨rfl, hn⟩))).trans
          (reach_null (chainAccess_ne_plain hn))
    | ref id =>
        rw [read, canBeNull, hn, Bool.true_or, if_pos rfl, Expr.eval, he]
        rfl
  writes := by
    intro limit _ source depth s he
    rcases slot with ⟨shape, nullable⟩
    simp only at hn
    cases shape with
    | primitive p => exact he
    | list item itemNullable =>
        rw [write?]
        -- Whether or not the elements need turning back, there are none.
        cases write? o (.var (elementVar depth)) (depth + 1) itemNullable item with
        | none => exact he
        | some body =>
            exact (eval_mapList he).trans (reach_null (chainAccess_ne_plain hn))
    | ref id => exact (eval_toJson he).trans (reach_null (guardAccess_ne_plain hn))

/-- A value that is its own JSON. -/
theorem Runnable.roundTrips_cast (hr : Runnable o c) {v : Json} {slot : Slot} {p : Primitive}
    (hslot : slot.shape = .primitive p) (hp : p = .bool ∨ p = .int ∨ p = .string)
    (hv : (typeOf o c (.primitive p)).admits (.ofJson v) = true) :
    RoundTrips o c v slot (.ofJson v) (.ofJson v) where
  agrees := by
    have hne : p ≠ .double := by rcases hp with rfl | rfl | rfl <;> decide
    rw [Json.completed_of_primitive c.table v hslot hne]
    exact .refl _
  reads := by
    intro limit _ source depth s hs he
    rw [hslot]
    rcases hp with rfl | rfl | rfl <;> exact hr.eval_marked hs he (by decide) (Or.inl hv)
  writes := fun _ _ source _ _ he => by
    rw [hslot]
    exact he

/-- A number in the place of a double becomes one. -/
theorem Runnable.roundTrips_double (hr : Runnable o c) (n : Json.Number) {slot : Slot}
    (hslot : slot.shape = .primitive .double) :
    RoundTrips o c (.number n) slot (.double n.toFloat) (.double n.toFloat) where
  agrees := by
    rw [Json.completed, if_pos hslot]
    exact .refl _
  reads := by
    intro limit _ source depth s hs he
    -- An integer out of range is a double already, and stays the same one.
    have hnum : (Ty.named "num").admits (.ofNumber n) = true ∧
        Value.ofNumber n ≠ .null ∧ (Value.ofNumber n).toDouble = .ok (.double n.toFloat) := by
      cases n with
      | integer k =>
          rw [Value.ofNumber]
          split <;> exact ⟨rfl, Value.noConfusion, rfl⟩
      | double x => exact ⟨rfl, Value.noConfusion, rfl⟩
    rw [hslot, read, eval_toDouble (hr.eval_marked hs he (by decide) (Or.inl hnum.1)),
      Value.ofJson, reach_of_ne_null hnum.2.1, hnum.2.2]
  writes := fun _ _ source _ _ he => by
    rw [hslot]
    exact he

/-- A list of values that come back comes back. -/
theorem Runnable.roundTrips_list (hr : Runnable o c) {items : List Json} {slot : Slot}
    {item : Shape} {itemNullable : Bool} (hslot : slot.shape = .list item itemNullable)
    {u w : Json → Value} (h : ∀ v ∈ items, RoundTrips o c v ⟨item, itemNullable⟩ (u v) (w v)) :
    RoundTrips o c (.array items) slot (.list (items.map u)) (.list (items.map w)) where
  agrees := by
    rw [Json.completed, hslot]
    simp only [Value.ofJson, Value.ofItems_eq_map, Json.completedItems_eq_map, List.map_map]
    refine .list ?_
    rw [List.forall₂_map_left_iff, List.forall₂_map_right_iff]
    exact List.forall₂_same.mpr fun v hv => (h v hv).agrees
  reads := by
    intro limit hlimit source depth s hs he
    rw [hslot, read]
    refine (eval_mapList (hr.eval_marked hs he (by decide) (Or.inl rfl))).trans ?_
    rw [Value.ofJson, reach_of_ne_null Value.noConfusion, Value.ofItems_eq_map]
    -- An element is read in a scope with one variable more, which holds it.
    refine mapList_eq_ok fun v hv => ?_
    exact (h v hv).reads limit (Nat.le_trans (Json.nesting_item_le hv) hlimit) _ _ _
      (hs.bind depth _) eval_var_bind
  writes := by
    intro limit hlimit source depth s he
    have hitem : ∀ v ∈ items, ((write? o (.var (elementVar depth)) (depth + 1) itemNullable
        item).getD (.var (elementVar depth))).eval (methods o c limit)
          (s.bind (elementVar depth) (u v)) = .ok (w v) := fun v hv =>
      (h v hv).writes limit (Nat.le_trans (Json.nesting_item_le hv) hlimit) _ _ _
        eval_var_bind
    rw [hslot, write?]
    cases hbody : write? o (.var (elementVar depth)) (depth + 1) itemNullable item with
    | none =>
        -- What needs no turning back is the same before and after.
        have heq : items.map u = items.map w := List.map_congr_left fun v hv => by
          have hw := hitem v hv
          rw [hbody, Option.getD_none, eval_var_bind] at hw
          exact Except.ok.inj hw
        rw [Option.map_none, Option.getD_none, he, heq]
    | some body =>
        rw [hbody] at hitem
        rw [Option.map_some, Option.getD_some, eval_mapList he, reach_of_ne_null Value.noConfusion]
        exact mapList_eq_ok hitem

/-- Names are distinct, so a name leads to its class. -/
theorem Runnable.class?_eq (hr : Runnable o c) {d : ClassDef} (hd : d ∈ c.classes) :
    class? c d.name = some d := by
  rw [class?]
  cases hfind : c.classes.find? (·.name = d.name) with
  | none => exact absurd (decide_eq_true rfl) (List.find?_eq_none.mp hfind d hd)
  | some d' =>
      have hfound := List.find?_some hfind
      have hname := of_decide_eq_true hfound
      rw [List.inj_on_of_nodup_map hr.nodup_names (List.mem_of_find?_eq_some hfind) hd hname]

/-- Every field of a factory reads the value of its key. -/
theorem eval_entry_factoryScope (m : Methods) (d : ClassDef) (members : List (String × Json))
    (key : String) : (Expr.entry key).eval m (factoryScope d (.ofJson (.object members))) =
      .ok (.ofJson (Json.lookup members key)) := by
  rw [factoryScope, Expr.eval, Json.find?, if_pos rfl]
  simp only [Value.ofJson, Value.find?_ofMembers, Json.lookup]
  cases Json.find? members key <;> rfl

/-- The factory of a class makes an object of what its fields are read as. -/
theorem Runnable.fromJson_object (hr : Runnable o c) {d : ClassDef} (hd : d ∈ c.classes)
    {members : List (String × Json)} {u w : Field → Value}
    (h : ∀ f ∈ d.fields, RoundTrips o c (Json.lookup members f.key) f.slot (u f) (w f))
    (hlimit : (Json.object members).nesting ≤ limit) :
    (methods o c limit).fromJson d.name (.ofJson (.object members)) =
      .ok (.object d.name (d.fields.map fun f => (f.name, u f))) := by
  -- The call takes one level, and what is left is enough for the fields.
  rcases Json.exists_limit_lookup hlimit with ⟨limit, rfl, hle⟩
  have hs := hidesNoType_factoryScope (hr.labelled d hd) (.ofJson (.object members))
  rw [Value.ofJson, fromJson_methods (hr.class?_eq hd)]
  refine construct_eq_ok (fun f hf => ?_) (hs.not_mem (hr.typeName d hd))
  exact (h f hf).reads limit (hle f.key) _ 0 _ hs (eval_entry_factoryScope _ d members f.key)

/-- The method of a class writes what its fields are written as. -/
theorem Runnable.toJson_object (hr : Runnable o c) {d : ClassDef} (hd : d ∈ c.classes)
    {members : List (String × Json)} {u w : Field → Value}
    (h : ∀ f ∈ d.fields, RoundTrips o c (Json.lookup members f.key) f.slot (u f) (w f))
    (hlimit : (Json.object members).nesting ≤ limit) :
    (methods o c limit).toJson (.object d.name (d.fields.map fun f => (f.name, u f))) =
      .ok (.map (d.fields.map fun f => (f.key, w f))) := by
  rcases Json.exists_limit_lookup hlimit with ⟨limit, rfl, hle⟩
  rw [toJson_methods (hr.class?_eq hd)]
  refine serialize_eq_ok (fun f hf => ?_) (hr.labelled d hd).keys
  -- A field is found under its name because no other has the same.
  have hnames : ((d.fields.map fun f => (f.name, u f)).map Prod.fst).Nodup := by
    rw [List.map_map]
    exact (hr.labelled d hd).names ▸ Identifier.nodup_distinctFieldNames _
  refine (h f hf).writes limit (hle f.key) _ 0 _ (eval_var ?_)
  exact (Json.find?_eq_some_iff hnames).mpr (List.mem_map_of_mem hf)

/-- The entries that are written are those of the completed object. -/
theorem Runnable.agrees_object (hr : Runnable o c) {d : ClassDef} (hd : d ∈ c.classes)
    {members : List (String × Json)} (hm : (members.map Prod.fst).Nodup)
    (hall : ∀ m ∈ members, ∃ f ∈ d.fields, f.key = m.1) {u w : Field → Value}
    (h : ∀ f ∈ d.fields, RoundTrips o c (Json.lookup members f.key) f.slot (u f) (w f)) :
    Value.Agrees (.map (d.fields.map fun f => (f.key, w f)))
      (.ofJson (.object (Json.completedMembers c.table members d.fields ++
        Json.missing members d.fields))) := by
  have hkeys := (hr.labelled d hd).keys
  have hentries : (d.fields.map fun f => (f.key, w f)).map Prod.fst = d.fields.map Field.key := by
    rw [List.map_map]
    rfl
  rw [Value.ofJson]
  refine .map ?_ fun key v v' hv hv' => ?_
  -- Both sides have each key of the class once.
  · rw [hentries, Value.keys_ofMembers,
      List.perm_ext_iff_of_nodup hkeys (Json.nodup_completed hm hkeys)]
    exact fun key => (Json.mem_keys_completed hall).symm
  · rcases List.mem_map.mp (Json.mem_of_find? hv) with ⟨f, hf, heq⟩
    cases heq
    rw [Value.find?_ofMembers, Json.find?_completed hm hkeys hf, Option.map_some,
      Option.some.injEq] at hv'
    exact hv' ▸ (h f hf).agrees

/-- A reference to a class of the program, once all fields of the object that
    stands there come back. -/
theorem Runnable.roundTrips_ref (hr : Runnable o c) {d : ClassDef} (hd : d ∈ c.classes)
    {slot : Slot} {id : ClassId} (hslot : slot.shape = .ref id) (hid : c.table.find? id = some d)
    {members : List (String × Json)} (hm : (members.map Prod.fst).Nodup)
    (hall : ∀ m ∈ members, ∃ f ∈ d.fields, f.key = m.1) {u w : Field → Value}
    (h : ∀ f ∈ d.fields, RoundTrips o c (Json.lookup members f.key) f.slot (u f) (w f)) :
    RoundTrips o c (.object members) slot (.object d.name (d.fields.map fun f => (f.name, u f)))
      (.map (d.fields.map fun f => (f.key, w f))) where
  agrees := by
    rw [Json.completed, hslot]
    simp only [hid]
    exact hr.agrees_object hd hm hall h
  reads := by
    intro limit hlimit source depth s hs he
    have hcall : (Expr.fromJson (c.nameOf id) (.cast source .jsonMap)).eval (methods o c limit) s =
        .ok (.object d.name (d.fields.map fun f => (f.name, u f))) := by
      have hname : c.nameOf id = d.name := by rw [Catalog.nameOf, hid]; rfl
      have hcast : (Expr.cast source .jsonMap).eval (methods o c limit) s =
          .ok (.ofJson (.object members)) := eval_cast he (hr.means hs (by decide)) rfl
      rw [hname, eval_fromJson hcast (hs.not_mem (hr.typeName d hd)),
        hr.fromJson_object hd h hlimit]
    rw [hslot, read]
    -- The guard lets an object through, so both forms come to the call.
    split
    · rw [Expr.eval, he]
      exact hcall
    · exact hcall
  writes := by
    intro limit hlimit source depth s he
    rw [hslot, write?, Option.getD_some, eval_toJson he, reach_of_ne_null Value.noConfusion,
      hr.toJson_object hd h hlimit]

/-- If the values of an object come back from the fields with their keys, then
    all fields have values that come back. -/
theorem Runnable.exists_fields (hr : Runnable o c) {d : ClassDef}
    {members : List (String × Json)}
    (h : ∀ m ∈ members, ∀ f ∈ d.fields, f.key = m.1 → ∃ u w, RoundTrips o c m.2 f.slot u w)
    (habsent : ∀ f ∈ d.fields, (∀ m ∈ members, m.1 ≠ f.key) → f.slot.nullable = true) :
    ∃ u w : Field → Value, ∀ f ∈ d.fields,
      RoundTrips o c (Json.lookup members f.key) f.slot (u f) (w f) := by
  have hfields : ∀ f ∈ d.fields, ∃ u w,
      RoundTrips o c (Json.lookup members f.key) f.slot u w := by
    intro f hf
    rw [Json.lookup]
    cases hfind : Json.find? members f.key with
    | none =>
        refine ⟨_, _, hr.roundTrips_null (habsent f hf fun m hm hkey => ?_)⟩
        exact Json.find?_eq_none_iff.mp hfind (List.mem_map.mpr ⟨m, hm, hkey⟩)
    | some v => exact h _ (Json.mem_of_find? hfind) f hf rfl
  choose! u w h using hfields
  exact ⟨u, w, h⟩

/-- Every value that is accepted comes back. -/
theorem Runnable.exists_roundTrips (hr : Runnable o c) {v : Json} {slot : Slot}
    (h : Accepts c.table v slot) (hv : v.Distinct)
    (hlisted : ∀ i ∈ slot.shape.ids, ∃ d ∈ c.classes, c.table.find? i = some d) :
    ∃ u w, RoundTrips o c v slot u w := by
  -- The induction is on the value, not on the classes, which may refer to themselves.
  induction h with
  | null hs => exact ⟨_, _, hr.roundTrips_null hs⟩
  | untyped hs _ => exact ⟨_, _, hr.roundTrips_untyped _ hs⟩
  | bool hs => exact ⟨_, _, hr.roundTrips_cast hs (Or.inl rfl) rfl⟩
  | @int n _ hs hn =>
      refine ⟨_, _, hr.roundTrips_cast hs (Or.inr (Or.inl rfl)) ?_⟩
      cases n with
      | integer k =>
          rw [Value.ofJson, Value.ofNumber, if_pos hn]
          rfl
      | double x => exact Bool.noConfusion hn
  | double hs => exact ⟨_, _, hr.roundTrips_double _ hs⟩
  | string hs => exact ⟨_, _, hr.roundTrips_cast hs (Or.inr (Or.inr rfl)) rfl⟩
  | @list items _ item nullable hs _ ih =>
      rw [hs] at hlisted
      have hall : ∀ v ∈ items, ∃ u w, RoundTrips o c v ⟨item, nullable⟩ u w := fun v hmem =>
        ih v hmem (Json.distinctItems_iff.mp hv v hmem) hlisted
      choose! u w h using hall
      exact ⟨_, _, hr.roundTrips_list hs h⟩
  | ref hs hid hkeys _ habsent ih =>
      rw [hs] at hlisted
      rcases hlisted _ (List.mem_singleton.mpr rfl) with ⟨d', hd, hid'⟩
      cases Option.some.inj (hid.symm.trans hid')
      rcases hr.exists_fields (fun m hm f hf hkey => ih m hm f hf hkey
        (Json.distinctMembers_iff.mp hv.2 m hm) (hr.ref_listed _ hd f hf)) habsent with ⟨u, w, h⟩
      exact ⟨_, _, hr.roundTrips_ref hd hs hid hv.1 hkeys h⟩

/-- The same for an object of a class. -/
theorem Runnable.toJson_fromJson (hr : Runnable o c) {d : ClassDef} (hd : d ∈ c.classes)
    {members : List (String × Json)} (hv : (Json.object members).Distinct)
    (h : Accepts c.table (.object members) (.required (.ref d.id))) : ∃ fields json,
      json.Agrees (.ofJson ((Json.object members).completed c.table (.required (.ref d.id)))) ∧
        ∀ limit, (Json.object members).nesting ≤ limit →
          (methods o c limit).fromJson d.name (.ofJson (.object members)) =
            .ok (.object d.name fields) ∧
          (methods o c limit).toJson (.object d.name fields) = .ok json := by
  cases h with
  | untyped hs _ => rcases hs with hs | hs <;> cases hs
  | ref hs hid hkeys hmembers habsent =>
      cases hs
      cases Option.some.inj (hid.symm.trans (hr.found d hd))
      rcases hr.exists_fields (fun m hm f hf hkey => hr.exists_roundTrips (hmembers m hm f hf hkey)
        (Json.distinctMembers_iff.mp hv.2 m hm) (hr.ref_listed d hd f hf)) habsent with ⟨u, w, h⟩
      refine ⟨_, _, ?_, fun limit hlimit =>
        ⟨hr.fromJson_object hd h hlimit, hr.toJson_object hd h hlimit⟩⟩
      exact (hr.roundTrips_ref hd rfl hid hv.1 hkeys h).agrees

end Slots

end Dart

namespace Catalog

variable {o : Options} {name : String} {v : Json} {catalog : Catalog}

/-- Of any document comes a program that runs, if the name of its root is one
    for a class. -/
theorem runnable (hsafe : o.nullSafety = true) (hplaceholder : o.nullTypeName = "dynamic")
    (hname : Identifier.IsTypeName name) (hcore : name ∉ Identifier.coreTypes) (hv : v.Distinct)
    (h : ofDocument o name v = .ok catalog) : Dart.Runnable o catalog := by
  rcases Inference.named_ofDocument h with ⟨hnamed, _, _⟩
  have hlabelled := labelled hv h
  rcases exists_lowerable h with ⟨t, root, rfl, hlower⟩
  have hat : ∀ {d}, d ∈ (ofTable t root).classes → (ofTable t root).table.at? d.id = some d :=
    fun hd => by
      rcases hlower.mem_classes_iff.mp hd with ⟨i, hi⟩
      rwa [hlower.wellFormed.id_eq i _ hi]
  -- The name of the root is the user's, and all others were made from keys.
  have hform : ∀ d ∈ (ofTable t root).classes, Identifier.IsTypeName d.name ∧
      d.name ∉ Identifier.coreTypes := fun d hd => hnamed.isTypeName hname hcore (hat hd)
  refine ⟨hsafe, hplaceholder, hlower.nodup_classes.map_on fun c hc d hd heq => ?_,
    fun d hd => (hform d hd).1, fun d hd => (hform d hd).2, fun d hd => hlabelled _ _ (hat hd),
    fun d hd => ?_, fun d hd f hf i hi => ?_⟩
  · have hid := hnamed.distinct _ _ c d (hat hc) (hat hd) heq
    exact Option.some.inj ((hat hc).symm.trans (hid ▸ hat hd))
  · rw [ClassTable.find?_eq_at?, ClassTable.resolve_of_at? (hat hd), hat hd]
  · rcases hlower.ref_listed hd hf hi with ⟨d', hd', _, hfind⟩
    exact ⟨d', hd', hfind⟩

/-- Under null safety and with `dynamic` for what has no type, the classes of a
    document write what they have read. Take any object that one of them accepts,
    and let calls be nested at least as deep as the object is. Then `fromJson`
    comes to no fault, and `toJson` of the object that it makes is the document
    again up to the order of keys, with nulls for the keys it lacks and doubles in
    the places of doubles. -/
theorem toJson_fromJson_of_ofDocument (hsafe : o.nullSafety = true)
    (hplaceholder : o.nullTypeName = "dynamic") (hname : Identifier.IsTypeName name)
    (hcore : name ∉ Identifier.coreTypes) (hv : v.Distinct)
    (h : ofDocument o name v = .ok catalog) {d : ClassDef} (hd : d ∈ catalog.classes)
    {members : List (String × Json)} (hobject : (Json.object members).Distinct)
    (haccepts : Dart.Accepts catalog.table (.object members) (.required (.ref d.id))) :
    ∃ fields json,
      Dart.Value.Agrees json
        (.ofJson ((Json.object members).completed catalog.table (.required (.ref d.id)))) ∧
      ∀ limit, (Json.object members).nesting ≤ limit →
        (Dart.methods o catalog limit).fromJson d.name (.ofJson (.object members)) =
          .ok (.object d.name fields) ∧
        (Dart.methods o catalog limit).toJson (.object d.name fields) = .ok json :=
  (runnable hsafe hplaceholder hname hcore hv h).toJson_fromJson hd hobject haccepts

/-- An object for the root of `Inference.elementsDocument`: its keys in another
    order, and objects in it without theirs. -/
def sparseMembers : List (String × Json) :=
  [("b", .object []), ("as", .array [.object [("x", .null)], .object []])]

/-- An object with nothing but nulls and missing keys comes back from the class of the
    root. -/
theorem toJson_fromJson_sparseMembers : ∃ catalog, ∃ d ∈ catalog.classes,
    ofDocument {} "Root" Inference.elementsDocument = .ok catalog ∧ d.name = "Root" ∧
      Dart.Accepts catalog.table (.object sparseMembers) (.required (.ref d.id)) ∧
      ∃ fields json,
        Dart.Value.Agrees json (.ofJson
          ((Json.object sparseMembers).completed catalog.table (.required (.ref d.id)))) ∧
        ∀ limit, (Json.object sparseMembers).nesting ≤ limit →
          (Dart.methods {} catalog limit).fromJson "Root" (.ofJson (.object sparseMembers)) =
            .ok (.object "Root" fields) ∧
          (Dart.methods {} catalog limit).toJson (.object "Root" fields) = .ok json := by
  -- That there are classes, and that the object conforms to one, is computed.
  have hok : ((ofDocument {} "Root" Inference.elementsDocument).toOption.map fun catalog =>
      catalog.classes.any fun d => d.name == "Root" &&
        decide (Conforms catalog.table (.object sparseMembers) (.required (.ref d.id)))) =
      some true := by decide +kernel
  rcases hc : ofDocument {} "Root" Inference.elementsDocument with e | catalog
  · rw [hc] at hok
    cases hok
  · rw [hc] at hok
    rcases List.any_eq_true.mp (Option.some.inj hok) with ⟨d, hd, hboth⟩
    rw [Bool.and_eq_true, beq_iff_eq, decide_eq_true_eq] at hboth
    rcases hboth with ⟨hname, hfits⟩
    have hdistinct : Inference.elementsDocument.Distinct := by
      simp [Inference.elementsDocument, Json.Distinct, Json.DistinctItems, Json.DistinctMembers]
    have hobject : (Json.object sparseMembers).Distinct := by
      simp [sparseMembers, Json.Distinct, Json.DistinctItems, Json.DistinctMembers]
    have haccepts := Dart.accepts_of_conforms
      (fun i c hi => (labelled hdistinct hc i c hi).keys) hfits
    have hroot : Identifier.IsTypeName "Root" :=
      ⟨'R', ['o', 'o', 't'], rfl, rfl, List.all_eq_true.mp rfl⟩
    rcases toJson_fromJson_of_ofDocument rfl (by decide +kernel) hroot (by decide) hdistinct hc hd
      hobject haccepts with ⟨fields, json, hagrees, h⟩
    rw [hname] at h
    exact ⟨catalog, d, hd, rfl, hname, haccepts, fields, json, hagrees, h⟩

end Catalog

end DartModels
