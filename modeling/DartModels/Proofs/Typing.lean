import DartModels.Proofs.Lowered

/-!
# Typing

The expressions of a generated class have the types that are declared.

The type of a slot, the expression that reads it and the one that writes it are
three recursions over its shape, and each of them decides for itself at every
level of a list where there may be null. The compiler of the generated program
compares their answers: what is read is passed to a constructor that asks for the
type of the slot, elements are collected into a list whose type is that of the
expression for an element, and a member of a value that may be null is only
accepted behind `?.`.

`HasType` is what the compiler knows, for the forms of expressions that occur and
under null safety. It does not follow the three recursions. A member has a fixed
type and a fixed receiver, and `?.` puts a question mark on both
(`Access.over`), whatever the slot is that the member is used for. The
conditional with a null in one branch has the type of the other branch with a
question mark, if it needs one. No other rule speaks of null.

Types and variables are kept apart: that no variable hides a type is a matter of
names and not of null. The placeholder type is not looked into. It may be any
word, and what it means is only that a cast to it has that type. Whether it holds
null is judged by its spelling, and the one place where this could go wrong is a
class whose name is `Null`. So the names of the classes are needed, and therefore
where they come from.

## Main definitions

* `HasType`: The static type of an expression under null safety.
* `NamesClass`: What is needed of the name of a class.
* `Ty.WellMarked`: A type without superfluous question marks.
* `Guarded`: An expression that guards every member by the slot of its receiver.

## Theorems

* `HasType.unique`: An expression has one type.
* `hasType_read`: A read has the type of its slot.
* `hasType_write`: A write is typed if its source has the type of the slot.
* `guarded_write`: A write guards what may be null.
* `wellMarked_typeOf`, `wellMarked_optional`, `wellMarked_read`: Question marks are
  put where they mean something.
* `Catalog.typed_of_ofDocument`: All this for the classes of a document.
-/

namespace DartModels

namespace Dart

/-! ### Types of expressions -/

/-- The type of what may also be null. -/
def Ty.orNull (t : Ty) : Ty :=
  if t.holdsNull then t else .nullable t

/-- The type of a receiver, or of the value of a chain of members, for members
    that are reached with this access. -/
def Access.over : Access → Ty → Ty
  | .plain, t => t
  | _, t => .nullable t

/-- The type without the mark can be told from the one with it. -/
theorem Access.over_inj {access : Access} {s t : Ty} (h : access.over s = access.over t) :
    s = t := by
  cases access with
  | plain => exact h
  | nullAware => exact Ty.nullable.inj h
  | nullAwareThroughout => exact Ty.nullable.inj h

/-- The types of the variables in scope. -/
def Context : Type := String → Option Ty

/-- One variable more, which hides an older one of its name. -/
def Context.bind (Γ : Context) (x : String) (t : Ty) : Context :=
  fun y => if y = x then some t else Γ y

/-- The new variable has the type it was given. -/
theorem Context.bind_self (Γ : Context) (x : String) (t : Ty) : Γ.bind x t x = some t :=
  if_pos rfl

/-- The static type of an expression of a program with these classes. Lists are
    mapped by a function of their elements, and the type of its body is that of
    the elements of the new list. -/
inductive HasType (classes : List String) : Context → Expr → Ty → Prop where
  | var {Γ : Context} {x : String} {t : Ty} (h : Γ x = some t) : HasType classes Γ (.var x) t
  | entry {Γ : Context} {key : String} : HasType classes Γ (.entry key) .dynamic
  | cast {Γ : Context} {e : Expr} {s t : Ty} (h : HasType classes Γ e s) :
      HasType classes Γ (.cast e t) t
  | toDouble {Γ : Context} {e : Expr} {access : Access}
      (h : HasType classes Γ e (access.over (.named "num"))) :
      HasType classes Γ (.toDouble e access) (access.over (.named "double"))
  | toJson {Γ : Context} {e : Expr} {access : Access} {name : String} (hname : name ∈ classes)
      (h : HasType classes Γ e (access.over (.named name))) :
      HasType classes Γ (.toJson e access) (access.over .jsonMap)
  | fromJson {Γ : Context} {e : Expr} {name : String} (hname : name ∈ classes)
      (h : HasType classes Γ e .jsonMap) : HasType classes Γ (.fromJson name e) (.named name)
  | unlessNull {Γ : Context} {subject body : Expr} {s t : Ty} (hs : HasType classes Γ subject s)
      (h : HasType classes Γ body t) : HasType classes Γ (.unlessNull subject body) t.orNull
  | mapList {Γ : Context} {e body : Expr} {access : Access} {x : String} {s t : Ty}
      (h : HasType classes Γ e (access.over (.list s)))
      (hbody : HasType classes (Γ.bind x s) body t) :
      HasType classes Γ (.mapList e access x body) (access.over (.list t))

section Typing

variable {o : Options} {c : Catalog} {classes : List String} {Γ : Context} {source e : Expr}
  {base t : Ty} {depth : Nat} {nullable : Bool} {shape : Shape}

/-- An expression has at most one type. By induction on the typing, since what the type
    is follows from the form of the expression. -/
theorem HasType.unique (h : HasType classes Γ e t) : ∀ {u}, HasType classes Γ e u → t = u := by
  induction h with
  | var h =>
      intro u hu
      cases hu with
      | var h' => exact Option.some.inj (h.symm.trans h')
  -- The type stands in the expression, or is the same for all of this form.
  | entry | cast _ _ | toDouble _ _ | toJson _ _ _ | fromJson _ _ _ =>
      intro u hu
      cases hu
      rfl
  | unlessNull _ _ _ ih =>
      intro u hu
      cases hu with
      | unlessNull _ h' => rw [ih h']
  | mapList _ _ ihe ihbody =>
      intro u hu
      cases hu with
      | mapList h' hbody' =>
          -- The list fixes the type of the variable, and that the type of the body.
          cases Ty.list.inj (Access.over_inj (ihe h'))
          rw [ihbody hbody']

/-! ### Question marks -/

/-- A list type ends in a bracket, and is none of the words for a type with null. -/
theorem holdsNull_list (item : Ty) : (Ty.list item).holdsNull = false := by
  have hlast : ("List<" ++ item.render ++ ">").toList.getLast? = some '>' := by
    rw [String.toList_append, List.getLast?_append]
    rfl
  have hne : ∀ {text : String}, text.toList.getLast? ≠ some '>' →
      ("List<" ++ item.render ++ ">" == text) = false := fun h =>
    beq_eq_false_iff_ne.mpr fun heq => h (heq ▸ hlast)
  rw [Ty.holdsNull, Ty.render, hne (by decide), hne (by decide), hlast]
  rfl

/-- The name of a class is no word for a type that holds null. -/
theorem holdsNull_named {name : String} (hname : Identifier.IsTypeName name)
    (hcore : name ∉ Identifier.coreTypes) : (Ty.named name).holdsNull = false := by
  rcases hname with ⟨a, rest, hlist, hupper, hrest⟩
  have hlast : name.toList.getLast? ≠ some '?' := by
    intro h
    have hmem : '?' ∈ a :: rest := hlist ▸ List.mem_of_getLast? h
    rcases List.mem_cons.mp hmem with rfl | hmem
    · exact absurd hupper (by decide)
    · exact absurd (hrest _ hmem) (by decide)
  have hdynamic : name ≠ "dynamic" := fun h => hcore (h ▸ by decide)
  have hnull : name ≠ "Null" := fun h => hcore (h ▸ by decide)
  rw [Ty.holdsNull, Ty.render, beq_eq_false_iff_ne.mpr hdynamic, beq_eq_false_iff_ne.mpr hnull,
    beq_eq_false_iff_ne.mpr hlast]
  rfl

/-- A mark that is put without looking is put where `optional` puts it, on types
    that do not hold null. -/
theorem marked_eq_optional (h : base.holdsNull = false) :
    marked o base nullable = optional o base nullable := by
  rw [marked, optional, h, Bool.not_false, Bool.and_true]

/-- The access that is chosen for a value puts a mark exactly where its type has one. -/
theorem over_guardAccess (hsafe : o.nullSafety = true) (t : Ty) :
    (guardAccess o nullable).over t = marked o t nullable := by
  cases nullable <;> simp [guardAccess, canBeNull, marked, hsafe, Access.over]

/-- The same for the first of several members. -/
theorem over_chainAccess (hsafe : o.nullSafety = true) (t : Ty) :
    (chainAccess o nullable).over t = marked o t nullable := by
  cases nullable <;> simp [chainAccess, canBeNull, marked, hsafe, Access.over]

/-! ### Reading and writing -/

/-- The name that is printed for a number is that of a class of the program, and
    no word for a type that holds null. -/
def NamesClass (classes : List String) (c : Catalog) (i : ClassId) : Prop :=
  c.nameOf i ∈ classes ∧ (Ty.named (c.nameOf i)).holdsNull = false

/-- What has no type of its own is read as the placeholder: by a cast, unless it
    is `dynamic` and stays what it is. -/
theorem hasType_placeholder (hsource : HasType classes Γ source .dynamic) :
    HasType classes Γ (read.placeholder o source nullable)
      (optional o (.named o.nullTypeName) nullable) := by
  rw [read.placeholder]
  split
  · rename_i hname
    have hholds : (Ty.named "dynamic").holdsNull = true := by decide
    rw [beq_iff_eq.mp hname, optional, hholds, Bool.not_true, Bool.and_false]
    exact hsource
  · exact .cast hsource

/-- A read of a decoded value has the type of its slot. -/
theorem hasType_read (hsafe : o.nullSafety = true)
    (hids : ∀ i ∈ shape.ids, NamesClass classes c i) (hsource : HasType classes Γ source .dynamic) :
    HasType classes Γ (read o c source depth nullable shape)
      (optional o (typeOf o c shape) nullable) := by
  -- The elements of a list are of type dynamic again, each in a variable of its own.
  induction shape generalizing source depth nullable Γ with
  | primitive p =>
      have hcast : ∀ {name}, (Ty.named name).holdsNull = false →
          HasType classes Γ (.cast source (marked o (.named name) nullable))
            (optional o (.named name) nullable) := fun h => marked_eq_optional h ▸ .cast hsource
      cases p with
      | bool => exact hcast (by decide)
      | int => exact hcast (by decide)
      | string => exact hcast (by decide)
      | double =>
          have hnum : HasType classes Γ (.cast source (marked o (.named "num") nullable))
              ((guardAccess o nullable).over (.named "num")) := by
            rw [over_guardAccess hsafe]
            exact .cast hsource
          have hdouble : (Ty.named "double").holdsNull = false := by decide
          rw [typeOf, ← marked_eq_optional hdouble, ← over_guardAccess hsafe (.named "double")]
          exact .toDouble hnum
      | null => exact hasType_placeholder hsource
      | dynamic => exact hasType_placeholder hsource
  | ref id =>
      rcases hids id (List.mem_singleton.mpr rfl) with ⟨hmem, hholds⟩
      have hcall : HasType classes Γ (.fromJson (c.nameOf id) (.cast source .jsonMap))
          (.named (c.nameOf id)) := .fromJson hmem (.cast hsource)
      rw [read, typeOf]
      cases nullable with
      | true =>
          -- An object is null unless there is one, so its type is that of the class or
          -- null.
          have horNull :
              optional o (.named (c.nameOf id)) true = (Ty.named (c.nameOf id)).orNull := by
            rw [optional, Ty.orNull, hsafe, hholds]
            rfl
          rw [horNull]
          exact .unlessNull hsource hcall
      | false =>
          simp only [canBeNull, hsafe, optional, Bool.not_true, Bool.or_self, Bool.and_false,
            Bool.false_and, Bool.false_eq_true, if_false]
          exact hcall
  | list item itemNullable ih =>
      have hlist : HasType classes Γ (.cast source (marked o (.list .dynamic) nullable))
          ((chainAccess o nullable).over (.list .dynamic)) := by
        rw [over_chainAccess hsafe]
        exact .cast hsource
      rw [read, typeOf, ← marked_eq_optional (holdsNull_list _),
        ← over_chainAccess hsafe (.list (optional o (typeOf o c item) itemNullable))]
      exact .mapList hlist (ih hids (.var (Context.bind_self Γ _ _)))

/-- A write is typed wherever its source has the type of the slot. -/
theorem hasType_write (hsafe : o.nullSafety = true)
    (hids : ∀ i ∈ shape.ids, NamesClass classes c i)
    (hsource : HasType classes Γ source (optional o (typeOf o c shape) nullable))
    (h : write? o source depth nullable shape = some e) : ∃ t, HasType classes Γ e t := by
  induction shape generalizing source depth nullable Γ e with
  | primitive p =>
      rw [write?] at h
      cases h
  | ref id =>
      rcases hids id (List.mem_singleton.mpr rfl) with ⟨hmem, hholds⟩
      rw [typeOf, ← marked_eq_optional hholds, ← over_guardAccess hsafe] at hsource
      cases Option.some.inj h
      exact ⟨_, .toJson hmem hsource⟩
  | list item itemNullable ih =>
      rw [typeOf, ← marked_eq_optional (holdsNull_list _), ← over_chainAccess hsafe] at hsource
      rcases Option.map_eq_some_iff.mp h with ⟨body, hbody, rfl⟩
      rcases ih hids (.var (Context.bind_self Γ _ _)) hbody with ⟨t, ht⟩
      exact ⟨_, .mapList hsource ht⟩

/-- The value of a slot, written as an expression: a member of the value is
    reached without a guard only if the slot is not nullable, and so for the
    elements of a list. -/
inductive Guarded : Expr → Slot → Expr → Prop where
  | toJson {source : Expr} {s : Slot} {id : ClassId} {access : Access} (hs : s.shape = .ref id)
      (haccess : access = .plain → s.nullable = false) : Guarded source s (.toJson source access)
  | mapList {source body : Expr} {s : Slot} {item : Shape} {itemNullable : Bool} {access : Access}
      {x : String} (hs : s.shape = .list item itemNullable)
      (haccess : access = .plain → s.nullable = false)
      (hbody : Guarded (.var x) ⟨item, itemNullable⟩ body) :
      Guarded source s (.mapList source access x body)

/-- A write is guarded, by induction on the shape. The access is plain only where the
    slot is not nullable. -/
theorem guarded_write (h : write? o source depth nullable shape = some e) :
    Guarded source ⟨shape, nullable⟩ e := by
  induction shape generalizing source depth nullable e with
  | primitive p =>
      rw [write?] at h
      cases h
  | ref id =>
      cases Option.some.inj h
      exact .toJson rfl fun hplain =>
        Bool.eq_false_iff.mpr fun hn => guardAccess_ne_plain hn hplain
  | list item itemNullable ih =>
      rcases Option.map_eq_some_iff.mp h with ⟨body, hbody, rfl⟩
      refine .mapList rfl (fun hplain => ?_) (ih hbody)
      exact Bool.eq_false_iff.mpr fun hn => chainAccess_ne_plain hn hplain

/-! ### Superfluous marks -/

/-- A type in which a question mark is only put behind what does not hold null by
    itself. -/
def Ty.WellMarked : Ty → Prop
  | .named _ => True
  | .list item => item.WellMarked
  | .nullable base => base.render ≠ "dynamic" ∧ base.render ≠ "Null" ∧
      base.render.toList.getLast? ≠ some '?' ∧ base.WellMarked

/-- The types that are spelled out in an expression. -/
def Expr.types : Expr → List Ty
  | .var _ => []
  | .entry _ => []
  | .cast e t => t :: e.types
  | .toDouble e _ => e.types
  | .toJson e _ => e.types
  | .fromJson _ e => e.types
  | .unlessNull subject body => subject.types ++ body.types
  | .mapList e _ _ body => e.types ++ body.types

/-- A name has no question mark. -/
theorem wellMarked_named (name : String) : (Ty.named name).WellMarked := trivial

/-- A mark behind a type that does not hold null is not superfluous. -/
theorem wellMarked_nullable (h : base.holdsNull = false) (hbase : base.WellMarked) :
    (Ty.nullable base).WellMarked := by
  simp only [Ty.holdsNull, Bool.or_eq_false_iff, beq_eq_false_iff_ne, ne_eq] at h
  exact ⟨h.1.1, h.1.2, h.2, hbase⟩

/-- That is where `optional` puts it. -/
theorem wellMarked_optional (o : Options) (nullable : Bool) (h : base.WellMarked) :
    (optional o base nullable).WellMarked := by
  rw [optional]
  split
  · rename_i hcond
    simp only [Bool.and_eq_true, Bool.not_eq_true'] at hcond
    exact wellMarked_nullable hcond.2 h
  · exact h

/-- On such types, so does `marked`. -/
theorem wellMarked_marked (o : Options) (nullable : Bool) (hholds : base.holdsNull = false)
    (h : base.WellMarked) : (marked o base nullable).WellMarked := by
  rw [marked_eq_optional hholds]
  exact wellMarked_optional o nullable h

/-- The type of a shape is well marked, down to the elements of its lists. -/
theorem wellMarked_typeOf (o : Options) (c : Catalog) (shape : Shape) :
    (typeOf o c shape).WellMarked := by
  induction shape with
  | primitive p => cases p <;> exact wellMarked_named _
  | ref id => exact wellMarked_named _
  | list item itemNullable ih => exact wellMarked_optional o itemNullable ih

/-- A cast spells out one type more. -/
theorem wellMarked_cast {type : Ty} (htype : type.WellMarked)
    (h : t ∈ (Expr.cast source type).types) : t ∈ source.types ∨ t.WellMarked :=
  (List.mem_cons.mp h).elim (fun ht => Or.inr (ht ▸ htype)) Or.inl

/-- All types that are spelled out in a read are well marked, but for those of
    its source. -/
theorem wellMarked_read (h : t ∈ (read o c source depth nullable shape).types) :
    t ∈ source.types ∨ t.WellMarked := by
  induction shape generalizing source depth nullable with
  | primitive p =>
      cases p with
      | bool | int | double | string =>
          exact wellMarked_cast (wellMarked_marked o nullable (by decide) (wellMarked_named _)) h
      | null | dynamic =>
          rw [read, read.placeholder] at h
          split at h
          · exact Or.inl h
          · exact wellMarked_cast (wellMarked_optional o nullable (wellMarked_named _)) h
  | ref id =>
      rw [read] at h
      split at h
      · exact (List.mem_append.mp h).elim Or.inl (wellMarked_cast (wellMarked_named _))
      · exact wellMarked_cast (wellMarked_named _) h
  | list item itemNullable ih =>
      have hlist : (Ty.list .dynamic).WellMarked := wellMarked_named "dynamic"
      rcases List.mem_append.mp h with h | h
      · exact wellMarked_cast (wellMarked_marked o nullable (holdsNull_list _) hlist) h
      -- The elements come from a variable, which spells out no type.
      · exact (ih h).imp_left fun hmem => absurd hmem List.not_mem_nil

end Typing

end Dart

namespace Catalog

variable {o : Options} {name : String} {v : Json} {catalog : Catalog}

/-- The name that is printed for a class of a document is the name of a class
    that is written, and no word for a type that holds null. -/
theorem namesClass_of_ofDocument (hname : Identifier.IsTypeName name)
    (hcore : name ∉ Identifier.coreTypes) (h : ofDocument o name v = .ok catalog) {i : ClassId}
    (hi : i < catalog.table.entries.size) :
    Dart.NamesClass (catalog.classes.map ClassDef.name) catalog i := by
  rcases Inference.named_ofDocument h with ⟨hnamed, _, _⟩
  rcases exists_lowerable h with ⟨t, root, rfl, hlower⟩
  rcases hlower.wellFormed.linked.find? hi with ⟨d, hd⟩
  have hnameOf : (ofTable t root).nameOf i = d.name := by
    rw [nameOf, table_ofTable, hd]
    rfl
  rw [ClassTable.find?_eq_at?] at hd
  rcases hnamed.isTypeName hname hcore hd with ⟨htype, hnot⟩
  rw [Dart.NamesClass, hnameOf]
  exact ⟨List.mem_map_of_mem (hlower.mem_classes_iff.mpr ⟨_, hd⟩), Dart.holdsNull_named htype hnot⟩

/-- The generated expressions for the classes of a document have the declared
    types under null safety, whatever the placeholder type is. Take any slot of
    classes that were numbered. A decoded value is read from it as a value of
    exactly the type of the slot. Neither this type, nor the one of the parameter
    of a copy, nor a type in the read has a question mark behind a type that holds
    null. And a write of a value reaches a member without a guard only if the slot
    of the receiver is not nullable, so that it is typed. -/
theorem typed_of_ofDocument (hsafe : o.nullSafety = true) (hname : Identifier.IsTypeName name)
    (hcore : name ∉ Identifier.coreTypes) (h : ofDocument o name v = .ok catalog) (s : Slot)
    (hids : ∀ i ∈ s.shape.ids, i < catalog.table.entries.size) :
    (∀ Γ source depth, Dart.HasType (catalog.classes.map ClassDef.name) Γ source .dynamic →
      ∀ t, Dart.HasType (catalog.classes.map ClassDef.name) Γ
        (Dart.read o catalog source depth s.nullable s.shape) t ↔ t = Dart.slotType o catalog s) ∧
    (Dart.slotType o catalog s).WellMarked ∧
    (Dart.optional o (Dart.typeOf o catalog s.shape) true).WellMarked ∧
    (∀ source depth, ∀ t ∈ (Dart.read o catalog source depth s.nullable s.shape).types,
      t ∈ source.types ∨ t.WellMarked) ∧
    ∀ source depth e, Dart.write? o source depth s.nullable s.shape = some e →
      Dart.Guarded source s e ∧
      ∀ Γ, Dart.HasType (catalog.classes.map ClassDef.name) Γ source (Dart.slotType o catalog s) →
        ∃ t, Dart.HasType (catalog.classes.map ClassDef.name) Γ e t := by
  have hnames : ∀ i ∈ s.shape.ids,
      Dart.NamesClass (catalog.classes.map ClassDef.name) catalog i :=
    fun i hi => namesClass_of_ofDocument hname hcore h (hids i hi)
  have hmarked := Dart.wellMarked_typeOf o catalog s.shape
  refine ⟨fun Γ source depth hsource t => ?_, Dart.wellMarked_optional o s.nullable hmarked,
    Dart.wellMarked_optional o true hmarked, fun source depth t => Dart.wellMarked_read,
    fun source depth e he => ⟨Dart.guarded_write he, fun Γ hsource => ?_⟩⟩
  · -- The read has this type, and an expression has no other.
    have hread : Dart.HasType (catalog.classes.map ClassDef.name) Γ
        (Dart.read o catalog source depth s.nullable s.shape) (Dart.slotType o catalog s) :=
      Dart.hasType_read hsafe hnames hsource
    exact ⟨fun ht => ht.unique hread, fun ht => ht ▸ hread⟩
  · exact Dart.hasType_write hsafe hnames hsource he

/-- Options with a placeholder that has a question mark of its own. -/
def objectOptions : Options :=
  { nullType := "Object?" }

/-- Lists of objects and nulls, in a list that may be null. -/
def nestedSlot : Slot :=
  ⟨.list (.list (.ref 0) true) false, true⟩

/-- In a document with classes, the read has the declared type and the write is guarded
    on both levels. -/
theorem typed_of_ofDocument_nested : ∃ catalog,
    ofDocument objectOptions "Root" Inference.elementsDocument = .ok catalog ∧
    (∀ t, Dart.HasType (catalog.classes.map ClassDef.name) (fun _ => none)
      (Dart.read objectOptions catalog (.entry "as") 0 true nestedSlot.shape) t ↔
        t = Dart.slotType objectOptions catalog nestedSlot) ∧
    (Dart.slotType objectOptions catalog nestedSlot).WellMarked ∧
    ∃ e, Dart.write? objectOptions (.var "as") 0 true nestedSlot.shape = some e ∧
      Dart.Guarded (.var "as") nestedSlot e := by
  have hok : ((ofDocument objectOptions "Root" Inference.elementsDocument).toOption.map
      fun catalog => decide (0 < catalog.table.entries.size)) = some true := by decide +kernel
  rcases hc : ofDocument objectOptions "Root" Inference.elementsDocument with e | catalog
  · rw [hc] at hok
    cases hok
  · rw [hc] at hok
    have hsize := of_decide_eq_true (Option.some.inj hok)
    have hids : ∀ i ∈ nestedSlot.shape.ids, i < catalog.table.entries.size :=
      fun i hi => List.mem_singleton.mp hi ▸ hsize
    rcases typed_of_ofDocument rfl Identifier.isTypeName_root (by decide) hc nestedSlot hids with
      ⟨hread, hmarked, _, _, hwrite⟩
    exact ⟨catalog, rfl, hread _ _ _ .entry, hmarked, _, rfl, (hwrite (.var "as") 0 _ rfl).1⟩

end Catalog

end DartModels
