import DartModels.Dart.Field
import DartModels.Proofs.Distinct

/-!
# Evaluation

What the expressions of a generated program do when it runs.

A decoded document is a value of the program, and so is an object of one of its
classes. An expression makes a value of the variables in its scope, or it comes
to a fault: a cast to a type that the value is not of, a member that the value
does not have, or a name that does not stand for what it is used as.

Names are the subtle part. A type is a name too, and it is looked up like any
other. Where a variable or a field of the class around has the name of a type,
the type is out of reach, and a class of the program with the name of a type of
the core library takes its place. So a scope keeps all names in reach, also those
of fields that have no value yet, and a cast asks whether the names in its type
still mean what they mean in the core library.

Reading an object calls the factory of its class, which evaluates expressions
that call other factories. The classes of a program can refer to themselves, so
this is no recursion over classes. The calls are followed down to a limit, and
one that is nested deeper is a fault of its own.

## Main definitions

* `Value`, `Value.ofJson`: The values of a program, and the document as one.
* `Ty.admits`, `Scope.Means`: Whether a value is of a type, and whether the type
  is in reach.
* `Expr.eval`: What an expression evaluates to.
* `construct`, `serialize`: What `fromJson` and `toJson` of a class do.
* `methods`: Both for all classes of a program, with calls nested up to a limit.

## Theorems

* `eval_cast`: A cast to a type in reach leaves a value of this type.
* `reach_of_ne_null`, `reach_null`: A member of a receiver that may be null.
* `mapList_eq_ok`: A list is made if each of its elements is.
* `construct_eq_ok`, `serialize_eq_ok`: Objects are read and written if each of
  their fields is.
-/

namespace DartModels

namespace Dart

/-- A value of a running program. -/
inductive Value where
  | null
  | bool (value : Bool)
  | int (value : Int)
  | double (value : Float)
  | string (value : String)
  | list (items : List Value)
  | map (entries : List (String × Value))
  /-- An object of a class of the program, with its fields by their names. -/
  | object (className : String) (fields : List (String × Value))
  deriving Inhabited

/-- Why an expression has no value. -/
inductive Fault where
  /-- The value is not of the type it is cast to. -/
  | cast (type : Ty)
  /-- The value does not have the member. -/
  | member (name : String)
  /-- The name does not stand for what it is used as. -/
  | name (name : String)
  /-- Calls are nested deeper than the limit. -/
  | depth

namespace Value

/-- A number as it is decoded. An integer beyond the signed 64-bit range becomes
    a double. -/
def ofNumber : Json.Number → Value
  | .integer n => if (Json.Number.integer n).isSigned64 then .int n else .double (Float.ofInt n)
  | .double x => .double x

mutual

/-- A decoded document. -/
def ofJson : Json → Value
  | .null => .null
  | .bool b => .bool b
  | .number n => ofNumber n
  | .string s => .string s
  | .array items => .list (ofItems items)
  | .object members => .map (ofMembers members)

/-- The elements of a decoded array. -/
def ofItems : List Json → List Value
  | [] => []
  | v :: rest => ofJson v :: ofItems rest

/-- The entries of a decoded object. -/
def ofMembers : List (String × Json) → List (String × Value)
  | [] => []
  | (key, v) :: rest => (key, ofJson v) :: ofMembers rest

end

/-- For a list that is not taken apart, decoding is a map. -/
theorem ofItems_eq_map (items : List Json) : ofItems items = items.map ofJson := by
  induction items with
  | nil => rfl
  | cons v rest ih => rw [ofItems, ih, List.map_cons]

/-- So it is for members. -/
theorem ofMembers_eq_map (members : List (String × Json)) :
    ofMembers members = members.map fun m => (m.1, ofJson m.2) := by
  induction members with
  | nil => rfl
  | cons m rest ih =>
      rcases m with ⟨key, v⟩
      rw [ofMembers, ih, List.map_cons]

/-- A decoded object has the keys of the object. -/
theorem keys_ofMembers (members : List (String × Json)) :
    (ofMembers members).map Prod.fst = members.map Prod.fst := by
  rw [ofMembers_eq_map, List.map_map]
  rfl

/-- Looking up a key and decoding can be done in either order. -/
theorem find?_ofMembers (members : List (String × Json)) (key : String) :
    Json.find? (ofMembers members) key = (Json.find? members key).map ofJson := by
  induction members with
  | nil => rfl
  | cons m rest ih =>
      rcases m with ⟨k, v⟩
      rw [ofMembers, Json.find?, Json.find?]
      split
      · rfl
      · exact ih

/-- The number as a double. -/
def toDouble : Value → Except Fault Value
  | .int n => .ok (.double (Float.ofInt n))
  | .double x => .ok (.double x)
  | _ => .error (.member "toDouble")

/-- The list of what a function makes of the elements. -/
def mapList (f : Value → Except Fault Value) : Value → Except Fault Value
  | .list items => do
      let results ← items.mapM f
      .ok (.list results)
  | _ => .error (.member "map")

end Value

namespace Ty

/-- The names of the core library that a type is spelled with. -/
def names : Ty → List String
  | .named name => if name = jsonMap.render then ["Map", "String", "dynamic"] else [name]
  | .list item => "List" :: item.names
  | .nullable base => base.names

/-- Whether a value is of a type of the core library. All lists are lists of
    anything, and no list is known to be more than that. -/
def admits : Ty → Value → Bool
  | .named name, v =>
      match v with
      | .null => name == "dynamic" || name == "Null"
      | .bool _ => name == "dynamic" || name == "bool"
      | .int _ => name == "dynamic" || name == "int" || name == "num"
      | .double _ => name == "dynamic" || name == "double" || name == "num"
      | .string _ => name == "dynamic" || name == "String"
      | .map _ => name == "dynamic" || name == jsonMap.render
      | .list _ | .object _ _ => name == "dynamic"
  | .list item, v =>
      match v with
      | .list _ => item == dynamic
      | _ => false
  | .nullable base, v =>
      match v with
      | .null => true
      | v => base.admits v

end Ty

/-- The names in reach of an expression. -/
structure Scope where
  /-- The variables with their values, the innermost first. -/
  vars : List (String × Value)
  /-- The fields of the class around the expression. -/
  fields : List String

/-- The scope inside a function with the parameter `x`. -/
def Scope.bind (s : Scope) (x : String) (v : Value) : Scope :=
  { s with vars := (x, v) :: s.vars }

/-- All names that a scope gives a meaning to. -/
def Scope.names (s : Scope) : List String :=
  s.vars.map Prod.fst ++ s.fields

/-- A parameter is one name more. -/
theorem Scope.mem_names_bind {s : Scope} {name x : String} {v : Value} :
    name ∈ (s.bind x v).names ↔ name = x ∨ name ∈ s.names :=
  List.mem_cons

/-- What the classes of a program are called, and what their methods do. -/
structure Methods where
  classNames : List String
  fromJson : String → Value → Except Fault Value
  toJson : Value → Except Fault Value

/-- Whether all names of a type mean what they mean in the core library. -/
def Scope.Means (s : Scope) (m : Methods) (type : Ty) : Prop :=
  ∀ name ∈ type.names, name ∉ s.names ∧ name ∉ m.classNames

instance (s : Scope) (m : Methods) (type : Ty) : Decidable (s.Means m type) :=
  inferInstanceAs (Decidable (∀ name ∈ type.names, name ∉ s.names ∧ name ∉ m.classNames))

/-- A member of a receiver. Null has no members, but a null-aware access to it
    is null. -/
def reach (access : Access) (v : Value) (member : Value → Except Fault Value) :
    Except Fault Value :=
  match access, v with
  | .nullAware, .null | .nullAwareThroughout, .null => .ok .null
  | _, v => member v

/-- What an expression evaluates to. -/
def Expr.eval (m : Methods) (s : Scope) : Expr → Except Fault Value
  | .var name =>
      match Json.find? s.vars name with
      | some v => .ok v
      | none => .error (.name name)
  | .entry key =>
      match Json.find? s.vars "json" with
      | some (.map entries) => .ok ((Json.find? entries key).getD .null)
      | some _ => .error (.member "[]")
      | none => .error (.name "json")
  | .cast e type => do
      let v ← e.eval m s
      -- What the type is called must not mean something else where the cast stands.
      if s.Means m type ∧ type.admits v = true then .ok v else .error (.cast type)
  | .toDouble e access => do
      let v ← e.eval m s
      reach access v Value.toDouble
  | .toJson e access => do
      let v ← e.eval m s
      reach access v m.toJson
  | .fromJson name e => do
      let v ← e.eval m s
      -- A variable or a field of this name hides the class.
      if name ∈ s.names then .error (.name name) else m.fromJson name v
  | .unlessNull subject body => do
      match ← subject.eval m s with
      | .null => .ok .null
      | _ => body.eval m s
  | .mapList e access x body => do
      let v ← e.eval m s
      reach access v (Value.mapList fun item => body.eval m (s.bind x item))

/-- The scope of a factory: the decoded map, and the fields without values. -/
def factoryScope (d : ClassDef) (json : Value) : Scope :=
  ⟨[("json", json)], d.fields.map Field.name⟩

/-- The scope of a method: the fields with their values. -/
def methodScope (d : ClassDef) (fields : List (String × Value)) : Scope :=
  ⟨fields, d.fields.map Field.name⟩

/-- What the fields evaluate to, one after the other, with a label for each. -/
def evalFields (label : Field → String) (eval : Field → Except Fault Value)
    (fields : List Field) : Except Fault (List (String × Value)) :=
  fields.mapM fun f => do
    let v ← eval f
    .ok (label f, v)

/-- The factory of a class: the fields are read, and the constructor is called
    with what was read. -/
def construct (o : Options) (c : Catalog) (m : Methods) (d : ClassDef) (json : Value) :
    Except Fault Value := do
  let fields ← evalFields Field.name (fun f => (readField o c f).eval m (factoryScope d json))
    d.fields
  if d.name ∈ (factoryScope d json).names then .error (.name d.name)
  else .ok (.object d.name fields)

/-- The method that writes an object as a map literal, in which a later entry
    takes the place of an earlier one with the same key. -/
def serialize (o : Options) (m : Methods) (d : ClassDef) (fields : List (String × Value)) :
    Except Fault Value := do
  let entries ← evalFields Field.key (fun f => (writeField o f).eval m (methodScope d fields))
    d.fields
  .ok (.map (entries.foldl (fun taken e => Json.insertMember taken e.1 e.2) []))

/-- The class that is declared under a name. -/
def class? (c : Catalog) (name : String) : Option ClassDef :=
  c.classes.find? (·.name = name)

/-- The methods of all classes of a program, as far as calls of them are nested
    no deeper than a limit. -/
def methods (o : Options) (c : Catalog) : Nat → Methods
  | 0 =>
    { classNames := c.classes.map ClassDef.name
      -- No calls are left.
      fromJson := fun _ _ => .error .depth
      toJson := fun _ => .error .depth }
  | limit + 1 =>
    { classNames := c.classes.map ClassDef.name
      fromJson := fun name json =>
        match class? c name, json with
        | some d, .map _ => construct o c (methods o c limit) d json
        | some _, _ => .error (.cast .jsonMap)
        | none, _ => .error (.name name)
      toJson := fun v =>
        match v with
        | .object name fields =>
            match class? c name with
            | some d => serialize o (methods o c limit) d fields
            | none => .error (.name name)
        | _ => .error (.member "toJson") }

/-! ### Successful evaluation -/

section Evaluation

variable {m : Methods} {s : Scope} {e : Expr} {v : Value} {access : Access} {x : String}
  {member : Value → Except Fault Value}

/-- A null-aware access to null is null. -/
theorem reach_null (h : access ≠ .plain) : reach access .null member = .ok .null := by
  cases access with
  | plain => exact absurd rfl h
  | nullAware | nullAwareThroughout => rfl

/-- Other values have the member, whatever the access. -/
theorem reach_of_ne_null (h : v ≠ .null) : reach access v member = member v := by
  cases v with
  | null => exact absurd rfl h
  | _ => cases access <;> rfl

/-- A variable has the value that the scope gives it. -/
theorem eval_var (h : Json.find? s.vars x = some v) : (Expr.var x).eval m s = .ok v := by
  rw [Expr.eval, h]

/-- A parameter has the value it was given. -/
theorem eval_var_bind : (Expr.var x).eval m (s.bind x v) = .ok v :=
  eval_var (if_pos rfl)

/-- A cast does nothing to a value of its type, if the type means what it should. -/
theorem eval_cast (he : e.eval m s = .ok v) {type : Ty} (hmeans : s.Means m type)
    (hv : type.admits v = true) : (Expr.cast e type).eval m s = .ok v := by
  rw [Expr.eval, he]
  exact if_pos ⟨hmeans, hv⟩

/-- A conversion to a double, once its receiver has a value. -/
theorem eval_toDouble (he : e.eval m s = .ok v) :
    (Expr.toDouble e access).eval m s = reach access v Value.toDouble := by
  rw [Expr.eval, he]
  rfl

/-- A call of `toJson`, once its receiver has a value. -/
theorem eval_toJson (he : e.eval m s = .ok v) :
    (Expr.toJson e access).eval m s = reach access v m.toJson := by
  rw [Expr.eval, he]
  rfl

/-- A call of a factory, once its argument has a value. No name in scope may hide the
    class. -/
theorem eval_fromJson (he : e.eval m s = .ok v) {name : String} (hname : name ∉ s.names) :
    (Expr.fromJson name e).eval m s = m.fromJson name v := by
  rw [Expr.eval, he]
  exact if_neg hname

/-- Mapping a list, once it has a value. -/
theorem eval_mapList (he : e.eval m s = .ok v) {body : Expr} :
    (Expr.mapList e access x body).eval m s =
      reach access v (Value.mapList fun item => body.eval m (s.bind x item)) := by
  rw [Expr.eval, he]
  rfl

/-- A list is mapped element by element. -/
theorem mapList_eq_ok {α : Type} {f : Value → Except Fault Value} {a g : α → Value} {xs : List α}
    (h : ∀ x ∈ xs, f (a x) = .ok (g x)) :
    Value.mapList f (.list (xs.map a)) = .ok (.list (xs.map g)) := by
  rw [Value.mapList, List.mapM_map, Steps.mapM_eq_ok (f := f ∘ a) h]
  rfl

/-- Fields have values if each of them has one. -/
theorem evalFields_eq_ok {label : Field → String} {eval : Field → Except Fault Value}
    {fields : List Field} {u : Field → Value} (h : ∀ f ∈ fields, eval f = .ok (u f)) :
    evalFields label eval fields = .ok (fields.map fun f => (label f, u f)) :=
  Steps.mapM_eq_ok fun f hf => by
    rw [h f hf]
    rfl

/-- A factory makes an object if all of its reads have values. -/
theorem construct_eq_ok {o : Options} {c : Catalog} {d : ClassDef} {json : Value}
    {u : Field → Value}
    (h : ∀ f ∈ d.fields, (readField o c f).eval m (factoryScope d json) = .ok (u f))
    (hname : d.name ∉ (factoryScope d json).names) :
    construct o c m d json = .ok (.object d.name (d.fields.map fun f => (f.name, u f))) := by
  rw [construct, evalFields_eq_ok h]
  exact if_neg hname

/-- A map is written if all writes have values. Its keys are distinct, so no entry takes
    the place of another. -/
theorem serialize_eq_ok {o : Options} {d : ClassDef} {fields : List (String × Value)}
    {w : Field → Value}
    (h : ∀ f ∈ d.fields, (writeField o f).eval m (methodScope d fields) = .ok (w f))
    (hkeys : (d.fields.map Field.key).Nodup) :
    serialize o m d fields = .ok (.map (d.fields.map fun f => (f.key, w f))) := by
  have hnodup : (([] ++ d.fields.map fun f : Field => (f.key, w f)).map Prod.fst).Nodup := by
    -- The entries have the keys of the fields, in their order.
    rwa [List.nil_append, List.map_map]
  rw [serialize, evalFields_eq_ok h]
  exact congrArg (fun entries => Except.ok (Value.map entries)) (Json.foldl_insertMember hnodup)

end Evaluation

section Methods

variable {o : Options} {c : Catalog} {limit : Nat} {d : ClassDef} {name : String}

/-- The limit for calls does not change which classes there are. -/
theorem classNames_methods (o : Options) (c : Catalog) (limit : Nat) :
    (methods o c limit).classNames = c.classes.map ClassDef.name := by
  cases limit <;> rfl

/-- A call of a factory takes one of the calls that are left. -/
theorem fromJson_methods (h : class? c name = some d) (entries : List (String × Value)) :
    (methods o c (limit + 1)).fromJson name (.map entries) =
      construct o c (methods o c limit) d (.map entries) := by
  simp only [methods, h]

/-- So does a call of `toJson`. -/
theorem toJson_methods (h : class? c name = some d) (fields : List (String × Value)) :
    (methods o c (limit + 1)).toJson (.object name fields) =
      serialize o (methods o c limit) d fields := by
  simp only [methods, h]

end Methods

end Dart

end DartModels
