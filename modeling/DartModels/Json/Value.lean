/-!
# JSON documents

A document as a tree, with the two facts kept that the text of a document
carries beyond its tree: the order in which the members of an object appeared,
and whether a number was written as an integer that fits 64 bits.

The members of an object are a list of pairs. A repeated key does not make a
second pair: `insertMember` overwrites the value where the key first stood, so
a document that was built by insertion has each key once.

Numbers are not collapsed into one type. An integer between the least signed
and the greatest unsigned 64-bit integer is held exactly, and everything else
is a double. What matters for typing is narrower still, namely whether the
number is a *signed* 64-bit integer; `Number.isSigned64` is that test.

## Main definitions

* `Json.Number`, `Json`: Numbers and documents.
* `Json.Kind`: The six kinds of values, with the words used for them in
  messages.
* `insertMember`, `find?`: The members of an object as a map.
* `Json.wrapKey`, `Json.wrapList`: A value as the only content of a container.

## Theorems

* `find?_insertMember_self`: A member that was inserted is found.
* `find?_insertMember_of_ne`: The other members are found as before.
* `keys_insertMember`: Inserting appends a new key and leaves a known one
  where it is.
-/

namespace DartModels

namespace Json

/-- A JSON number: an integer that fits 64 bits, signed or unsigned, or a
    double. -/
inductive Number where
  | integer (value : Int)
  | double (value : Float)
  deriving DecidableEq

/-- Whether a number is an integer of the signed 64-bit range. -/
def Number.isSigned64 : Number → Bool
  | .integer n => -(Nat.pow 2 63 : Int) ≤ n && n < Nat.pow 2 63
  | .double _ => false

/-- The kinds of JSON values. -/
inductive Kind where
  | null
  | boolean
  | number
  | string
  | array
  | object
  deriving DecidableEq

/-- A kind as a phrase of an error message. -/
def Kind.phrase : Kind → String
  | .null => "null"
  | .boolean => "a boolean"
  | .number => "a number"
  | .string => "a string"
  | .array => "an array"
  | .object => "an object"

end Json

/-- A JSON document. -/
inductive Json where
  | null
  | bool (value : Bool)
  | number (value : Json.Number)
  | string (value : String)
  | array (items : List Json)
  | object (members : List (String × Json))

namespace Json

/-- The kind of a value. -/
def kind : Json → Kind
  | .null => .null
  | .bool _ => .boolean
  | .number _ => .number
  | .string _ => .string
  | .array _ => .array
  | .object _ => .object

/-- Give `key` the value `v` among `members`: in place if the key is there
    already, and at the end otherwise. -/
def insertMember {α : Type} (members : List (String × α)) (key : String) (v : α) :
    List (String × α) :=
  match members with
  | [] => [(key, v)]
  | (k, u) :: rest => if k = key then (k, v) :: rest else (k, u) :: insertMember rest key v

/-- The value of `key` among `members`. -/
def find? {α : Type} (members : List (String × α)) (key : String) : Option α :=
  match members with
  | [] => none
  | (k, u) :: rest => if k = key then some u else find? rest key

theorem find?_insertMember_self {α : Type} (members : List (String × α)) (key : String) (v : α) :
    find? (insertMember members key v) key = some v := by
  induction members with
  | nil => simp [insertMember, find?]
  | cons m rest ih =>
      obtain ⟨k, u⟩ := m
      by_cases hk : k = key
      · simp [insertMember, find?, hk]
      · simp [insertMember, find?, hk, ih]

theorem find?_insertMember_of_ne {α : Type} (members : List (String × α)) {key other : String}
    (v : α) (h : other ≠ key) : find? (insertMember members key v) other = find? members other := by
  induction members with
  | nil => simp [insertMember, find?, h.symm]
  | cons m rest ih =>
      obtain ⟨k, u⟩ := m
      by_cases hk : k = key
      · simp [insertMember, find?, hk, h.symm]
      · simp [insertMember, find?, hk, ih]

theorem keys_insertMember {α : Type} (members : List (String × α)) (key : String) (v : α) :
    (insertMember members key v).map Prod.fst =
      if key ∈ members.map Prod.fst then members.map Prod.fst
      else members.map Prod.fst ++ [key] := by
  induction members with
  | nil => simp [insertMember]
  | cons m rest ih =>
      obtain ⟨k, u⟩ := m
      by_cases hk : k = key
      · simp [insertMember, hk]
      · have hne : ¬ key = k := fun h => hk h.symm
        simp only [insertMember, hk, if_false, List.map_cons, ih, List.mem_cons, hne, false_or]
        split <;> simp

/-- The object whose only member is `key` with this value. -/
def wrapKey (key : String) (v : Json) : Json :=
  .object [(key, v)]

/-- The array whose only item is this value. -/
def wrapList (v : Json) : Json :=
  .array [v]

end Json

end DartModels
