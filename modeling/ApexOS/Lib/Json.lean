import Mathlib.Data.Int.Notation
import Mathlib.Data.List.Basic
import Mathlib.Algebra.Group.Nat.Defs

/-!
# JSON values

Values as a JSON library hands them out: numbers keep the form they were parsed to, and an object
is its fields, of which a lookup sees the first with a key. The accessors answer `none` on a value
of another kind, so a field that is absent and one of the wrong kind read alike.

## Main definitions

* `Json`: values
* `Json.get?`, `Json.insert`, `Json.erase`: the fields of an object
* `Json.asBool`, `Json.asStr`, `Json.asU64`, `Json.asI64`, `Json.asArray`: accessors
-/

/-- A JSON number: a word, a negative word, or the bits of a float. -/
inductive JsonNumber
  | posInt (n : UInt64)
  | negInt (n : Int64)
  | float (bits : UInt64)
  deriving DecidableEq, Repr

/-- A JSON value. -/
inductive Json
  | null
  | bool (b : Bool)
  | number (n : JsonNumber)
  | string (s : String)
  | array (items : List Json)
  | object (fields : List (String × Json))

namespace Json

/-- The field of an object. -/
def get? : Json → String → Option Json
  | object fields, key => fields.lookup key
  | _, _ => none

/-- The value as a boolean. -/
def asBool : Json → Option Bool
  | bool b => some b
  | _ => none

/-- The value as a string. -/
def asStr : Json → Option String
  | string s => some s
  | _ => none

/-- The value as an unsigned word. -/
def asU64 : Json → Option UInt64
  | number (.posInt n) => some n
  | _ => none

/-- The value as a signed word. -/
def asI64 : Json → Option ℤ
  | number (.posInt n) => if n.toNat < 2 ^ 63 then some n.toNat else none
  | number (.negInt n) => some n.toInt
  | _ => none

/-- The value as an array. -/
def asArray : Json → Option (List Json)
  | array items => some items
  | _ => none

/-- Set a field among fields: in its place, or at the end. -/
def insertField (key : String) (value : Json) : List (String × Json) → List (String × Json)
  | [] => [(key, value)]
  | field :: fields =>
    if field.1 = key then (key, value) :: fields else field :: insertField key value fields

/-- Set a field of an object; anything else stays as it is. -/
def insert : Json → String → Json → Json
  | object fields, key, value => object (insertField key value fields)
  | j, _, _ => j

/-- Remove a field of an object; anything else stays as it is. -/
def erase : Json → String → Json
  | object fields, key => object (fields.filter fun field => field.1 ≠ key)
  | j, _ => j

/-- The value is an object. -/
def isObject : Json → Bool
  | object _ => true
  | _ => false

theorem lookup_cons_eq (field : String × Json) (fields : List (String × Json)) (key : String) :
    (field :: fields).lookup key = if field.1 = key then some field.2 else fields.lookup key := by
  rw [List.lookup_cons]
  by_cases h : field.1 = key
  · simp [h]
  · simp [h, beq_false_of_ne (Ne.symm h)]

@[simp] theorem get?_erase_self (key : String) (j : Json) : (j.erase key).get? key = none := by
  cases j with
  | object fields =>
    rw [erase, get?]
    induction fields with
    | nil => rfl
    | cons field fields ih =>
      by_cases h : field.1 = key
      · rw [List.filter_cons_of_neg (by simpa using h), ih]
      · rw [List.filter_cons_of_pos (by simpa using h), lookup_cons_eq, if_neg h, ih]
  | _ => rfl

theorem get?_erase_of_ne {key other : String} (hne : other ≠ key) (j : Json) :
    (j.erase key).get? other = j.get? other := by
  cases j with
  | object fields =>
    rw [erase, get?, get?]
    induction fields with
    | nil => rfl
    | cons field fields ih =>
      by_cases h : field.1 = key
      · rw [List.filter_cons_of_neg (by simpa using h), ih, lookup_cons_eq,
          if_neg fun heq => hne (heq.symm.trans h)]
      · rw [List.filter_cons_of_pos (by simpa using h), lookup_cons_eq, lookup_cons_eq, ih]
  | _ => rfl

theorem get?_insert_self {key : String} {value j : Json} (h : j.isObject = true) :
    (j.insert key value).get? key = some value := by
  cases j with
  | object fields =>
    rw [insert, get?]
    induction fields with
    | nil => simp [insertField]
    | cons field fields ih =>
      rw [insertField]
      split
      · rw [lookup_cons_eq, if_pos rfl]
      · rename_i hne
        rw [lookup_cons_eq, if_neg hne, ih h]
  | _ => cases h

theorem get?_insert_of_ne {key other : String} (hne : other ≠ key) (value j : Json) :
    (j.insert key value).get? other = j.get? other := by
  cases j with
  | object fields =>
    rw [insert, get?, get?]
    induction fields with
    | nil => simpa [insertField] using hne
    | cons field fields ih =>
      rw [insertField]
      split
      · rename_i heq
        rw [lookup_cons_eq, lookup_cons_eq, if_neg (Ne.symm hne), heq, if_neg (Ne.symm hne)]
      · rw [lookup_cons_eq, lookup_cons_eq, ih]
  | _ => rfl

@[simp] theorem isObject_erase (key : String) (j : Json) : (j.erase key).isObject = j.isObject := by
  cases j <;> rfl

/-- Only objects have fields. -/
theorem isObject_of_get? {j : Json} {key : String} {value : Json} (h : j.get? key = some value) :
    j.isObject = true := by
  cases j with
  | object fields => rfl
  | _ => cases h

end Json
