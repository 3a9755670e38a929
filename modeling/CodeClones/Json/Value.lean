/-!
# JSON values

Whole numbers and floating-point numbers are different values. The entries of an object are kept in
ascending order of their keys, one entry a key; `insert` keeps that order.
-/

namespace CodeClones.Json

/-- A JSON number. -/
inductive Number where
  | integer (n : Int)
  | float (x : Float)
  /-- A number of 32 bits, which occurs in written documents only. -/
  | single (x : Float32)

/-- Equality of numbers: a whole number never equals a floating-point number. -/
def Number.equal : Number → Number → Bool
  | .integer a, .integer b => a == b
  | .float a, .float b => a == b
  | .single a, .single b => a == b
  | _, _ => false

/-- A JSON value. -/
inductive Value where
  | null
  | bool (b : Bool)
  | number (n : Number)
  | string (s : String)
  | array (items : List Value)
  | object (entries : List (String × Value))
  deriving Inhabited

/-- The entries of an object. -/
abbrev Object := List (String × Value)

mutual

/-- Equality of values. -/
def Value.equal : Value → Value → Bool
  | .null, .null => true
  | .bool a, .bool b => a == b
  | .number a, .number b => a.equal b
  | .string a, .string b => a == b
  | .array as, .array bs => equalItems as bs
  | .object as, .object bs => equalEntries as bs
  | _, _ => false

/-- Equality of the items of two arrays. -/
def equalItems : List Value → List Value → Bool
  | [], [] => true
  | a :: as, b :: bs => a.equal b && equalItems as bs
  | _, _ => false

/-- Equality of the entries of two objects. -/
def equalEntries : List (String × Value) → List (String × Value) → Bool
  | [], [] => true
  | (k, a) :: as, (l, b) :: bs => k == l && a.equal b && equalEntries as bs
  | _, _ => false

end

namespace Object

/-- The value under a key. -/
def get? (o : Object) (key : String) : Option Value := o.lookup key

/-- Adds an entry in its place; an entry under the same key is replaced. -/
def insert (key : String) (value : Value) : Object → Object
  | [] => [(key, value)]
  | (k, v) :: rest =>
    if key = k then (key, value) :: rest
    else if key < k then (key, value) :: (k, v) :: rest
    else (k, v) :: insert key value rest

/-- The object that holds the given entries; of equal keys the last one counts. -/
def ofList (entries : List (String × Value)) : Object :=
  entries.foldl (fun o (k, v) => insert k v o) []

end Object

namespace Value

/-- A natural number as a value. -/
def ofNat (n : Nat) : Value := .number (.integer n)

/-- A number of 32 bits as a value. -/
def ofSingle (x : Float32) : Value := .number (.single x)

/-- A text as a value, or nothing if there is none. -/
def ofOption (f : α → Value) : Option α → Value
  | some a => f a
  | none => null

/-- An object with the given entries; of equal keys the last one counts. -/
def mkObject (entries : List (String × Value)) : Value := .object (Object.ofList entries)

/-- The text of a string value. -/
def asString? : Value → Option String
  | .string s => some s
  | _ => none

/-- The value of a truth value. -/
def asBool? : Value → Option Bool
  | .bool b => some b
  | _ => none

/-- A whole number of at most 64 bits without sign. -/
def asWord? : Value → Option Nat
  | .number (.integer n) => if 0 ≤ n ∧ n < UInt64.size then some n.toNat else none
  | _ => none

/-- The items of an array. -/
def asArray? : Value → Option (List Value)
  | .array items => some items
  | _ => none

/-- The entries of an object. -/
def asObject? : Value → Option Object
  | .object entries => some entries
  | _ => none

/-- The value under a key of an object. -/
def get? (v : Value) (key : String) : Option Value := v.asObject?.bind (·.get? key)

end Value

end CodeClones.Json
