/-!
# TOML values

The values of a configuration file. Dates and times are told apart from the other values but not
looked into.
-/

namespace CodeClones.Toml

/-- A TOML value. -/
inductive Value where
  | string (s : String)
  | integer (n : Int)
  | float (x : Float)
  | bool (b : Bool)
  /-- A date, a time, or both. -/
  | moment
  | array (items : List Value)
  | table (entries : List (String × Value))
  deriving Inhabited

/-- The entries of a table. -/
abbrev Table := List (String × Value)

/-- The value under a key. -/
def Table.get? (t : Table) (key : String) : Option Value := t.lookup key

/-- How a table came to be. -/
inductive Origin where
  /-- It has a header of its own. -/
  | header
  /-- It is named in the header of another table. -/
  | implied
  /-- It is named in a dotted key. -/
  | dotted
  deriving DecidableEq, Repr

/-- What stands under a key while a document is being read. -/
inductive Item where
  | value (v : Value)
  | table (origin : Origin) (entries : List (String × Item))
  /-- Tables of one array, the last one first. -/
  | tables (reversed : List (List (String × Item)))
  deriving Inhabited

/-- The entries of a table that is being read. -/
abbrev Draft := List (String × Item)

/-- Puts an item under a key, behind all others if the key is new. -/
def Draft.set (key : String) (item : Item) : Draft → Draft
  | [] => [(key, item)]
  | (k, i) :: rest => if k = key then (key, item) :: rest else (k, i) :: Draft.set key item rest

mutual

/-- The finished value of an item. -/
def Item.toValue : Item → Value
  | .value v => v
  | .table _ entries => .table (finish entries)
  | .tables reversed => .array (finishAll reversed).reverse

/-- The finished entries of a table. -/
def finish : List (String × Item) → List (String × Value)
  | [] => []
  | (k, i) :: rest => (k, i.toValue) :: finish rest

/-- The finished tables of an array, in the order given. -/
def finishAll : List (List (String × Item)) → List Value
  | [] => []
  | t :: rest => .table (finish t) :: finishAll rest

end

/-- Changes the table at the end of a path. Tables on the way are made as needed, the last table of
an array stands for the array, and a value in the way is an error. With dotted keys, a table with a
header of its own is in the way too. -/
def Draft.changeAt (dotted : Bool) (change : Origin → Draft → Option Draft) :
    Origin → List String → Draft → Option Draft
  | origin, [], t => change origin t
  | _, key :: path, t =>
    let made : Origin := if dotted then .dotted else .implied
    match (t.lookup key).getD (.table made []) with
    | .value _ => none
    | .table origin inner =>
      if dotted ∧ origin = .header then none
      else (Draft.changeAt dotted change origin path inner).map fun inner =>
        Draft.set key (.table origin inner) t
    | .tables [] => none
    | .tables (last :: earlier) =>
      (Draft.changeAt dotted change .header path last).map fun last =>
        Draft.set key (.tables (last :: earlier)) t

/-- Adds a value under a key of dotted parts. A key is given once, and a dotted key adds only to
tables that dotted keys made. -/
def Draft.addValue (path : List String) (key : String) (v : Value) (t : Draft) : Option Draft :=
  Draft.changeAt true (fun origin inner =>
    if path ≠ [] ∧ origin ≠ .dotted then none
    else if (inner.lookup key).isSome then none
    else some (Draft.set key (.value v) inner)) .header path t

/-- Starts the table of a header. The table must be new or only implied so far. -/
def Draft.openTable (path : List String) (key : String) (t : Draft) : Option Draft :=
  Draft.changeAt false (fun _ inner =>
    match inner.lookup key with
    | none => some (Draft.set key (.table .header []) inner)
    | some (.table .implied entries) => some (Draft.set key (.table .header entries) inner)
    | some _ => none) .header path t

/-- Starts one more table of an array of tables. -/
def Draft.openElement (path : List String) (key : String) (t : Draft) : Option Draft :=
  Draft.changeAt false (fun _ inner =>
    match inner.lookup key with
    | none => some (Draft.set key (.tables [[]]) inner)
    | some (.tables reversed) => some (Draft.set key (.tables ([] :: reversed)) inner)
    | some _ => none) .header path t

end CodeClones.Toml
