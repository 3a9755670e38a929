import CodeClones.Json.Writer

/-!
# How deep values nest

The place at which a text nests too deep is looked for along the text. There is one exactly if the
value has more containers inside each other than are allowed.
-/

namespace CodeClones.Json

mutual

/-- The greatest number of containers of a value that lie inside each other. -/
def Value.nesting : Value → Nat
  | .array items => nestingOfItems items + 1
  | .object entries => nestingOfEntries entries + 1
  | _ => 0

/-- The greatest nesting of the items of an array. -/
def nestingOfItems : List Value → Nat
  | [] => 0
  | v :: rest => max v.nesting (nestingOfItems rest)

/-- The greatest nesting of the entries of an object. -/
def nestingOfEntries : List (String × Value) → Nat
  | [] => 0
  | (_, v) :: rest => max v.nesting (nestingOfEntries rest)

end

mutual

/-- A container with too many others around it is found exactly if there is one. -/
theorem Value.deepColumn?_eq_none_iff (depth column : Nat) (v : Value) :
    v.deepColumn? depth column = none ↔ v.nesting ≤ depth := by
  match depth, v with
  | depth, .null | depth, .bool _ | depth, .number _ | depth, .string _ =>
    exact iff_of_true (by cases depth <;> rfl) (Nat.zero_le _)
  | 0, .array _ | 0, .object _ => exact iff_of_false nofun nofun
  | depth + 1, .array items =>
    rw [Value.deepColumn?, Value.nesting, Nat.add_le_add_iff_right]
    exact deepColumnOfItems?_eq_none_iff depth (column + 1) items
  | depth + 1, .object entries =>
    rw [Value.deepColumn?, Value.nesting, Nat.add_le_add_iff_right]
    exact deepColumnOfEntries?_eq_none_iff depth (column + 1) entries

theorem deepColumnOfItems?_eq_none_iff (depth column : Nat) (items : List Value) :
    deepColumnOfItems? depth column items = none ↔ nestingOfItems items ≤ depth := by
  match items with
  | [] => simp [deepColumnOfItems?, nestingOfItems]
  | v :: rest =>
    rw [deepColumnOfItems?, nestingOfItems, Option.or_eq_none_iff, Nat.max_le,
      v.deepColumn?_eq_none_iff, deepColumnOfItems?_eq_none_iff _ _ rest]

theorem deepColumnOfEntries?_eq_none_iff (depth column : Nat) (entries : List (String × Value)) :
    deepColumnOfEntries? depth column entries = none ↔ nestingOfEntries entries ≤ depth := by
  match entries with
  | [] => simp [deepColumnOfEntries?, nestingOfEntries]
  | (k, v) :: rest =>
    rw [deepColumnOfEntries?, nestingOfEntries, Option.or_eq_none_iff, Nat.max_le,
      v.deepColumn?_eq_none_iff, deepColumnOfEntries?_eq_none_iff _ _ rest]

end

end CodeClones.Json
