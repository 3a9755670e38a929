import CodeClones.Toml.Reader

/-!
# Whole numbers in documents

Every whole number of a table that is read lies in the range of 64 bits with sign.
-/

namespace CodeClones.Toml

/-- A value in which all whole numbers have 64 bits. -/
inductive Value.InRange : Value → Prop where
  | string (s : String) : InRange (.string s)
  | integer (n : Int) (low : Int64.minValue.toInt ≤ n) (high : n ≤ Int64.maxValue.toInt) :
      InRange (.integer n)
  | float (x : Float) : InRange (.float x)
  | bool (b : Bool) : InRange (.bool b)
  | moment : InRange .moment
  | array (items : List Value) (inRange : ∀ v ∈ items, InRange v) : InRange (.array items)
  | table (entries : Table) (inRange : ∀ entry ∈ entries, InRange entry.2) :
      InRange (.table entries)

/-- An item in which all whole numbers have 64 bits. -/
inductive Item.InRange : Item → Prop where
  | value (v : Value) (inRange : v.InRange) : InRange (.value v)
  | table (origin : Origin) (entries : Draft) (inRange : ∀ entry ∈ entries, InRange entry.2) :
      InRange (.table origin entries)
  | tables (reversed : List Draft) (inRange : ∀ t ∈ reversed, ∀ entry ∈ t, InRange entry.2) :
      InRange (.tables reversed)

/-- A draft in which all whole numbers have 64 bits. -/
def Draft.InRange (t : Draft) : Prop := ∀ entry ∈ t, entry.2.InRange

section Drafts

variable {t t' : Draft} {key : String} {path : List String}

theorem mem_finish {entry : String × Value} (h : entry ∈ finish t) :
    ∃ item, (entry.1, item) ∈ t ∧ item.toValue = entry.2 := by
  induction t with
  | nil => cases h
  | cons first t ih =>
    rcases List.mem_cons.mp h with rfl | h
    · exact ⟨first.2, List.mem_cons_self .., rfl⟩
    · obtain ⟨item, hmem, hitem⟩ := ih h
      exact ⟨item, List.mem_cons_of_mem _ hmem, hitem⟩

theorem mem_finishAll {ts : List Draft} {v : Value} (h : v ∈ finishAll ts) :
    ∃ t ∈ ts, v = .table (finish t) := by
  induction ts with
  | nil => cases h
  | cons t ts ih =>
    rcases List.mem_cons.mp h with rfl | h
    · exact ⟨t, List.mem_cons_self .., rfl⟩
    · obtain ⟨u, hu, hv⟩ := ih h
      exact ⟨u, List.mem_cons_of_mem _ hu, hv⟩

theorem Item.InRange.toValue {item : Item} (h : item.InRange) : item.toValue.InRange := by
  induction h with
  | value v inRange => exact inRange
  | table origin entries inRange ih =>
    refine .table _ fun entry hentry => ?_
    obtain ⟨item, hmem, hitem⟩ := mem_finish hentry
    exact hitem ▸ ih (entry.1, item) hmem
  | tables reversed inRange ih =>
    refine .array _ fun v hv => ?_
    obtain ⟨t, ht, rfl⟩ := mem_finishAll (List.mem_reverse.mp hv)
    refine .table _ fun entry hentry => ?_
    obtain ⟨item, hmem, hitem⟩ := mem_finish hentry
    exact hitem ▸ ih t ht (entry.1, item) hmem

theorem Draft.InRange.finish (h : t.InRange) : (Value.table (finish t)).InRange :=
  (Item.InRange.table .header t h).toValue

theorem Draft.InRange.set {item : Item} (h : t.InRange) (hitem : item.InRange) :
    (Draft.set key item t).InRange := by
  induction t with
  | nil =>
    intro entry hentry
    rw [List.mem_singleton.mp hentry]
    exact hitem
  | cons first t ih =>
    obtain ⟨hfirst, hrest⟩ := List.forall_mem_cons.mp h
    rw [Draft.set]
    split
    · exact List.forall_mem_cons.mpr ⟨hitem, hrest⟩
    · exact List.forall_mem_cons.mpr ⟨hfirst, ih hrest⟩

theorem Draft.InRange.lookup {item : Item} (h : t.InRange) (hitem : t.lookup key = some item) :
    item.InRange := by
  obtain ⟨before, after, rfl, -⟩ := List.lookup_eq_some_iff.mp hitem
  exact h (key, item) (by simp)

/-- What a change keeps at the end of a path is kept in the whole draft. -/
theorem Draft.InRange.changeAt {dotted : Bool} {change : Origin → Draft → Option Draft}
    (hchange : ∀ origin t t', t.InRange → change origin t = some t' → t'.InRange) {origin : Origin}
    (h : t.InRange) (hchanged : Draft.changeAt dotted change origin path t = some t') :
    t'.InRange := by
  induction path generalizing origin t t' with
  | nil => exact hchange origin t t' h hchanged
  | cons key path ih =>
    have hitem :
        ((t.lookup key).getD (.table (if dotted then .dotted else .implied) [])).InRange := by
      cases hlookup : t.lookup key with
      | none => exact .table _ _ (by simp)
      | some item => exact h.lookup hlookup
    rw [Draft.changeAt] at hchanged
    revert hitem hchanged
    generalize (t.lookup key).getD _ = item
    intro hchanged hitem
    cases hitem with
    | value v inRange => cases hchanged
    | table origin inner inRange =>
      simp only at hchanged
      split at hchanged
      · cases hchanged
      · obtain ⟨inner', hinner', rfl⟩ := Option.map_eq_some_iff.mp hchanged
        exact h.set (.table _ _ (ih inRange hinner'))
    | tables reversed inRange =>
      cases reversed with
      | nil => cases hchanged
      | cons last earlier =>
        obtain ⟨last', hlast', rfl⟩ := Option.map_eq_some_iff.mp hchanged
        rw [List.forall_mem_cons] at inRange
        exact h.set (.tables _ (List.forall_mem_cons.mpr ⟨ih inRange.1 hlast', inRange.2⟩))

theorem Draft.InRange.addValue {v : Value} (h : t.InRange) (hv : v.InRange)
    (hadded : t.addValue path key v = some t') : t'.InRange := by
  refine h.changeAt (fun origin inner inner' hinner hchanged => ?_) hadded
  split at hchanged
  · cases hchanged
  · split at hchanged
    · cases hchanged
    · cases hchanged
      exact hinner.set (.value v hv)

theorem Draft.InRange.openTable (h : t.InRange) (hopened : t.openTable path key = some t') :
    t'.InRange := by
  refine h.changeAt (fun origin inner inner' hinner hchanged => ?_) hopened
  split at hchanged
  · cases hchanged
    exact hinner.set (.table _ _ (by simp))
  · rename_i entries hlookup
    cases hchanged
    cases hinner.lookup hlookup with
    | table _ _ inRange => exact hinner.set (.table _ _ inRange)
  · cases hchanged

theorem Draft.InRange.openElement (h : t.InRange) (hopened : t.openElement path key = some t') :
    t'.InRange := by
  refine h.changeAt (fun origin inner inner' hinner hchanged => ?_) hopened
  split at hchanged
  · cases hchanged
    exact hinner.set (.tables _ (by simp))
  · rename_i reversed hlookup
    cases hchanged
    cases hinner.lookup hlookup with
    | tables _ inRange => exact hinner.set (.tables _ (List.forall_mem_cons.mpr ⟨by simp, inRange⟩))
  · cases hchanged

end Drafts

section Values

variable {s rest : List Char} {v : Value}

namespace ReadsInRange

variable {fuel depth : Nat}

end ReadsInRange

end Values

section Documents

variable {p p' : Progress} {s rest : List Char}

end Documents

end CodeClones.Toml
