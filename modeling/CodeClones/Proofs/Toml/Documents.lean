import CodeClones.Proofs.Toml.Values

/-!
# Documents that read back

A document is read line by line into a draft. What is written for a table is read at the place of
the table, so that the text of a table of values and of tables with headers stands for the table.
-/

namespace CodeClones.Toml

section Keys

variable {fuel : Nat} {rest : List Char} {k : String}

/-- A key that is written without quotes. -/
def BareKey (k : String) : Prop := k.toList ≠ [] ∧ ∀ c ∈ k.toList, isBareKeyChar c

instance (k : String) : Decidable (BareKey k) :=
  decidable_of_iff ((!k.toList.isEmpty && k.toList.all isBareKeyChar) = true) (by simp [BareKey])

theorem ne_of_isBareKeyChar {c mark : Char} (hc : isBareKeyChar c)
    (hmark : isBareKeyChar mark = false) : c ≠ mark := by
  rintro rfl
  rw [hc] at hmark
  cases hmark

theorem not_isBlank_of_isBareKeyChar {c : Char} (hc : isBareKeyChar c) : ¬isBlank c := by
  simp [isBlank, ne_of_isBareKeyChar hc (show isBareKeyChar ' ' = false by decide),
    ne_of_isBareKeyChar hc (show isBareKeyChar '\t' = false by decide)]

theorem BareKey.exists_head (hk : BareKey k) :
    ∃ c tail, k.toList = c :: tail ∧ isBareKeyChar c := by
  obtain ⟨c, tail, hcons⟩ := List.exists_cons_of_ne_nil hk.1
  exact ⟨c, tail, hcons, hk.2 c (hcons ▸ List.mem_cons_self ..)⟩

theorem keyPart?_bare (hk : BareKey k) (rest : List Char)
    (hrest : ∀ c ∈ rest.head?, isBareKeyChar c = false) :
    keyPart? (k.toList ++ rest) = some (k, skipBlanks rest) := by
  obtain ⟨c, tail, hcons, hc⟩ := hk.exists_head
  have hblanks : skipBlanks (k.toList ++ rest) = k.toList ++ rest := by
    rw [skipBlanks, hcons, List.cons_append,
      List.dropWhile_cons_of_neg (not_isBlank_of_isBareKeyChar hc)]
  have hstop : rest.takeWhile isBareKeyChar = [] ∧ rest.dropWhile isBareKeyChar = rest := by
    cases rest with
    | nil => exact ⟨rfl, rfl⟩
    | cons d rest =>
      have hd : ¬isBareKeyChar d := by simp [hrest d rfl]
      exact ⟨List.takeWhile_cons_of_neg hd, List.dropWhile_cons_of_neg hd⟩
  have htake : (k.toList ++ rest).takeWhile isBareKeyChar = k.toList := by
    rw [List.takeWhile_append_of_pos hk.2, hstop.1, List.append_nil]
  have hdrop : (k.toList ++ rest).dropWhile isBareKeyChar = rest := by
    rw [List.dropWhile_append_of_pos hk.2, hstop.2]
  have hmark {mark : Char} {more : List Char} (h : k.toList ++ rest = mark :: more)
      (hmark : isBareKeyChar mark = false) : False := by
    rw [hcons] at h
    exact ne_of_isBareKeyChar hc hmark (List.cons.inj h).1
  rw [keyPart?, hblanks]
  split
  · rename_i h
    exact (hmark h (by decide)).elim
  · rename_i h
    exact (hmark h (by decide)).elim
  · rw [htake, hdrop, if_neg (by simp [hk.1]), String.ofList_toList]

/-- A key of one part. -/
theorem key?_last (hk : BareKey k) (rest : List Char)
    (hrest : ∀ c ∈ rest.head?, isBareKeyChar c = false)
    (hdot : ∀ more, skipBlanks rest ≠ '.' :: more) :
    key? (fuel + 1) (k.toList ++ rest) = some (([], k), skipBlanks rest) := by
  rw [key?, keyPart?_bare hk rest hrest]
  split
  · rename_i h
    simp only [Option.some.injEq, Prod.mk.injEq] at h
    exact (hdot _ h.2).elim
  · rename_i h
    cases h
    rfl
  · rename_i h
    cases h

/-- A key of one more part. -/
theorem key?_dot (hk : BareKey k) :
    key? (fuel + 1) (k.toList ++ '.' :: rest) =
      (key? fuel rest).map fun ((path, last), rest) => ((k :: path, last), rest) := by
  have hpart := keyPart?_bare hk ('.' :: rest) (by simp; decide)
  rw [key?, hpart]
  rfl

end Keys

section Drafts

variable {before t : Draft} {k : String} {path : List String}

theorem lookup_eq_none (hk : k ∉ before.map Prod.fst) : before.lookup k = none := by
  refine List.lookup_eq_none_iff.mpr fun entry hentry => bne_iff_ne.mpr ?_
  rintro rfl
  exact hk (List.mem_map_of_mem hentry)

theorem Draft.set_append (hk : k ∉ before.map Prod.fst) (item : Item) (t : Draft) :
    Draft.set k item (before ++ t) = before ++ Draft.set k item t := by
  induction before with
  | nil => rfl
  | cons entry before ih =>
    simp only [List.map_cons, List.mem_cons, not_or] at hk
    rw [List.cons_append, Draft.set, if_neg (Ne.symm hk.1), ih hk.2, List.cons_append]

/-- A new key comes last. -/
theorem Draft.set_new (hk : k ∉ before.map Prod.fst) (item : Item) :
    Draft.set k item before = before ++ [(k, item)] := by
  simpa [Draft.set] using Draft.set_append hk item []

theorem Draft.changeAt_append (dotted : Bool) (change : Origin → Draft → Option Draft)
    (origin : Origin) (below : List String) (t : Draft) :
    Draft.changeAt dotted change origin (path ++ below) t =
      Draft.changeAt dotted (fun origin t => Draft.changeAt dotted change origin below t) origin
        path t := by
  induction path generalizing origin t with
  | nil => rfl
  | cons key path ih => simp only [List.cons_append, Draft.changeAt, ih]

/-- A table that was opened last in a draft is changed in its place. -/
theorem Draft.changeAt_opened (hk : k ∉ before.map Prod.fst)
    (change : Origin → Draft → Option Draft) (origin : Origin) (inner : Draft) :
    Draft.changeAt false change origin [k] (before ++ [(k, .table .header inner)]) =
      (change .header inner).map fun inner => before ++ [(k, .table .header inner)] := by
  have hlookup : (before ++ [(k, Item.table .header inner)]).lookup k =
      some (.table .header inner) := by
    rw [List.lookup_append, lookup_eq_none hk, List.lookup_cons_self]
    rfl
  simp only [Draft.changeAt, hlookup, Option.getD_some, Draft.set_append hk, Draft.set]
  simp

end Drafts

/-- What stands in front of the last part of a key in the header of a table within a path. -/
def lead (path : String) : List Char := if path.isEmpty then [] else path.toList ++ ['.']

/-- A place in a document: the path of a table, how the path is written, and the draft around it. -/
structure Place (path : List String) (text : String) (plug : Draft → Draft) : Prop where
  changeAt : ∀ change inner,
    Draft.changeAt false change .header path (plug inner) = (change .header inner).map plug
  key : ∀ fuel s, key? (fuel + path.length) (lead text ++ s) =
    (key? fuel s).map fun ((more, last), rest) => ((path ++ more, last), rest)
  bare : ∀ c ∈ text.toList, isBareKeyChar c ∨ c = '.'

namespace Place

variable {path : List String} {text : String} {plug : Draft → Draft} {before : Draft} {k : String}

theorem root : Place [] "" id where
  changeAt change inner := by simp [Draft.changeAt]
  key fuel s := by simp [lead]
  bare := by simp

theorem bare_lead (h : Place path text plug) : ∀ c ∈ lead text, isBareKeyChar c ∨ c = '.' := by
  intro c hc
  rw [lead] at hc
  split at hc
  · cases hc
  · exact (List.mem_append.mp hc).elim (h.bare c) fun hc => .inr (List.mem_singleton.mp hc)

/-- The text of the path of a table. -/
def textBelow (text k : String) : String := if text.isEmpty then k else text ++ "." ++ k

theorem toList_textBelow : (textBelow text k).toList = lead text ++ k.toList := by
  rw [textBelow, lead]
  split <;> simp

/-- The place of a table within another one. -/
theorem below (h : Place path text plug) (hk : BareKey k) (hnew : k ∉ before.map Prod.fst) :
    Place (path ++ [k]) (textBelow text k) fun inner =>
      plug (before ++ [(k, .table .header inner)]) where
  changeAt change inner := by
    rw [Draft.changeAt_append, h.changeAt, Draft.changeAt_opened hnew, Option.map_map]
    rfl
  key fuel s := by
    have hlead : lead (textBelow text k) ++ s = lead text ++ (k.toList ++ '.' :: s) := by
      have hne : (textBelow text k).isEmpty = false := by
        rw [← Bool.not_eq_true, String.isEmpty_iff, ← String.toList_eq_nil_iff, toList_textBelow]
        exact fun h => hk.1 (List.append_eq_nil_iff.mp h).2
      rw [lead, hne, if_neg Bool.false_ne_true, toList_textBelow]
      simp
    have hlength : fuel + (path ++ [k]).length = fuel + 1 + path.length := by
      rw [List.length_append, List.length_singleton]
      omega
    rw [hlead, hlength, h.key, key?_dot hk, Option.map_map]
    refine congrFun (congrArg Option.map (funext fun found => ?_)) _
    simp
  bare c hc := by
    rw [toList_textBelow] at hc
    rcases List.mem_append.mp hc with hc | hc
    · exact h.bare_lead c hc
    · exact .inl (hk.2 c hc)

end Place

/-- A text of whole lines is read from one state of a document to another one. -/
def Reads (p : Progress) (text : String) (p' : Progress) : Prop :=
  ∃ steps ≤ text.length, ∀ fuel rest,
    document? (fuel + steps) p (text.toList ++ rest) = document? fuel p' rest

namespace Reads

variable {p p' p'' : Progress} {text more : String}

theorem nil (p : Progress) : Reads p "" p := ⟨0, Nat.zero_le _, fun _ _ => rfl⟩

theorem newline (p : Progress) : Reads p "\n" p := ⟨1, by decide, fun _ _ => rfl⟩

theorem trans (h : Reads p text p') (h' : Reads p' more p'') : Reads p (text ++ more) p'' := by
  obtain ⟨steps, hle, hreads⟩ := h
  obtain ⟨steps', hle', hreads'⟩ := h'
  refine ⟨steps' + steps, ?_, fun fuel rest => ?_⟩
  · rw [String.length_append]
    omega
  · rw [String.toList_append, List.append_assoc, ← Nat.add_assoc, hreads, hreads']

end Reads

section Lines

variable {path : List String} {text k : String} {plug : Draft → Draft} {before : Draft} {v : Value}
  {n : Nat} {table : List String}

theorem lineTail?_newline (rest : List Char) : lineTail? ('\n' :: rest) = some rest := rfl

theorem skipBlanks_of_begins {s : List Char} (h : Begins s) (rest : List Char) :
    skipBlanks (' ' :: (s ++ rest)) = s ++ rest := by
  obtain ⟨c, tail, rfl, hc⟩ := h
  have hblank : ¬isBlank c := by
    simp only [List.mem_cons, not_or] at hc
    simp [isBlank, hc]
  rw [skipBlanks, List.dropWhile_cons_of_pos (by decide), List.cons_append,
    List.dropWhile_cons_of_neg hblank]

/-- The line of a value adds it to the table at its place. -/
theorem Place.assignment (h : Place path text plug) (hk : BareKey k)
    (hnew : k ∉ before.map Prod.fst) (hv : v.Simple n) (hn : n < depthLimit) (rest : List Char) :
    assignment? ⟨plug before, path⟩
        (k.toList ++ ' ' :: '=' :: ' ' :: (v.text.toList ++ '\n' :: rest)) =
      some (⟨plug (before ++ [(k, .value v)]), path⟩, rest) := by
  have hkey : key? depthLimit (k.toList ++ ' ' :: '=' :: ' ' :: (v.text.toList ++ '\n' :: rest)) =
      some (([], k), '=' :: ' ' :: (v.text.toList ++ '\n' :: rest)) :=
    key?_last hk _ (by simp; decide) fun more h => by simp [skipBlanks, isBlank] at h
  have hvalue : value? (2 * (v.text.toList ++ '\n' :: rest).length + 2) 0
      (v.text.toList ++ '\n' :: rest) = some (v, '\n' :: rest) := by
    refine hv.value? (by omega) ?_ (.line rest)
    rw [List.length_append, String.length_toList]
    omega
  have hadd : Draft.changeAt false (fun _ t => t.addValue [] k v) .header path (plug before) =
      some (plug (before ++ [(k, .value v)])) := by
    rw [h.changeAt, Draft.addValue, Draft.changeAt, if_neg (by simp), lookup_eq_none hnew,
      if_neg (by simp), Draft.set_new hnew]
    rfl
  rw [assignment?, hkey]
  simp only [skipBlanks_of_begins hv.begins, hvalue, hadd, Option.bind_eq_bind, Option.bind_some,
    lineTail?_newline, Option.pure_def]

/-- The header of a table opens it. -/
theorem Place.header (h : Place path text plug) (hk : BareKey k) (hnew : k ∉ before.map Prod.fst)
    (hdepth : path.length < depthLimit) (rest : List Char) :
    header? ⟨plug before, table⟩ ((textBelow text k).toList ++ ']' :: '\n' :: rest) =
      some (⟨plug (before ++ [(k, .table .header [])]), path ++ [k]⟩, rest) := by
  have hkey : key? depthLimit ((textBelow text k).toList ++ ']' :: '\n' :: rest) =
      some ((path, k), ']' :: '\n' :: rest) := by
    obtain ⟨fuel, hfuel⟩ : ∃ fuel, depthLimit = fuel + 1 + path.length :=
      ⟨depthLimit - 1 - path.length, by omega⟩
    have hstop : ∀ more, skipBlanks (']' :: '\n' :: rest) ≠ '.' :: more := fun more h => by
      simp [skipBlanks, isBlank] at h
    rw [hfuel, toList_textBelow, List.append_assoc, h.key, key?_last hk _ (by simp; decide) hstop]
    simp [skipBlanks, isBlank]
  have hopen : (plug before).openTable path k =
      some (plug (before ++ [(k, .table .header [])])) := by
    rw [Draft.openTable, h.changeAt, lookup_eq_none hnew]
    exact congrArg (fun t => some (plug t)) (Draft.set_new hnew _)
  have hbracket : ∀ more, (textBelow text k).toList ++ ']' :: '\n' :: rest ≠ '[' :: more := by
    intro more hcons
    have hmem : '[' ∈ (textBelow text k).toList := by
      cases htext : (textBelow text k).toList with
      | nil =>
        rw [toList_textBelow] at htext
        exact absurd (List.append_eq_nil_iff.mp htext).2 hk.1
      | cons c tail =>
        rw [htext] at hcons
        cases hcons
        exact List.mem_cons_self ..
    rcases (h.below hk hnew).bare _ hmem with hc | hc <;> exact absurd hc (by decide)
  rw [header?]
  · simp only [hkey, hopen, Option.bind_some, lineTail?_newline, Option.map_some]
  · exact hbracket

end Lines

section Writing

variable {plain rest : Table} {tables : List (String × Table)} {entries : Table} {k text : String}
  {v : Value} {n : Nat}

end Writing

section Reading

variable {path : List String} {text : String} {plug : Draft → Draft} {before : Draft}
  {plain : Table} {tables : List (String × Table)} {entries : Table} {n : Nat}

/-- A document that is read to its end is finished. -/
theorem Reads.document? {p p' : Progress} {s : String} (h : Reads p s p') :
    document? (s.toList.length + 1) p s.toList = some p'.root := by
  obtain ⟨steps, hle, hreads⟩ := h
  rw [← String.length_toList] at hle
  have hfuel : s.toList.length - steps + 1 + steps = s.toList.length + 1 := by omega
  have hread := hreads (s.toList.length - steps + 1) []
  rw [List.append_nil, hfuel] at hread
  rw [hread]
  rfl

end Reading

end CodeClones.Toml
