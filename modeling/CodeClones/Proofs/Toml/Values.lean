import CodeClones.Proofs.Toml.Numbers

/-!
# Values that read back

Strings, numbers, truth values, and arrays of such values are read from the text that they are
written as, where a line end or a comma stands behind.
-/

namespace CodeClones.Toml

section Strings

variable {rest : List Char}

theorem charOf?_toNat (c : Char) : charOf? c.toNat = some c := by
  have hvalid : c.toNat.isValidChar := c.valid
  rw [charOf?, if_pos hvalid, Char.ofNat_toNat]

/-- Two digits of base sixteen stand for a number below 256. -/
theorem hexValue?_hexDigits (n : Nat) (hn : n < 128) :
    hexValue? ['0', '0', Digest.hexDigit (n.toUInt8 >>> 4), Digest.hexDigit (n.toUInt8 &&& 15)] =
      some n := by
  revert n
  decide +kernel

/-- A character stands in a string as it is, or is escaped so that it is read back. -/
theorem escapeChar_cases (c : Char) :
    (escapeChar c = [c] ∧ isTextChar c ∧ c ≠ '"' ∧ c ≠ '\\') ∨
      ∃ code, escapeChar c = '\\' :: code ∧ ∀ rest, escaped? (code ++ rest) = some (c, rest) := by
  rw [escapeChar]
  split_ifs with hquote hslash hnewline hreturn htab hcontrol
  · exact .inr ⟨_, rfl, fun rest => by rw [hquote]; rfl⟩
  · exact .inr ⟨_, rfl, fun rest => by rw [hslash]; rfl⟩
  · exact .inr ⟨_, rfl, fun rest => by rw [hnewline]; rfl⟩
  · exact .inr ⟨_, rfl, fun rest => by rw [hreturn]; rfl⟩
  · exact .inr ⟨_, rfl, fun rest => by rw [htab]; rfl⟩
  · have hvalue : (hexValue? ['0', '0', Digest.hexDigit (c.toNat.toUInt8 >>> 4),
        Digest.hexDigit (c.toNat.toUInt8 &&& 15)]).bind charOf? = some c := by
      rw [hexValue?_hexDigits c.toNat (by omega), Option.bind_some, charOf?_toNat]
    refine .inr ⟨_, rfl, fun rest => ?_⟩
    rw [List.cons_append, escaped?, escaped?.code, if_neg (by simp)]
    exact congrArg (Option.map fun c => (c, rest)) hvalue
  · refine .inl ⟨rfl, ?_, hquote, hslash⟩
    simp only [isTextChar, isCommentChar, Bool.or_eq_true, Bool.and_eq_true, decide_eq_true_eq,
      bne_iff_ne]
    omega

/-- The characters of a string are taken up to the closing quote. -/
theorem lineString?_escaped {fuel : Nat} {before s : List Char} (hfuel : s.length < fuel) :
    lineString? true '"' fuel before (s.flatMap escapeChar ++ '"' :: rest) =
      some (String.ofList (before.reverse ++ s), rest) := by
  induction s generalizing fuel before with
  | nil =>
    obtain ⟨fuel, rfl⟩ := Nat.exists_eq_add_of_lt hfuel
    simp [lineString?]
  | cons c s ih =>
    obtain ⟨fuel, rfl⟩ : ∃ n, fuel = n + 1 := Nat.exists_eq_succ_of_ne_zero (by omega)
    have hshort : s.length < fuel := by simpa using hfuel
    rw [List.flatMap_cons, List.append_assoc]
    rcases escapeChar_cases c with ⟨hself, htext, hquote, hslash⟩ | ⟨code, hcode, hread⟩
    · rw [hself, List.singleton_append, lineString?, if_neg hquote, if_neg fun h => hslash h.1,
        if_pos htext, ih hshort, List.reverse_cons, List.append_assoc]
      rfl
    · rw [hcode, List.cons_append, lineString?, if_neg (by decide), if_pos ⟨rfl, rfl⟩, hread]
      change lineString? true '"' fuel (c :: before) (s.flatMap escapeChar ++ '"' :: rest) = _
      rw [ih hshort, List.reverse_cons, List.append_assoc]
      rfl

theorem length_le_flatMap_escapeChar (s : List Char) :
    s.length ≤ (s.flatMap escapeChar).length := by
  induction s with
  | nil => exact le_refl _
  | cons c s ih =>
    have hpos : 0 < (escapeChar c).length := by
      rcases escapeChar_cases c with ⟨h, -⟩ | ⟨code, h, -⟩ <;> rw [h] <;> exact Nat.zero_lt_succ _
    rw [List.flatMap_cons, List.length_append, List.length_cons]
    omega

/-- A string is read from its text. -/
theorem string?_quoted (s : String) (h : Ends rest) :
    string? ((quoted s).toList ++ rest) = some (s, rest) := by
  have hline : lineString? true '"' ((s.toList.flatMap escapeChar ++ '"' :: rest).length + 1) []
      (s.toList.flatMap escapeChar ++ '"' :: rest) = some (s, rest) := by
    rw [lineString?_escaped]
    · simp
    · have hle := length_le_flatMap_escapeChar s.toList
      rw [List.length_append]
      omega
  have htext : (quoted s).toList ++ rest = '"' :: (s.toList.flatMap escapeChar ++ '"' :: rest) := by
    simp [quoted]
  rw [htext, string?.eq_3, hline]
  -- three marks would begin a string over several lines
  intro more hmarks
  cases hs : s.toList with
  | nil =>
    rw [hs] at hmarks
    cases h <;> simp at hmarks
  | cons c tail =>
    rw [hs, List.flatMap_cons, List.append_assoc] at hmarks
    rcases escapeChar_cases c with ⟨hself, -, hquote, -⟩ | ⟨code, hcode, -⟩
    · rw [hself] at hmarks
      exact hquote (List.cons.inj hmarks).1
    · rw [hcode] at hmarks
      simp at hmarks

end Strings

section Lines

variable {fuel : Nat} {c : Char} {s : List Char}

/-- Blanks in front of the lines do not matter. -/
theorem skipLines?_blank (hc : isBlank c) : skipLines? fuel (c :: s) = skipLines? fuel s := by
  cases fuel with
  | zero => rfl
  | succ fuel => rw [skipLines?, skipLines?, skipBlanks, List.dropWhile_cons_of_pos hc, skipBlanks]

theorem skipLines?_newline : skipLines? (fuel + 1) ('\n' :: s) = skipLines? fuel s := rfl

/-- Other text is left. -/
theorem skipLines?_of_head (hc : c ∉ [' ', '\t', '#', '\n', '\r']) :
    skipLines? (fuel + 1) (c :: s) = some (c :: s) := by
  simp only [List.mem_cons, List.not_mem_nil, or_false, not_or] at hc
  obtain ⟨hspace, htab, hhash, hnewline, hreturn⟩ := hc
  have hblank : isBlank c = false := by simp [isBlank, hspace, htab]
  have hline : lineEnd? (c :: s) = none := by
    rw [lineEnd?]
    · exact fun rest h => hnewline (List.cons.inj h).1
    · exact fun rest h => hreturn (List.cons.inj h).1
  rw [skipLines?, skipBlanks, List.dropWhile_cons_of_neg (by simp [hblank])]
  split
  · rename_i h
    exact absurd (List.cons.inj h).1 hhash
  · rw [hline]

end Lines

/-- A text that neither lines nor the end of an array begin. -/
def Begins (s : List Char) : Prop := ∃ c tail, s = c :: tail ∧ c ∉ [' ', '\t', '#', '\n', '\r', ']']

theorem NumberText.begins {text : List Char} {v : Value} (h : NumberText text v) : Begins text := by
  obtain ⟨c, tail, rfl, hc⟩ := h.head
  refine ⟨c, tail, rfl, fun hmem => ?_⟩
  rcases hc with hc | rfl | rfl | rfl
  · simp only [List.mem_cons, List.not_mem_nil, or_false] at hmem
    rcases hmem with rfl | rfl | rfl | rfl | rfl | rfl <;> exact absurd hc (by decide)
  all_goals exact absurd hmem (by decide)

/-- A number is no other kind of value. -/
theorem NumberText.value? {text rest : List Char} {v : Value} {fuel depth : Nat}
    (h : NumberText text v) (hrest : Ends rest) :
    value? (fuel + 1) depth (text ++ rest) = some (v, rest) := by
  have hmoment := h.moment rest hrest
  have hnumber := h.number rest hrest
  obtain ⟨c, tail, rfl, hc⟩ := h.head
  have hne {mark : Char} {more : List Char}
      (hmark : mark.isDigit = false ∧ mark ≠ '-' ∧ mark ≠ 'n' ∧ mark ≠ 'i')
      (hcons : c :: tail ++ rest = mark :: more) : False := by
    rw [(List.cons.inj hcons).1] at hc
    simp [hmark] at hc
  rw [Toml.value?.eq_8, hmoment, hnumber]
  all_goals exact fun _ => hne (by decide)

/-- A value without tables and dates, with whole numbers in the range of 64 bits, and arrays at most
`n` deep. -/
inductive Value.Simple : Nat → Value → Prop where
  | string {n : Nat} (s : String) : Simple n (.string s)
  | integer {n : Nat} (i : Int) (low : Int64.minValue.toInt ≤ i) (high : i ≤ Int64.maxValue.toInt) :
      Simple n (.integer i)
  | float {n : Nat} (x : Float) : Simple n (.float x)
  | bool {n : Nat} (b : Bool) : Simple n (.bool b)
  | array {n : Nat} (items : List Value) (simple : ∀ v ∈ items, Simple n v) :
      Simple (n + 1) (.array items)

section Arrays

variable {fuel depth n : Nat} {before items : List Value} {v : Value} {rest : List Char}

theorem Value.Simple.begins (h : v.Simple n) : Begins v.text.toList := by
  cases h with
  | string s =>
    rw [text, quoted, String.toList_ofList]
    exact ⟨'"', _, rfl, by decide⟩
  | integer i low high => exact (numberText_integer low high).begins
  | float x => exact (numberText_float x).begins
  | bool b => cases b <;> exact ⟨_, _, rfl, by decide⟩
  | array items =>
    cases items with
    | nil => exact ⟨'[', _, rfl, by decide⟩
    | cons v items =>
      rw [text, String.toList_append, String.toList_append]
      exact ⟨'[', _, rfl, by decide⟩

/-- One step of reading an array: an item on a line of its own. -/
theorem items?_cons {line tail : List Char} (hline : Begins line)
    (hvalue : value? fuel depth (line ++ ',' :: tail) = some (v, ',' :: tail)) :
    items? (fuel + 1) depth before ('\n' :: ' ' :: ' ' :: ' ' :: ' ' :: (line ++ ',' :: tail)) =
      items? fuel depth (v :: before) tail := by
  obtain ⟨c, more, rfl, hc⟩ := hline
  have hstart : c ∉ [' ', '\t', '#', '\n', '\r'] := fun h => hc (by simp at h ⊢; tauto)
  have hlines {n : Nat} : skipLines? (n + 1 + 1)
      ('\n' :: ' ' :: ' ' :: ' ' :: ' ' :: (c :: more ++ ',' :: tail)) =
        some (c :: more ++ ',' :: tail) := by
    rw [skipLines?_newline, skipLines?_blank (by decide), skipLines?_blank (by decide),
      skipLines?_blank (by decide), skipLines?_blank (by decide), List.cons_append,
      skipLines?_of_head hstart]
  have hcomma {n : Nat} : skipLines? (n + 1) (',' :: tail) = some (',' :: tail) :=
    skipLines?_of_head (by decide)
  rw [items?, List.length_cons, hlines]
  split
  · rename_i h
    cases h
    exact absurd (by decide) hc
  · rename_i h
    cases h
    rw [hvalue]
    simp only [List.length_cons, hcomma]
  · rename_i h
    cases h

theorem items?_end (hbefore : before = items.reverse) :
    items? (fuel + 1) depth before ('\n' :: ']' :: rest) = some (.array items, rest) := by
  rw [items?, List.length_cons, skipLines?_newline, List.length_cons,
    skipLines?_of_head (by decide), hbefore]
  simp only [List.reverse_reverse]

/-- The items of an array are read from their lines if each is read from its text. -/
theorem items?_itemLines
    (hitems : ∀ v ∈ items, Begins v.text.toList ∧ ∀ fuel rest, v.text.length ≤ fuel → Ends rest →
      value? (fuel + 1) depth (v.text.toList ++ rest) = some (v, rest))
    (hfuel : (itemLines items).length ≤ fuel) :
    items? (fuel + 1) depth before ('\n' :: ((itemLines items).toList ++ ']' :: rest)) =
      some (.array (before.reverse ++ items), rest) := by
  induction items generalizing fuel before with
  | nil => exact items?_end (by simp)
  | cons v items ih =>
    obtain ⟨hbegins, hvalue⟩ := hitems v (List.mem_cons_self ..)
    have hlength : (itemLines (v :: items)).length =
        v.text.length + (itemLines items).length + 6 := by
      simp only [itemLines, String.length_append]
      have hindent : "    ".length = 4 := by decide
      have hcomma : ",\n".length = 2 := by decide
      omega
    obtain ⟨fuel, rfl⟩ : ∃ n, fuel = n + 1 := Nat.exists_eq_succ_of_ne_zero (by omega)
    have hline : (itemLines (v :: items)).toList ++ ']' :: rest = ' ' :: ' ' :: ' ' :: ' ' ::
        (v.text.toList ++ ',' :: '\n' :: ((itemLines items).toList ++ ']' :: rest)) := by
      simp [itemLines]
    rw [hline, items?_cons hbegins (hvalue fuel _ (by omega) (.comma _)),
      ih (fun w hw => hitems w (List.mem_cons_of_mem _ hw)) (by omega), List.reverse_cons,
      List.append_assoc]
    rfl

/-- A simple value is read from its text. -/
theorem Value.Simple.value? (h : v.Simple n) (hdepth : depth + n < depthLimit)
    (hfuel : v.text.length ≤ fuel) (hrest : Ends rest) :
    value? (fuel + 1) depth (v.text.toList ++ rest) = some (v, rest) := by
  induction h generalizing depth fuel rest with
  | string s =>
    have hread := string?_quoted s hrest
    have htext : (quoted s).toList = '"' :: (s.toList.flatMap escapeChar ++ ['"']) := by
      simp [quoted]
    rw [htext, List.cons_append] at hread
    rw [text, htext, List.cons_append, Toml.value?.eq_2, hread]
    rfl
  | integer i low high => exact (numberText_integer low high).value? hrest
  | float x => exact (numberText_float x).value? hrest
  | bool b => cases b <;> rfl
  | @array n items simple ih =>
    have hopen (s : List Char) :
        Toml.value? (fuel + 1) depth ('[' :: s) = items? fuel (depth + 1) [] s := by
      rw [Toml.value?.eq_4, if_neg (by omega)]
    cases items with
    | nil =>
      have hlength : 2 ≤ fuel := hfuel
      obtain ⟨fuel, rfl⟩ : ∃ n, fuel = n + 1 := Nat.exists_eq_succ_of_ne_zero (by omega)
      have htext : (Value.array []).text.toList ++ rest = '[' :: ']' :: rest := by simp [text]
      rw [htext, hopen, items?, skipLines?_of_head (by decide)]
      rfl
    | cons v items =>
      have htext : (Value.array (v :: items)).text.toList ++ rest =
          '[' :: '\n' :: ((itemLines (v :: items)).toList ++ ']' :: rest) := by simp [text]
      have hlength : (itemLines (v :: items)).length < fuel := by
        rw [text, String.length_append, String.length_append] at hfuel
        have hbracket : "]".length = 1 := by decide
        omega
      obtain ⟨fuel, rfl⟩ : ∃ n, fuel = n + 1 := Nat.exists_eq_succ_of_ne_zero (by omega)
      rw [htext, hopen, items?_itemLines (fun w hw => ⟨(simple w hw).begins,
        fun fuel rest hfuel hrest => ih w hw (by omega) hfuel hrest⟩) (by omega)]
      rfl

end Arrays

end CodeClones.Toml
