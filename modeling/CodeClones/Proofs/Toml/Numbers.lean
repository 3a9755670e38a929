import CodeClones.Proofs.Decimal.Nearest
import CodeClones.Proofs.Json.Compact
import CodeClones.Toml.Reader
import CodeClones.Toml.Writer

/-!
# Numbers that read back

A whole number in the range of 64 bits and every floating-point number are read from the text that
they are written as, where a line end or a comma stands behind.
-/

namespace CodeClones.Toml

open Decimal

/-- A value ends where a line ends, or at a comma. -/
inductive Ends : List Char → Prop where
  | line (rest : List Char) : Ends ('\n' :: rest)
  | comma (rest : List Char) : Ends (',' :: rest)

section Digits

variable {ds rest : List Char}

private theorem go_digits (before : List Char) (hds : ∀ c ∈ ds, c.isDigit)
    (hrest : ∀ c ∈ rest.head?, c.isDigit = false ∧ c ≠ '_') :
    digits?.go Char.isDigit before (ds ++ rest) = (before.reverse ++ ds, rest) := by
  induction ds generalizing before with
  | nil =>
    cases rest with
    | nil => simp [digits?.go]
    | cons c rest =>
      obtain ⟨hdigit, hlow⟩ := hrest c rfl
      rw [List.nil_append, digits?.go.eq_3 _ _ _ _ fun _ _ h => (hlow h).elim,
        if_neg (by simp [hdigit]), List.append_nil]
  | cons d ds ih =>
    have hd := hds d (List.mem_cons_self ..)
    have hlow : d ≠ '_' := by
      rintro rfl
      exact absurd hd (by decide)
    rw [List.cons_append, digits?.go.eq_3 _ _ _ _ fun _ _ h => (hlow h).elim, if_pos hd,
      ih (d :: before) fun c hc => hds c (List.mem_cons_of_mem _ hc)]
    simp

/-- Digits are taken up to what is none. -/
theorem digits?_append (hds : ∀ c ∈ ds, c.isDigit) (hne : ds ≠ [])
    (hrest : ∀ c ∈ rest.head?, c.isDigit = false ∧ c ≠ '_') :
    digits? Char.isDigit (ds ++ rest) = some (ds, rest) := by
  cases ds with
  | nil => exact absurd rfl hne
  | cons d ds =>
    rw [List.cons_append, digits?, if_pos (hds d (List.mem_cons_self ..)),
      go_digits [d] (fun c hc => hds c (List.mem_cons_of_mem _ hc)) hrest]
    rfl

/-- The digits of a whole number, where only zero starts with a zero. -/
structure WholeDigits (ds : List Char) : Prop where
  digit : ∀ c ∈ ds, c.isDigit
  head : ds = ['0'] ∨ ∃ c rest, ds = c :: rest ∧ c ≠ '0'

theorem WholeDigits.exists_head (hds : WholeDigits ds) : ∃ c more, ds = c :: more ∧ c.isDigit := by
  rcases hds.head with rfl | ⟨c, more, rfl, -⟩
  · exact ⟨'0', [], rfl, by decide⟩
  · exact ⟨c, more, rfl, hds.digit c (List.mem_cons_self ..)⟩

theorem wholeDigits?_append (hds : WholeDigits ds)
    (hrest : ∀ c ∈ rest.head?, c.isDigit = false ∧ c ≠ '_') :
    wholeDigits? (ds ++ rest) = some (ds, rest) := by
  rcases hds.head with rfl | ⟨c, tail, rfl, hc⟩
  · rfl
  · rw [List.cons_append, wholeDigits?.eq_2 _ fun _ h => hc (List.cons.inj h).1]
    exact digits?_append hds.digit (List.cons_ne_nil c tail) hrest

theorem Ends.head (h : Ends rest) : ∀ c ∈ rest.head?, c.isDigit = false ∧ c ≠ '_' := by
  cases h <;> simp

/-- No part of a number stands where a value ends. -/
theorem numberTail?_of_ends (h : Ends rest) : numberTail? rest = some ([], 0, false, rest) := by
  cases h <;> simp [numberTail?]

theorem numberTail?_fraction (hds : ∀ c ∈ ds, c.isDigit) (hne : ds ≠ []) (h : Ends rest) :
    numberTail? ('.' :: (ds ++ rest)) = some (ds, 0, true, rest) := by
  have hnonempty : ds.isEmpty = false := by simpa using hne
  simp only [numberTail?, digits?_append hds hne h.head, Option.bind_eq_bind, Option.bind_some,
    Option.pure_def]
  cases h <;> simp [hnonempty]

/-- Whole digits are taken as a whole number. -/
theorem decimal?_whole (negative : Bool) (hds : WholeDigits ds) (h : Ends rest) :
    decimal? negative (ds ++ rest) =
      (integerValue? (if negative then -(digitsValue ds : Int) else digitsValue ds)).map
        fun v => (v, rest) := by
  simp only [decimal?, wholeDigits?_append hds h.head, numberTail?_of_ends h, Option.bind_eq_bind,
    Option.bind_some, Option.pure_def]
  cases integerValue? (if negative then -(digitsValue ds : Int) else digitsValue ds) <;> rfl

/-- Digits with a fraction are taken as the number nearest to them. -/
theorem decimal?_fraction {negative : Bool} {fraction : List Char} {x : Float}
    (hds : WholeDigits ds) (hfraction : ∀ c ∈ fraction, c.isDigit) (hne : fraction ≠ [])
    (hx : nearest64 negative (digitsValue (ds ++ fraction)) (-fraction.length) = x)
    (hfinite : x.isInf = false) (h : Ends rest) :
    decimal? negative (ds ++ '.' :: (fraction ++ rest)) = some (.float x, rest) := by
  have hpoint : ∀ c ∈ ('.' :: (fraction ++ rest)).head?, c.isDigit = false ∧ c ≠ '_' := by simp
  simp only [decimal?, wholeDigits?_append hds hpoint, numberTail?_fraction hfraction hne h,
    Option.bind_eq_bind, Option.bind_some, Option.pure_def, zero_sub, hx, hfinite]
  simp

theorem digitsValue_append (ds rest : List Char) :
    digitsValue (ds ++ rest) =
      rest.foldl (fun n c => 10 * n + (c.toNat - '0'.toNat)) (digitsValue ds) :=
  List.foldl_append ..

/-- Zeros at the end count as powers of ten. -/
theorem digitsValue_append_zeros (ds : List Char) (n : Nat) :
    digitsValue (ds ++ List.replicate n '0') = digitsValue ds * 10 ^ n := by
  induction n with
  | zero => simp
  | succ n ih =>
    rw [List.replicate_succ', ← List.append_assoc, digitsValue_append, ih, Nat.pow_succ',
      Nat.mul_left_comm]
    simp only [List.foldl_cons, List.foldl_nil, Nat.sub_self, Nat.add_zero]

/-- Zeros at the front do not count. -/
theorem digitsValue_zeros_append (n : Nat) (ds : List Char) :
    digitsValue (List.replicate n '0' ++ ds) = digitsValue ds := by
  have hzeros : digitsValue (List.replicate n '0') = 0 := by
    simpa [digitsValue] using digitsValue_append_zeros [] n
  rw [digitsValue_append, hzeros]
  rfl

theorem digitsValue_toString (n : Nat) : digitsValue (toString n).toList = n := by
  change Nat.ofDigitChars 10 n.repr.toList 0 = n
  rw [Nat.toList_repr, Nat.ofDigitChars_toDigits (by decide) (by decide)]

theorem digitsValue_lt (hds : ∀ c ∈ ds, c.isDigit) : digitsValue ds < 10 ^ ds.length := by
  induction ds using List.reverseRecOn with
  | nil => decide
  | append_singleton ds c ih =>
    have hc : c.toNat ≤ 57 := by
      have hdigit := hds c (by simp)
      simp only [Char.isDigit, Bool.and_eq_true, decide_eq_true_eq] at hdigit
      exact hdigit.2
    have hlt := ih fun d hd => hds d (List.mem_append_left _ hd)
    rw [digitsValue_append, List.length_append, List.length_singleton, Nat.pow_succ]
    change 10 * digitsValue ds + (c.toNat - 48) < _
    omega

/-- Only zero is written with a zero at its front. -/
theorem wholeDigits_toString (n : Nat) : WholeDigits (toString n).toList := by
  refine ⟨fun c hc => Json.isDigit_of_mem_toString hc, ?_⟩
  have hdigit : ∀ c ∈ (toString n).toList, c.isDigit := fun c hc => Json.isDigit_of_mem_toString hc
  rcases Nat.eq_zero_or_pos n with rfl | hn
  · exact .inl rfl
  · have hvalue := digitsValue_toString n
    have hlength := ten_pow_length_le hn.ne'
    rw [← String.length_toList] at hlength
    cases htext : (toString n).toList with
    | nil =>
      rw [htext] at hvalue
      exact absurd hvalue hn.ne
    | cons c tail =>
      refine .inr ⟨c, tail, rfl, ?_⟩
      rintro rfl
      rw [htext] at hvalue hlength hdigit
      have hlt := digitsValue_lt fun d hd => hdigit d (List.mem_cons_of_mem _ hd)
      have hzero : digitsValue ('0' :: tail) = digitsValue tail := digitsValue_zeros_append 1 tail
      rw [List.length_cons, Nat.add_sub_cancel] at hlength
      omega

end Digits

section Decimals

variable {ds rest : List Char}

theorem WholeDigits.append_zeros {n : Nat} (hds : WholeDigits ds) (h : ds ≠ ['0'] ∨ n = 0) :
    WholeDigits (ds ++ List.replicate n '0') := by
  refine ⟨fun c hc => ?_, ?_⟩
  · rcases List.mem_append.mp hc with hc | hc
    · exact hds.digit c hc
    · rw [List.eq_of_mem_replicate hc]
      decide
  · rcases h with hne | rfl
    · obtain ⟨c, tail, rfl, hc⟩ := hds.head.resolve_left hne
      exact .inr ⟨c, tail ++ List.replicate n '0', rfl, hc⟩
    · simpa using hds.head

theorem WholeDigits.take {n : Nat} (hds : WholeDigits ds) (hn : 0 < n) :
    WholeDigits (ds.take n) := by
  obtain ⟨n, rfl⟩ := Nat.exists_eq_succ_of_ne_zero hn.ne'
  refine ⟨fun c hc => hds.digit c (List.mem_of_mem_take hc), ?_⟩
  rcases hds.head with rfl | ⟨c, tail, rfl, hc⟩
  · simp
  · exact .inr ⟨c, tail.take n, rfl, hc⟩

/-- A text of whole digits, a point and a fraction that stands for a decimal. -/
structure Spells (whole fraction : List Char) (d : Digits) : Prop where
  wholeDigits : WholeDigits whole
  isDigit : ∀ c ∈ fraction, c.isDigit
  ne_nil : fraction ≠ []
  /-- The digits may end in more zeros. -/
  value : ∃ n : Nat, digitsValue (whole ++ fraction) = d.digits * 10 ^ n ∧
    -(fraction.length : Int) = d.exponent - n

section Spells

variable {text : List Char} {d : Digits}

/-- A whole number is spelled with the zeros of its power of ten, and a zero behind the point. -/
theorem spells_whole (htext : WholeDigits text) (hvalue : digitsValue text = d.digits)
    (hexponent : 0 ≤ d.exponent) (hd : text ≠ ['0'] ∨ d.exponent.toNat = 0) :
    Spells (text ++ List.replicate d.exponent.toNat '0') ['0'] d where
  wholeDigits := htext.append_zeros hd
  isDigit := by simp
  ne_nil := by simp
  value := by
    refine ⟨d.exponent.toNat + 1, ?_, ?_⟩
    · rw [List.append_assoc, ← List.replicate_succ', digitsValue_append_zeros, hvalue]
    · rw [List.length_singleton]
      omega

/-- The point stands between the digits. -/
theorem spells_between (htext : WholeDigits text) (hvalue : digitsValue text = d.digits)
    (hexponent : d.exponent < 0) (hpoint : 0 < text.length + d.exponent) :
    Spells (text.take (text.length + d.exponent).toNat) (text.drop (text.length + d.exponent).toNat)
      d where
  wholeDigits := htext.take (by omega)
  isDigit c hc := htext.digit c (List.mem_of_mem_drop hc)
  ne_nil := by
    rw [ne_eq, List.drop_eq_nil_iff]
    omega
  value := by
    refine ⟨0, ?_, ?_⟩
    · rw [List.take_append_drop, hvalue, Nat.pow_zero, Nat.mul_one]
    · rw [List.length_drop]
      omega

/-- A number below one is spelled with zeros behind the point. -/
theorem spells_below_one (htext : WholeDigits text) (hvalue : digitsValue text = d.digits)
    (hpoint : text.length + d.exponent ≤ 0) :
    Spells ['0'] (List.replicate (-(text.length + d.exponent)).toNat '0' ++ text) d where
  wholeDigits := ⟨by simp, .inl rfl⟩
  isDigit c hc := by
    rcases List.mem_append.mp hc with hc | hc
    · rw [List.eq_of_mem_replicate hc]
      decide
    · exact htext.digit c hc
  ne_nil := by
    obtain ⟨c, more, rfl, -⟩ := htext.exists_head
    simp
  value := by
    refine ⟨0, ?_, ?_⟩
    · rw [← List.append_assoc, ← List.replicate_one, ← List.replicate_add, digitsValue_zeros_append,
        hvalue, Nat.pow_zero, Nat.mul_one]
    · rw [List.length_append, List.length_replicate]
      omega

end Spells

/-- Every decimal without needless zeros is spelled out. -/
theorem exists_spells {d : Digits} (hd : d.digits ≠ 0 ∨ d.exponent ≤ 0) :
    ∃ whole fraction, (positional true d).toList = whole ++ '.' :: fraction ∧
      Spells whole fraction d := by
  have htext := wholeDigits_toString d.digits
  have hvalue := digitsValue_toString d.digits
  have hlength : (toString d.digits).length = (toString d.digits).toList.length :=
    String.length_toList.symm
  rw [positional, hlength]
  split
  case isTrue hexponent =>
    refine ⟨_, _, by simp [zeros], spells_whole htext hvalue hexponent ?_⟩
    refine hd.imp (fun hne h => hne ?_) (by omega)
    rw [← hvalue, h]
    rfl
  case isFalse hexponent =>
    split
    case isTrue hpoint => exact ⟨_, _, by simp, spells_between htext hvalue (by omega) hpoint⟩
    case isFalse hpoint => exact ⟨_, _, by simp [zeros], spells_below_one htext hvalue (by omega)⟩

/-- A decimal that is spelled out is read as the number whose shortest decimal it is. -/
theorem nearest64_of_spells {x : Float} {negative : Bool} {m : Nat} {q : Int}
    {whole fraction : List Char} (hx : read64 x = .finite negative m q)
    (h : Spells whole fraction (shortest .double m q)) :
    nearest64 negative (digitsValue (whole ++ fraction)) (-fraction.length) = x := by
  obtain ⟨n, hvalue, hexponent⟩ := h.value
  rcases Nat.eq_zero_or_pos m with rfl | hm
  · have hzero : binaryOf negative (digitsValue (whole ++ fraction)) (-fraction.length) =
        .finite negative 0 0 := by
      have hdigits : digitsValue (whole ++ fraction) = 0 := by
        rw [hvalue]
        exact Nat.zero_mul _
      rw [binaryOf, if_pos (.inl hdigits)]
    rw [nearest64, hzero, Format.write_zero, ← Format.write_zero (q := q), ← hx]
    exact ofBits_write_read64 (by simp [hx])
  · have hholds := holds_shortest (f := .double) (q := q) hm.ne'
    rw [hvalue]
    refine nearest64_of_holds hx hm.ne' ?_ ?_
    · have hpos := List.length_pos_iff.mpr h.ne_nil
      omega
    · rw [hexponent, Interval.holds_ten_pow, hholds]

end Decimals

section Moments

variable {text rest : List Char}

theorem char?_eq_none {mark : Char} {s : List Char} (h : ∀ c ∈ s.head?, c ≠ mark) :
    char? mark s = none := by
  cases s with
  | nil => rfl
  | cons c s => rw [char?, if_neg (h c rfl)]

/-- No mark that does not occur stands behind the digits of a bounded number. -/
private theorem char?_bounded? {mark : Char} (n low high : Nat) (hmark : mark ∉ text)
    (hrest : ∀ c ∈ rest.head?, c.isDigit = false ∧ c ≠ mark) (hne : rest ≠ []) :
    (bounded? n low high (text ++ rest)).bind (fun found => char? mark found.2) = none := by
  obtain ⟨c, tail, rfl⟩ := List.exists_cons_of_ne_nil hne
  obtain ⟨hdigit, hc⟩ := hrest c rfl
  simp only [bounded?]
  split
  case isTrue hbounded =>
    -- the digits end within the text
    have hlength : n ≤ text.length := by
      by_contra hlt
      have hmem : c ∈ (text ++ c :: tail).take n := by
        rw [List.take_append]
        refine List.mem_append_right _ ?_
        rw [show n - text.length = (n - text.length - 1) + 1 by omega, List.take_succ_cons]
        exact List.mem_cons_self ..
      have hcdigit := List.all_eq_true.mp hbounded.2.1 c hmem
      rw [hdigit] at hcdigit
      cases hcdigit
    refine char?_eq_none fun d hd => ?_
    rw [List.drop_append_of_le_length hlength] at hd
    cases hdrop : text.drop n with
    | nil =>
      rw [hdrop] at hd
      cases hd
      exact hc
    | cons e after =>
      rw [hdrop] at hd
      cases hd
      rintro rfl
      exact hmark (List.mem_of_mem_drop (hdrop ▸ List.mem_cons_self ..))
  case isFalse => rfl

/-- What holds neither a dash nor a colon is no date and no time. -/
theorem moment?_eq_none (hdash : '-' ∉ text) (hcolon : ':' ∉ text) (h : Ends rest) :
    moment? (text ++ rest) = none := by
  have hne : rest ≠ [] := by cases h <;> exact List.cons_ne_nil _ _
  have hdate : date? (text ++ rest) = none := by
    have hyear := char?_bounded? 4 0 9999 hdash (by cases h <;> simp) hne
    simp only [date?, Option.bind_eq_bind]
    cases hbounded : bounded? 4 0 9999 (text ++ rest) with
    | none => rfl
    | some found =>
      rw [hbounded, Option.bind_some] at hyear
      rw [Option.bind_some, hyear, Option.bind_none]
  have htime : time? (text ++ rest) = none := by
    have hhour := char?_bounded? 2 0 23 hcolon (by cases h <;> simp) hne
    simp only [time?, Option.bind_eq_bind]
    cases hbounded : bounded? 2 0 23 (text ++ rest) with
    | none => rfl
    | some found =>
      rw [hbounded, Option.bind_some] at hhour
      rw [Option.bind_some, hhour, Option.bind_none]
  rw [moment?, hdate, htime]
  rfl

/-- A number with a sign is no date and no time. -/
theorem moment?_dash (s : List Char) : moment? ('-' :: s) = none := by
  have hbounded (n low high : Nat) : bounded? (n + 1) low high ('-' :: s) = none := by
    rw [bounded?, List.take_succ_cons]
    exact if_neg fun h => by simp at h
  simp only [moment?, date?, time?, hbounded, Option.bind_eq_bind, Option.bind_none,
    Option.map_none]

end Moments

section Texts

variable {ds tail : List Char}

/-- Whole digits are no mark of a base and no word. -/
theorem number?_digits (hds : WholeDigits ds)
    (htail : ∀ c ∈ tail.head?, c ≠ 'x' ∧ c ≠ 'o' ∧ c ≠ 'b') :
    number? (ds ++ tail) = decimal? false (ds ++ tail) ∧
      number? ('-' :: (ds ++ tail)) = decimal? true (ds ++ tail) := by
  obtain ⟨c, more, hcons, hc⟩ := hds.exists_head
  have hother {first : Char} {rest : List Char} (h : ds ++ tail = first :: rest)
      (hfirst : first.isDigit = false) : False := by
    rw [hcons] at h
    rw [← (List.cons.inj h).1, hc] at hfirst
    cases hfirst
  -- a mark behind a zero stands behind all the digits
  have hmark {mark : Char} {rest : List Char} (h : ds ++ tail = '0' :: mark :: rest) :
      mark ∈ tail.head? := by
    rcases hds.head with rfl | ⟨d, more, rfl, hd⟩
    · cases h
      rfl
    · exact absurd (List.cons.inj h).1 hd
  have hsign : takeSign (ds ++ tail) = (false, ds ++ tail) := by
    rw [takeSign.eq_3]
    · exact fun rest h => hother h (by decide)
    · exact fun rest h => hother h (by decide)
  constructor
  · rw [number?.eq_4]
    · simp only [hsign]
      split
      · rename_i h
        exact (hother h (by decide)).elim
      · rename_i h
        exact (hother h (by decide)).elim
      · rfl
    · exact fun rest h => (htail _ (hmark h)).1 rfl
    · exact fun rest h => (htail _ (hmark h)).2.1 rfl
    · exact fun rest h => (htail _ (hmark h)).2.2 rfl
  · rw [number?.eq_4]
    · simp only [takeSign]
      split
      · rename_i h
        exact (hother h (by decide)).elim
      · rename_i h
        exact (hother h (by decide)).elim
      · rfl
    all_goals simp

/-- The text of a number: it is no date, and the number is read from it. -/
structure NumberText (text : List Char) (v : Value) : Prop where
  head : ∃ c tail, text = c :: tail ∧ (c.isDigit ∨ c = '-' ∨ c = 'n' ∨ c = 'i')
  moment : ∀ rest, Ends rest → moment? (text ++ rest) = none
  number : ∀ rest, Ends rest → number? (text ++ rest) = some (v, rest)

theorem Ends.no_mark {rest : List Char} (h : Ends rest) :
    ∀ c ∈ rest.head?, c ≠ 'x' ∧ c ≠ 'o' ∧ c ≠ 'b' := by
  cases h <;> simp

theorem not_mem_of_isDigit {c : Char} (hds : ∀ d ∈ ds, d.isDigit) (hc : c.isDigit = false) :
    c ∉ ds := fun h => by
  rw [hds c h] at hc
  cases hc

/-- A whole number in range is read from its digits. -/
theorem numberText_integer {n : Int} (hlow : Int64.minValue.toInt ≤ n)
    (hhigh : n ≤ Int64.maxValue.toInt) : NumberText (toString n).toList (.integer n) := by
  have hvalue : integerValue? n = some (.integer n) := if_pos ⟨hlow, hhigh⟩
  rcases lt_or_ge n 0 with hneg | hpos
  · obtain ⟨k, rfl⟩ := Int.eq_negSucc_of_lt_zero hneg
    have hwhole := wholeDigits_toString (k + 1)
    have htext : (toString (Int.negSucc k)).toList = '-' :: (toString (k + 1)).toList :=
      String.toList_append
    rw [htext]
    refine ⟨⟨'-', _, rfl, .inr (.inl rfl)⟩, fun rest _ => moment?_dash _, fun rest hrest => ?_⟩
    rw [List.cons_append, (number?_digits hwhole hrest.no_mark).2, decimal?_whole true hwhole hrest,
      digitsValue_toString, if_pos rfl, show -((k + 1 : Nat) : Int) = Int.negSucc k from rfl,
      hvalue]
    rfl
  · obtain ⟨k, rfl⟩ := Int.eq_ofNat_of_zero_le hpos
    have hwhole := wholeDigits_toString k
    have htext : (toString (k : Int)).toList = (toString k).toList := rfl
    obtain ⟨c, more, hcons, hc⟩ := hwhole.exists_head
    rw [htext]
    refine ⟨⟨c, more, hcons, .inl hc⟩, fun rest hrest => moment?_eq_none ?_ ?_ hrest,
      fun rest hrest => ?_⟩
    · exact not_mem_of_isDigit hwhole.digit (by decide)
    · exact not_mem_of_isDigit hwhole.digit (by decide)
    · rw [(number?_digits hwhole hrest.no_mark).1, decimal?_whole false hwhole hrest,
        digitsValue_toString, if_neg Bool.false_ne_true, hvalue]
      rfl

/-- A word behind an optional sign. -/
theorem numberText_word {negative : Bool} {word : List Char} {v : Value}
    (hword : ∃ c tail, word = c :: tail ∧ (c = 'n' ∨ c = 'i')) (hdash : '-' ∉ word)
    (hcolon : ':' ∉ word)
    (hnumber : ∀ rest, number? ((signText negative).toList ++ word ++ rest) = some (v, rest)) :
    NumberText ((signText negative).toList ++ word) v := by
  refine ⟨?_, fun rest hrest => ?_, fun rest _ => hnumber rest⟩
  · cases negative with
    | true => exact ⟨'-', word, rfl, .inr (.inl rfl)⟩
    | false =>
      obtain ⟨c, tail, rfl, hc⟩ := hword
      exact ⟨c, tail, rfl, .inr (.inr hc)⟩
  · cases negative with
    | true => exact moment?_dash _
    | false => exact moment?_eq_none hdash hcolon hrest

theorem digits_shortest {m : Nat} {q : Int} :
    (shortest .double m q).digits ≠ 0 ∨ (shortest .double m q).exponent ≤ 0 := by
  rcases Nat.eq_zero_or_pos m with rfl | hm
  · exact .inr (le_refl 0)
  · exact .inl (digits_ne_zero_of_holds hm.ne' (holds_shortest hm.ne'))

/-- Every floating-point number is read from its text. -/
theorem numberText_float (x : Float) : NumberText (floatText x).toList (.float x) := by
  rw [floatText]
  cases hx : read64 x with
  | notNumber =>
    refine @numberText_word false "nan".toList _ ⟨'n', _, rfl, .inl rfl⟩ (by decide) (by decide)
      fun rest => ?_
    rw [eq_of_read64_eq_notNumber hx]
    rfl
  | infinite negative =>
    rw [String.toList_append]
    refine numberText_word ⟨'i', _, rfl, .inr rfl⟩ (by decide) (by decide) fun rest => ?_
    have hbits : Float.ofBits (Format.double.write (.infinite negative)).toUInt64 = x := by
      rw [← hx]
      exact ofBits_write_read64 (by simp [hx])
    cases negative <;> exact congrArg (fun x => some (Value.float x, rest)) hbits
  | finite negative m q =>
    obtain ⟨whole, fraction, htext, hspells⟩ := exists_spells (digits_shortest (m := m) (q := q))
    have hnearest := nearest64_of_spells hx hspells
    have hdecimal {rest : List Char} (hrest : Ends rest) :=
      decimal?_fraction hspells.wholeDigits hspells.isDigit hspells.ne_nil hnearest
        (isInf_of_read64 hx) hrest
    simp only [String.toList_append, htext]
    have hpoint (rest : List Char) : ∀ c ∈ ('.' :: rest).head?, c ≠ 'x' ∧ c ≠ 'o' ∧ c ≠ 'b' := by
      simp
    cases negative with
    | true =>
      refine ⟨⟨'-', _, rfl, .inr (.inl rfl)⟩, fun rest _ => moment?_dash _, fun rest hrest => ?_⟩
      have hnumber := (number?_digits hspells.wholeDigits (hpoint (fraction ++ rest))).2
      rw [hdecimal hrest] at hnumber
      simpa [signText] using hnumber
    | false =>
      obtain ⟨c, more, hcons, hc⟩ := hspells.wholeDigits.exists_head
      refine ⟨⟨c, more ++ '.' :: fraction, by simp [signText, hcons], .inl hc⟩,
        fun rest hrest => moment?_eq_none ?_ ?_ hrest, fun rest hrest => ?_⟩
      · simp [signText, not_mem_of_isDigit hspells.wholeDigits.digit,
          not_mem_of_isDigit hspells.isDigit]
      · simp [signText, not_mem_of_isDigit hspells.wholeDigits.digit,
          not_mem_of_isDigit hspells.isDigit]
      · have hnumber := (number?_digits hspells.wholeDigits (hpoint (fraction ++ rest))).1
        rw [hdecimal hrest] at hnumber
        simpa [signText] using hnumber

end Texts

end CodeClones.Toml
