import CodeClones.Json.Writer
import Mathlib.Data.List.Basic

/-!
# Bars in compact texts

Read byte by byte, a compact text starts and ends outside of its strings, and a bar stands only
inside of one of them. What follows a bar of a compact text therefore starts inside of a string and
ends outside, which no compact text does: the quotes of one that close strings open them in the
other.
-/

namespace CodeClones.Json

section Bytes

theorem toList_eq_toList_data (bytes : ByteArray) : bytes.toList = bytes.data.toList := by
  -- the loop has collected the bytes before `i`
  have hloop : ∀ i r, ByteArray.toList.loop bytes i r = r.reverse ++ bytes.data.toList.drop i := by
    intro i r
    fun_induction ByteArray.toList.loop bytes i r with
    | case1 i r hi ih =>
      have hget : bytes.get! i = bytes.data.toList.get ⟨i, hi⟩ := by
        rw [ByteArray.get!, getElem!_pos bytes.data i hi, List.get_eq_getElem,
          Array.getElem_toList]
      rw [ih, hget, List.reverse_cons, List.append_assoc, List.singleton_append,
        List.get_eq_getElem, ← List.drop_eq_getElem_cons]
    | case2 i r hi =>
      rw [List.drop_eq_nil_of_le (Nat.le_of_not_lt hi), List.append_nil]
  rw [ByteArray.toList, hloop]
  rfl

/-- The bytes of a text are those of its characters. -/
theorem toList_toUTF8 (s : String) :
    s.toUTF8.toList = s.toList.flatMap String.utf8EncodeChar := by
  have hencode : ∀ l : List Char,
      l.utf8Encode.data.toList = l.flatMap String.utf8EncodeChar := by
    intro l
    induction l with
    | nil => rfl
    | cons c l ih =>
      rw [List.utf8Encode_cons, ByteArray.toList_data_append, ih, List.utf8Encode_singleton,
        List.toList_data_toByteArray, List.flatMap_cons]
  rw [toList_eq_toList_data, ← hencode, String.utf8Encode_toList]
  rfl

theorem toList_toUTF8_append (s t : String) :
    (s ++ t).toUTF8.toList = s.toUTF8.toList ++ t.toUTF8.toList := by
  rw [toList_toUTF8, toList_toUTF8, toList_toUTF8, String.toList_append, List.flatMap_append]

/-- Texts can be told apart by their bytes. -/
theorem eq_of_toUTF8_toList {s s' : String} (h : s.toUTF8.toList = s'.toUTF8.toList) : s = s' := by
  rw [toList_eq_toList_data, toList_eq_toList_data, Array.toList_inj] at h
  exact String.toByteArray_inj.mp (ByteArray.ext h)

/-- A byte below 128 of a character is all of the character. -/
theorem toNat_eq_of_mem_utf8EncodeChar {c : Char} {b : UInt8} (hb : b ∈ String.utf8EncodeChar c)
    (hlow : b.toNat < 128) : c.toNat = b.toNat := by
  have hc : c.toNat = c.val.toNat := rfl
  rw [String.utf8EncodeChar] at hb
  split_ifs at hb
  · rw [List.mem_singleton.mp hb, UInt8.toNat_ofNat']
    omega
  all_goals
    simp only [List.mem_cons, List.not_mem_nil, or_false] at hb
    rcases hb with rfl | rfl | rfl | rfl <;> rw [UInt8.toNat_ofNat'] at hlow <;> omega

/-- A character with the byte of an ASCII character is that character. -/
theorem eq_of_mem_utf8EncodeChar {c d : Char} (hd : d.toNat < 128)
    (hb : d.toNat.toUInt8 ∈ String.utf8EncodeChar c) : c = d := by
  have hbyte : d.toNat.toUInt8.toNat = d.toNat :=
    UInt8.toNat_ofNat_of_lt' (Nat.lt_trans hd (by decide))
  have hc := toNat_eq_of_mem_utf8EncodeChar hb (by rwa [hbyte])
  exact Char.toNat_inj.mp (hc.trans hbyte)

end Bytes

/-- Where a byte of a text stands. -/
inductive Place where
  | outside
  | inside
  /-- Inside of a string and behind a backslash. -/
  | escaped

namespace Place

/-- The place behind a byte (34 is a quote, 92 a backslash and 124 a bar), or nothing where no
compact text has such a byte. -/
def next? : Place → UInt8 → Option Place
  | outside, b => if b = 34 then some inside else if b = 92 ∨ b = 124 then none else some outside
  | inside, b => if b = 34 then some outside else if b = 92 then some escaped else some inside
  | escaped, b => if b = 124 then none else some inside

/-- One of two places is outside of the strings and the other one inside. -/
def Opposite (p q : Place) : Prop := p = outside ∧ q = inside ∨ p = inside ∧ q = outside

theorem Opposite.symm {p q : Place} (h : p.Opposite q) : q.Opposite p :=
  (Or.symm h).imp And.symm And.symm

/-- A bar stands inside of a string. -/
theorem eq_of_next?_bar {p q : Place} (h : p.next? 124 = some q) : p = inside ∧ q = inside := by
  cases p with
  | outside => cases h
  | inside => exact ⟨rfl, (Option.some.inj h).symm⟩
  | escaped => cases h

/-- A quote moves both of two opposite places, and no other byte moves one of them. -/
theorem Opposite.next? {p q p' q' : Place} {b : UInt8} (h : p.Opposite q)
    (hp : p.next? b = some p') (hq : q.next? b = some q') : p'.Opposite q' := by
  -- the places can be swapped, so that the first one may be taken to be outside
  wlog hout : p = outside ∧ q = inside generalizing p q p' q'
  · exact (this h.symm hq hp (h.symm.resolve_right fun h' => hout h'.symm)).symm
  obtain ⟨rfl, rfl⟩ := hout
  by_cases hquote : b = 34
  · subst hquote
    cases hp
    cases hq
    exact Or.inr ⟨rfl, rfl⟩
  · simp only [Place.next?, if_neg hquote] at hp hq
    split_ifs at hp hq with hbar hslash
    · exact absurd (Or.inl hslash) hbar
    · cases hp
      cases hq
      exact Or.inl ⟨rfl, rfl⟩

end Place

/-- Bytes that lead from one place to another. -/
def Leads (bytes : List UInt8) (p q : Place) : Prop := bytes.foldlM Place.next? p = some q

namespace Leads

variable {s t : List UInt8} {b : UInt8} {p q r p' q' : Place}

theorem nil : Leads [] p p := rfl

theorem cons_iff : Leads (b :: s) p r ↔ ∃ q, p.next? b = some q ∧ Leads s q r := by
  rw [Leads, List.foldlM_cons, Option.bind_eq_bind, Option.bind_eq_some_iff]
  rfl

theorem append_iff : Leads (s ++ t) p r ↔ ∃ q, Leads s p q ∧ Leads t q r := by
  rw [Leads, List.foldlM_append, Option.bind_eq_bind, Option.bind_eq_some_iff]
  rfl

theorem append (hs : Leads s p q) (ht : Leads t q r) : Leads (s ++ t) p r :=
  append_iff.mpr ⟨q, hs, ht⟩

/-- Bytes each of which stays at a place do so together. -/
theorem stay (h : ∀ b ∈ s, p.next? b = some p) : Leads s p p := by
  induction s with
  | nil => exact nil
  | cons b s ih =>
    exact cons_iff.mpr ⟨p, h b (List.mem_cons_self ..),
      ih fun c hc => h c (List.mem_cons_of_mem b hc)⟩

/-- The same bytes lead from opposite places to opposite places. -/
theorem opposite (hs : Leads s p p') (hs' : Leads s q q') (h : p.Opposite q) :
    p'.Opposite q' := by
  induction s generalizing p q with
  | nil =>
    cases hs
    cases hs'
    exact h
  | cons b s ih =>
    obtain ⟨p₁, hp, hs⟩ := cons_iff.mp hs
    obtain ⟨q₁, hq, hs'⟩ := cons_iff.mp hs'
    exact ih hs hs' (h.next? hp hq)

end Leads

/-- Bytes that start and end outside of the strings, with bars inside of them only. -/
def Closed (bytes : List UInt8) : Prop := Leads bytes .outside .outside

/-- What follows a bar of closed bytes is not closed. -/
theorem Closed.ne_append_bar_cons {s t : List UInt8} (hs : Closed s) (ht : Closed t)
    (front : List UInt8) : s ≠ front ++ 124 :: t := by
  rintro rfl
  obtain ⟨p, -, hrest⟩ := Leads.append_iff.mp hs
  obtain ⟨q, hbar, hinside⟩ := Leads.cons_iff.mp hrest
  rw [(Place.eq_of_next?_bar hbar).2] at hinside
  rcases ht.opposite hinside (Or.inl ⟨rfl, rfl⟩) with ⟨-, hin⟩ | ⟨hin, -⟩ <;> cases hin

section Texts

theorem Closed.append {s t : String} (hs : Closed s.toUTF8.toList) (ht : Closed t.toUTF8.toList) :
    Closed (s ++ t).toUTF8.toList := by
  rw [toList_toUTF8_append]
  exact Leads.append hs ht

/-- A character that is neither a quote nor a backslash stays inside of a string. -/
theorem leads_inside {c : Char} (hquote : c ≠ '"') (hslash : c ≠ '\\') :
    Leads (String.utf8EncodeChar c) .inside .inside := by
  refine Leads.stay fun b hb => ?_
  have h₁ : b ≠ 34 := by
    rintro rfl
    exact hquote (eq_of_mem_utf8EncodeChar (by decide) hb)
  have h₂ : b ≠ 92 := by
    rintro rfl
    exact hslash (eq_of_mem_utf8EncodeChar (by decide) hb)
  rw [Place.next?, if_neg h₁, if_neg h₂]

theorem toNat_ofNat_of_lt {n : Nat} (hn : n < 0xd800) : (Char.ofNat n).toNat = n := by
  rw [Char.ofNat, dif_pos (Or.inl hn)]
  rfl

/-- A hexadecimal digit stays inside of a string. -/
theorem leads_hexDigit (n : UInt8) :
    Leads (String.utf8EncodeChar (Digest.hexDigit n)) .inside .inside := by
  have hn := n.toNat_lt
  have hdigit : (Digest.hexDigit n).toNat = 48 + n.toNat ∧ n.toNat < 10 ∨
      (Digest.hexDigit n).toNat = 87 + n.toNat ∧ 10 ≤ n.toNat := by
    rw [Digest.hexDigit]
    split_ifs with hten
    · exact Or.inl ⟨toNat_ofNat_of_lt (by omega), UInt8.lt_iff_toNat_lt.mp hten⟩
    · exact Or.inr ⟨toNat_ofNat_of_lt (by omega),
        Nat.le_of_not_lt (UInt8.lt_iff_toNat_lt.not.mp hten)⟩
  have hne : ∀ c : Char, c.toNat < 48 ∨ 57 < c.toNat ∧ c.toNat < 97 → Digest.hexDigit n ≠ c := by
    rintro c hc rfl
    omega
  exact leads_inside (hne '"' (by decide)) (hne '\\' (by decide))

/-- What stands for a character inside of a string ends inside of it. -/
theorem leads_escapeChar (c : Char) :
    Leads ((escapeChar c).flatMap String.utf8EncodeChar) .inside .inside := by
  rw [escapeChar]
  split_ifs with hquote hslash
  all_goals try exact rfl
  · exact Leads.append (s := [92, 117, 48, 48]) rfl
      ((leads_hexDigit _).append ((leads_hexDigit _).append Leads.nil))
  · rw [List.flatMap_singleton]
    exact leads_inside hquote hslash

/-- A string with its quotes starts and ends outside. -/
theorem closed_quoted (s : String) : Closed (quoted s).toUTF8.toList := by
  have hinside : ∀ l : List Char,
      Leads ((l.flatMap escapeChar).flatMap String.utf8EncodeChar) .inside .inside := by
    intro l
    induction l with
    | nil => exact Leads.nil
    | cons c l ih =>
      rw [List.flatMap_cons, List.flatMap_append]
      exact (leads_escapeChar c).append ih
  have hopen : Leads (String.utf8EncodeChar '"') .outside .inside := rfl
  have hclose : Leads (String.utf8EncodeChar '"') .inside .outside := rfl
  rw [toList_toUTF8, quoted, String.toList_ofList, List.flatMap_append, List.flatMap_cons,
    List.flatMap_singleton]
  exact (hopen.append (hinside s.toList)).append hclose

theorem isDigit_of_mem_toString {n : Nat} {c : Char} (hc : c ∈ (toString n).toList) :
    c.isDigit := by
  rw [show toString n = n.repr from rfl, Nat.toList_repr] at hc
  exact Nat.isDigit_of_mem_toDigits (by decide) (by decide) hc

/-- The texts whose characters may stand outside of the strings. -/
def Bare (s : String) : Prop := ∀ c ∈ s.toList, c ≠ '"' ∧ c ≠ '\\' ∧ c ≠ '|'

instance : DecidablePred Bare := fun s => List.decidableBAll _ s.toList

namespace Bare

variable {s t : String}

theorem closed (h : Bare s) : Closed s.toUTF8.toList := by
  rw [toList_toUTF8]
  refine Leads.stay fun b hb => ?_
  obtain ⟨c, hc, hb⟩ := List.mem_flatMap.mp hb
  obtain ⟨hquote, hslash, hbar⟩ := h c hc
  have hother : ¬(b = 92 ∨ b = 124) := by
    rintro (rfl | rfl)
    · exact hslash (eq_of_mem_utf8EncodeChar (by decide) hb)
    · exact hbar (eq_of_mem_utf8EncodeChar (by decide) hb)
  have h₁ : b ≠ 34 := by
    rintro rfl
    exact hquote (eq_of_mem_utf8EncodeChar (by decide) hb)
  rw [Place.next?, if_neg h₁, if_neg hother]

theorem append (hs : Bare s) (ht : Bare t) : Bare (s ++ t) := by
  intro c hc
  rw [String.toList_append] at hc
  exact (List.mem_append.mp hc).elim (hs c) (ht c)

/-- A text with characters of bare texts is bare. -/
theorem ofList {l : List Char} (hs : Bare s) (h : ∀ c ∈ l, c ∈ s.toList) :
    Bare (String.ofList l) := by
  intro c hc
  rw [String.toList_ofList] at hc
  exact hs c (h c hc)

theorem ofNat (n : Nat) : Bare (toString n) := by
  intro c hc
  have hdigit := isDigit_of_mem_toString hc
  refine ⟨?_, ?_, ?_⟩ <;>
    · rintro rfl
      exact absurd hdigit (by decide)

theorem ofInt (n : Int) : Bare (toString n) := by
  rw [show toString n = n.repr from rfl, Int.repr_eq_if]
  split
  · exact ofNat _
  · exact append (by decide) (ofNat _)

theorem zeros (n : Nat) : Bare (Decimal.zeros n) :=
  ofList (s := "0") (by decide) fun c hc => by
    rw [List.eq_of_mem_replicate hc]
    exact List.mem_singleton_self '0'

theorem positional (keepFraction : Bool) (d : Decimal.Digits) :
    Bare (Decimal.positional keepFraction d) := by
  have hdigits := ofNat d.digits
  unfold Decimal.positional
  dsimp only
  split_ifs
  · exact (hdigits.append (zeros _)).append (by decide)
  · exact (hdigits.append (zeros _)).append (by decide)
  · exact ((hdigits.ofList fun c hc => List.mem_of_mem_take hc).append (by decide)).append
      (hdigits.ofList fun c hc => List.mem_of_mem_drop hc)
  · exact (append (by decide) (zeros _)).append hdigits

theorem scientific (d : Decimal.Digits) : Bare (Decimal.scientific d) := by
  have hpointed := (ofNat d.digits).append (t := ".") (by decide)
  unfold Decimal.scientific
  dsimp only
  refine (append ?_ (by decide)).append (ofInt _)
  split
  · rename_i first second rest hchars
    refine hpointed.ofList fun c hc => ?_
    rw [String.toList_append, hchars, show ".".toList = ['.'] from rfl]
    simp only [List.mem_cons, List.mem_append] at hc ⊢
    tauto
  · exact (ofNat d.digits).ofList fun c hc => hc

theorem floatText (f : Decimal.Format) (l : Decimal.Layout) (r : Decimal.Reading) :
    Bare (Json.floatText f l r) := by
  unfold Json.floatText
  split
  · rename_i negative digits _
    have hsign : Bare (Decimal.signText negative) := by cases negative <;> decide
    refine hsign.append ?_
    unfold Decimal.Layout.render
    dsimp only
    split
    · exact positional _ digits
    · exact scientific digits
  · decide

theorem number (n : Number) : Bare n.text := by
  cases n with
  | integer n => exact ofInt n
  | float x => exact floatText _ _ _
  | single x => exact floatText _ _ _

end Bare

mutual

/-- A compact text is closed. -/
theorem closed_compact : ∀ v : Value, Closed v.compact.toUTF8.toList
  | .null => Bare.closed (by decide)
  | .bool true => Bare.closed (by decide)
  | .bool false => Bare.closed (by decide)
  | .number n => (Bare.number n).closed
  | .string s => closed_quoted s
  | .array items =>
    ((Bare.closed (by decide)).append (closed_compactItems items)).append (Bare.closed (by decide))
  | .object entries =>
    ((Bare.closed (by decide)).append (closed_compactEntries entries)).append
      (Bare.closed (by decide))

theorem closed_compactItems : ∀ items : List Value, Closed (compactItems items).toUTF8.toList
  | [] => Bare.closed (by decide)
  | [v] => closed_compact v
  | v :: w :: rest =>
    ((closed_compact v).append (Bare.closed (by decide))).append (closed_compactItems (w :: rest))

theorem closed_compactEntries :
    ∀ entries : List (String × Value), Closed (compactEntries entries).toUTF8.toList
  | [] => Bare.closed (by decide)
  | [(k, v)] => ((closed_quoted k).append (Bare.closed (by decide))).append (closed_compact v)
  | (k, v) :: e :: rest =>
    ((((closed_quoted k).append (Bare.closed (by decide))).append (closed_compact v)).append
      (Bare.closed (by decide))).append (closed_compactEntries (e :: rest))

end

end Texts

end CodeClones.Json
