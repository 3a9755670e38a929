import CodeClones.Proofs.Json.Compact
import CodeClones.Proofs.Store.Batch

/-!
# Keys of different queries

The text of a query does not say how long its vector is, and the bytes of a vector can be anything,
separators included. The text is therefore read from its end: the filter is what follows the one bar
that has a compact text behind it, the number of matches follows the last `k` before this bar, and
of what is left the last seven bytes hold the threshold.
-/

namespace CodeClones

/-- The text of a query whose numbers are given by their bits, which tell one NaN from another. -/
def textOfBits (vector : List UInt32) (k : Nat) (threshold : UInt32) (filter : Json.Object) :
    List UInt8 :=
  vector.flatMap Digest.littleEndian32 ++ "|t".toUTF8.toList ++
    Digest.littleEndian32 threshold ++
    ("|k" ++ toString k ++ "|" ++ (Json.Value.object filter).compact).toUTF8.toList

theorem queryText_eq_textOfBits (vector : Embedding) (k : Nat) (threshold : Float32)
    (filter : Json.Object) :
    queryText vector k threshold filter =
      textOfBits (vector.map Float32.toBits) k threshold.toBits filter := by
  rw [textOfBits, List.flatMap_map]
  rfl

/-- Two lists can be taken apart at a mark that does not stand in the same way behind it. -/
theorem append_cons_inj {α : Type} {s s' t t' : List α} {c : α}
    (h : s ++ c :: t = s' ++ c :: t') (ht : ∀ front, t ≠ front ++ c :: t')
    (ht' : ∀ front, t' ≠ front ++ c :: t) : s = s' ∧ t = t' := by
  rcases List.append_eq_append_iff.mp h with ⟨mid, rfl, hmid⟩ | ⟨mid, rfl, hmid⟩
  · cases mid with
    | nil => exact ⟨(List.append_nil s).symm, (List.cons.inj hmid).2⟩
    | cons d front => exact absurd (List.cons.inj hmid).2 (ht front)
  · cases mid with
    | nil => exact ⟨List.append_nil s', (List.cons.inj hmid).2.symm⟩
    | cons d front => exact absurd (List.cons.inj hmid).2 (ht' front)

section Parts

variable {v v' : List UInt32} {k k' : Nat} {t t' : UInt32} {f f' : Json.Object}

/-- What stands between the vector and the number of matches. -/
def thresholdBytes (t : UInt32) : List UInt8 :=
  "|t".toUTF8.toList ++ Digest.littleEndian32 t ++ "|".toUTF8.toList

theorem thresholdBytes_injective : Function.Injective thresholdBytes := fun _ _ h =>
  littleEndian32_injective (List.append_cancel_left (List.append_cancel_right h))

/-- The text of a query with its marks: a `k` before the number of matches and a bar before the
filter. -/
theorem textOfBits_eq (v : List UInt32) (k : Nat) (t : UInt32) (f : Json.Object) :
    textOfBits v k t f =
      (v.flatMap Digest.littleEndian32 ++ thresholdBytes t ++ 107 :: (toString k).toUTF8.toList) ++
        124 :: (Json.Value.object f).compact.toUTF8.toList := by
  rw [textOfBits, thresholdBytes, Json.toList_toUTF8_append, Json.toList_toUTF8_append,
    Json.toList_toUTF8_append, show "|k".toUTF8.toList = [124, 107] by decide +kernel,
    show "|".toUTF8.toList = [124] by decide +kernel]
  simp only [List.append_assoc, List.cons_append, List.nil_append]

/-- The digits of a number hold no `k`. -/
theorem digits_ne (n : Nat) (front back : List UInt8) :
    (toString n).toUTF8.toList ≠ front ++ 107 :: back := by
  intro h
  have hk : (107 : UInt8) ∈ (toString n).toUTF8.toList := h ▸ by simp
  rw [Json.toList_toUTF8] at hk
  obtain ⟨c, hc, hbyte⟩ := List.mem_flatMap.mp hk
  have hdigit := Json.isDigit_of_mem_toString hc
  rw [Json.eq_of_mem_utf8EncodeChar (d := 'k') (by decide) hbyte] at hdigit
  exact absurd hdigit (by decide)

/-- Numbers can be told apart by the bytes of their digits. -/
theorem eq_of_digits {m n : Nat} (h : (toString m).toUTF8.toList = (toString n).toUTF8.toList) :
    m = n := by
  have htext : m.repr.toList = n.repr.toList := congrArg String.toList (Json.eq_of_toUTF8_toList h)
  rw [Nat.toList_repr, Nat.toList_repr] at htext
  have hvalue := congrArg (Nat.ofDigitChars 10 · 0) htext
  rwa [Nat.ofDigitChars_toDigits (by decide) (by decide),
    Nat.ofDigitChars_toDigits (by decide) (by decide)] at hvalue

/-- The text of a query tells the bits of its numbers and the text of its filter. -/
theorem parts_of_textOfBits (h : textOfBits v k t f = textOfBits v' k' t' f') :
    v = v' ∧ k = k' ∧ t = t' ∧
      (Json.Value.object f).compact = (Json.Value.object f').compact := by
  rw [textOfBits_eq, textOfBits_eq] at h
  have hclosed := Json.closed_compact (.object f)
  have hclosed' := Json.closed_compact (.object f')
  obtain ⟨hfront, hfilter⟩ := append_cons_inj h (hclosed.ne_append_bar_cons hclosed')
    (hclosed'.ne_append_bar_cons hclosed)
  obtain ⟨hrest, hdigits⟩ := append_cons_inj hfront (fun front => digits_ne k front _)
    fun front => digits_ne k' front _
  have hlength : (thresholdBytes t).length = (thresholdBytes t').length := by
    simp only [thresholdBytes, List.length_append]
    rfl
  obtain ⟨hvector, hthreshold⟩ := List.append_inj' hrest hlength
  exact ⟨flatMap_injective (by decide : (4 : Nat) ≠ 0) (fun _ => rfl) littleEndian32_injective
    hvector, eq_of_digits hdigits, thresholdBytes_injective hthreshold,
    Json.eq_of_toUTF8_toList hfilter⟩

end Parts

theorem toBits_injective : Function.Injective Float32.toBits := fun _ _ h =>
  singleBytes_injective (congrArg Digest.littleEndian32 h)

namespace Query

variable {q q' : Query}

/-- The text of a query that its key is the digest of. -/
def text (q : Query) : List UInt8 := queryText q.vector q.k q.threshold q.filter

theorem eq_of_text (h : q.text = q'.text)
    (hfilter : (Json.Value.object q.filter).compact = (Json.Value.object q'.filter).compact →
      q.filter = q'.filter) : q = q' := by
  obtain ⟨v, k, t, f⟩ := q
  obtain ⟨v', k', t', f'⟩ := q'
  rw [text, text, queryText_eq_textOfBits, queryText_eq_textOfBits] at h
  obtain ⟨hvector, rfl, hthreshold, hcompact⟩ := parts_of_textOfBits h
  obtain rfl := toBits_injective.list_map hvector
  obtain rfl := toBits_injective hthreshold
  obtain rfl := hfilter hcompact
  rfl

/-- Queries with filters that are told apart by their texts are told apart by their own texts, even
if any bits stand for their numbers. If moreover their texts are told apart by their digests, then
no entry of a cache has the keys of two different queries. -/
theorem text_unambiguous
    (hfilter : (Json.Value.object q.filter).compact = (Json.Value.object q'.filter).compact →
      q.filter = q'.filter) :
    (q.text = q'.text ↔ q = q') ∧
    (∀ v v' t t', textOfBits v q.k t q.filter = textOfBits v' q'.k t' q'.filter ↔
      v = v' ∧ q.k = q'.k ∧ t = t' ∧ q.filter = q'.filter) ∧
    ((q.key = q'.key → q.text = q'.text) →
      ∀ e : CacheEntry (List Match), e.key = q.key → e.key = q'.key → q = q') := by
  refine ⟨⟨fun h => eq_of_text h hfilter, fun h => h ▸ rfl⟩, fun v v' t t' => ?_,
    fun hdigest e he he' => eq_of_text (hdigest (he.symm.trans he')) hfilter⟩
  constructor
  · intro h
    obtain ⟨hvector, hk, hthreshold, hcompact⟩ := parts_of_textOfBits h
    exact ⟨hvector, hk, hthreshold, hfilter hcompact⟩
  · rintro ⟨rfl, hk, rfl, hsame⟩
    rw [hk, hsame]

/-- A query without a filter. -/
def unfiltered : Query := ⟨[1, 0.5], 10, 0.75, []⟩

/-- The same query for functions only. -/
def narrowed : Query := ⟨[1, 0.5], 10, 0.75, [("kind", .string "function")]⟩

theorem text_unambiguous_narrowed :
    unfiltered.key ≠ narrowed.key ∧ unfiltered.text ≠ narrowed.text ∧
      ∀ e : CacheEntry (List Match), e.key = unfiltered.key → e.key ≠ narrowed.key := by
  have hfilter : (Json.Value.object unfiltered.filter).compact =
      (Json.Value.object narrowed.filter).compact → unfiltered.filter = narrowed.filter :=
    fun h => absurd h (by decide +kernel)
  have hne : unfiltered ≠ narrowed := fun h => nomatch congrArg Query.filter h
  have hkeys : unfiltered.key ≠ narrowed.key := by decide +kernel
  obtain ⟨htext, -, hentry⟩ := text_unambiguous hfilter
  exact ⟨hkeys, fun h => hne (htext.mp h),
    fun e he he' => hne (hentry (fun h => absurd h hkeys) e he he')⟩

end Query

/-- If the digests of the texts do not collide, then queries with filters that are told apart by
their texts have keys of their own. -/
theorem KeysApart.of_digests {asked : List Query}
    (hfilters : ∀ q ∈ asked, ∀ q' ∈ asked, (Json.Value.object q.filter).compact =
      (Json.Value.object q'.filter).compact → q.filter = q'.filter)
    (hdigests : ∀ q ∈ asked, ∀ q' ∈ asked, q.key = q'.key → q.text = q'.text) :
    KeysApart asked := fun q hq q' hq' hkey =>
  Query.eq_of_text (hdigests q hq q' hq' hkey) (hfilters q hq q' hq')

end CodeClones
