import CodeClones.Embedding.Engine
import Mathlib.Data.List.Basic

/-!
# Vectors from an engine

An engine that answers gives one vector for each text, whatever the size of its chunks. Over a model
that turns every text into a vector of its own, the engine does so too.
-/

namespace CodeClones

/-- Cutting a list into pieces loses nothing. -/
theorem flatten_chunks {α : Type} (n : Nat) (items : List α) :
    (chunks n items).flatten = items := by
  fun_induction chunks n items with
  | case1 => rfl
  | case2 x rest ih => rw [List.flatten_cons, ih, List.take_append_drop]

namespace Engine

/-- What an engine makes of the vector of a text. -/
def finish (e : Engine) (v : Embedding) : Embedding := if e.normalize then v.normalize else v

/-- A checked answer has a vector for each text, scaled as the engine is told to. -/
theorem checked_ok {e : Engine} {texts : List String} {vectors checked : List Embedding}
    (h : e.checked texts vectors = .ok checked) :
    vectors.length = texts.length ∧ checked = vectors.map e.finish := by
  unfold Engine.checked at h
  split at h
  · cases h
  · rename_i hl
    split at h
    · cases h
    · cases h
      refine ⟨not_not.mp hl, ?_⟩
      cases hn : e.normalize with
      | true =>
        have hf : e.finish = Embedding.normalize := funext fun v => if_pos hn
        rw [hf, if_pos rfl]
      | false =>
        have hf : e.finish = id := funext fun v => if_neg (by simp [hn])
        rw [hf, List.map_id, if_neg (by simp)]

/-- An answer passes the check exactly if it has a vector for each text, all of the right dimension.
-/
theorem checked_iff {e : Engine} {texts : List String} {vectors : List Embedding} :
    (∃ checked, e.checked texts vectors = .ok checked) ↔
      vectors.length = texts.length ∧ ∀ v ∈ vectors, v.length = e.model.dimension := by
  unfold checked
  split
  · rename_i hl
    exact iff_of_false nofun fun h => hl h.1
  · rename_i hl
    split
    · rename_i v hfind
      refine iff_of_false nofun fun h => ?_
      have hwrong := List.find?_some hfind
      rw [bne_iff_ne] at hwrong
      exact hwrong (h.2 v (List.mem_of_find?_eq_some hfind))
    · rename_i hnone
      refine iff_of_true ⟨_, rfl⟩ ⟨not_not.mp hl, fun v hv => ?_⟩
      simpa using List.find?_eq_none.mp hnone v hv

/-- Without texts the model is not called. -/
theorem embed_nil (e : Engine) : e.embed [] = (e, .ok []) := by
  rw [embed, chunks]
  rfl

/-- Embedding changes nothing but the record of calls. -/
theorem embedChunks_keeps (e : Engine) (pieces : List (List String)) :
    (e.embedChunks pieces).1.model = e.model ∧ (e.embedChunks pieces).1.batchSize = e.batchSize ∧
      (e.embedChunks pieces).1.normalize = e.normalize := by
  induction pieces generalizing e with
  | nil => exact ⟨rfl, rfl, rfl⟩
  | cons piece rest ih =>
    rw [embedChunks]
    dsimp only
    split
    · exact ⟨rfl, rfl, rfl⟩
    · exact ih (e.call piece).1

theorem embed_keeps (e : Engine) (texts : List String) :
    (e.embed texts).1.model = e.model ∧ (e.embed texts).1.batchSize = e.batchSize ∧
      (e.embed texts).1.normalize = e.normalize :=
  e.embedChunks_keeps _

/-- What the engine makes of a call. -/
def outcome (e : Engine) (texts : List String) : Except EmbedError (List Embedding) :=
  (e.model.answer (texts :: e.calls)).bind (e.checked texts)

/-- A call succeeds exactly if its answer passes the check. -/
theorem outcome_eq_ok_iff {e : Engine} {texts : List String} {vectors : List Embedding} :
    e.outcome texts = .ok vectors ↔ ∃ raw, e.model.answer (texts :: e.calls) = .ok raw ∧
      raw.length = texts.length ∧ (∀ v ∈ raw, v.length = e.model.dimension) ∧
      vectors = raw.map e.finish := by
  constructor
  · intro h
    cases ha : e.model.answer (texts :: e.calls) with
    | error cause =>
      rw [outcome, ha] at h
      cases h
    | ok raw =>
      rw [outcome, ha] at h
      obtain ⟨hlength, hvectors⟩ := checked_ok h
      exact ⟨raw, rfl, hlength, (checked_iff.mp ⟨vectors, h⟩).2, hvectors⟩
  · rintro ⟨raw, ha, hlength, hdimension, rfl⟩
    obtain ⟨checked, hchecked⟩ := checked_iff.mpr ⟨hlength, hdimension⟩
    rw [outcome, ha, ← (checked_ok hchecked).2, ← hchecked]
    rfl

/-- The first chunk is called on before the other ones. -/
theorem embedChunks_cons (e : Engine) (piece : List String) (rest : List (List String)) :
    e.embedChunks (piece :: rest) =
      match e.outcome piece with
      | .error cause => ((e.call piece).1, .error cause)
      | .ok vectors =>
        (((e.call piece).1.embedChunks rest).1,
          ((e.call piece).1.embedChunks rest).2.map (vectors ++ ·)) :=
  rfl

/-- The first chunk and the other ones are embedded one after the other. -/
private theorem embedChunks_cons_ok {e : Engine} {piece : List String} {rest : List (List String)}
    {vectors : List Embedding} (h : (e.embedChunks (piece :: rest)).2 = .ok vectors) :
    ∃ raw more, e.model.answer (piece :: e.calls) = .ok raw ∧ raw.length = piece.length ∧
      (∀ v ∈ raw, v.length = e.model.dimension) ∧
      ((e.call piece).1.embedChunks rest).2 = .ok more ∧ vectors = raw.map e.finish ++ more := by
  rw [embedChunks_cons] at h
  cases houtcome : e.outcome piece with
  | error cause =>
    rw [houtcome] at h
    cases h
  | ok first =>
    obtain ⟨raw, ha, hl, hdimension, rfl⟩ := outcome_eq_ok_iff.mp houtcome
    rw [houtcome] at h
    cases hm : ((e.call piece).1.embedChunks rest).2 with
    | error cause =>
      rw [hm] at h
      cases h
    | ok more =>
      rw [hm] at h
      cases h
      exact ⟨raw, more, ha, hl, hdimension, rfl, rfl⟩

/-- An engine that answers gives one vector for each text. -/
theorem length_embed {e : Engine} {texts : List String} {vectors : List Embedding}
    (h : (e.embed texts).2 = .ok vectors) : vectors.length = texts.length := by
  rw [embed] at h
  rw [← flatten_chunks e.batchSize texts]
  generalize chunks e.batchSize texts = pieces at h ⊢
  induction pieces generalizing e vectors with
  | nil =>
    cases h
    rfl
  | cons piece rest ih =>
    obtain ⟨raw, more, _, hl, _, hm, rfl⟩ := embedChunks_cons_ok h
    rw [List.length_append, List.length_map, hl, ih hm, List.flatten_cons, List.length_append]

/-- The answers of a model that does not look at what else is in a call. -/
def Pointwise (m : Model) (vectorOf : String → Embedding) : Prop :=
  ∀ texts earlier vectors, m.answer (texts :: earlier) = .ok vectors → vectors = texts.map vectorOf

theorem Pointwise.of_answer {m : Model} {vectorOf : String → Embedding}
    (h : ∀ calls, m.answer calls = .ok ((calls.headD []).map vectorOf)) : Pointwise m vectorOf := by
  intro texts earlier vectors hanswer
  rw [h] at hanswer
  exact (Except.ok.inj hanswer).symm

/-- Over such a model the engine too turns every text into a vector of its own. -/
theorem embed_eq_map {e : Engine} {vectorOf : String → Embedding}
    (hm : Pointwise e.model vectorOf) {texts : List String} {vectors : List Embedding}
    (h : (e.embed texts).2 = .ok vectors) :
    vectors = texts.map fun text => e.finish (vectorOf text) := by
  rw [embed] at h
  rw [← flatten_chunks e.batchSize texts]
  generalize chunks e.batchSize texts = pieces at h ⊢
  induction pieces generalizing e vectors with
  | nil =>
    cases h
    rfl
  | cons piece rest ih =>
    obtain ⟨raw, more, ha, _, _, hmore, rfl⟩ := embedChunks_cons_ok h
    have hraw : raw = piece.map vectorOf := hm piece e.calls raw ha
    have hrest : more = rest.flatten.map fun text => e.finish (vectorOf text) :=
      ih (e := (e.call piece).1) hm hmore
    rw [hraw, hrest, List.map_map, List.flatten_cons, List.map_append]
    rfl

/-- What passed the check is of the right dimension. -/
theorem dimension_of_embed {e : Engine} {vectorOf : String → Embedding}
    (hm : Pointwise e.model vectorOf) {texts : List String} {vectors : List Embedding}
    (h : (e.embed texts).2 = .ok vectors) :
    ∀ text ∈ texts, (vectorOf text).length = e.model.dimension := by
  rw [embed] at h
  rw [← flatten_chunks e.batchSize texts]
  generalize chunks e.batchSize texts = pieces at h ⊢
  induction pieces generalizing e vectors with
  | nil => exact fun _ ht => nomatch ht
  | cons piece rest ih =>
    obtain ⟨raw, more, ha, _, hdimension, hmore, -⟩ := embedChunks_cons_ok h
    obtain rfl : raw = piece.map vectorOf := hm piece e.calls raw ha
    intro text ht
    rw [List.flatten_cons, List.mem_append] at ht
    rcases ht with ht | ht
    · exact hdimension _ (List.mem_map_of_mem ht)
    · exact ih (e := (e.call piece).1) hm hmore text ht

/-- An engine around a model that answers every call turns texts into vectors, if these are of the
right dimension. -/
theorem embed_of_answers {e : Engine} {vectorOf : String → Embedding}
    (hm : Pointwise e.model vectorOf)
    (hanswers : ∀ texts earlier, ∃ raw, e.model.answer (texts :: earlier) = .ok raw)
    {texts : List String}
    (hdimension : ∀ text ∈ texts, (vectorOf text).length = e.model.dimension) :
    ∃ vectors, (e.embed texts).2 = .ok vectors := by
  rw [embed]
  rw [← flatten_chunks e.batchSize texts] at hdimension
  generalize chunks e.batchSize texts = pieces at hdimension ⊢
  induction pieces generalizing e with
  | nil => exact ⟨[], rfl⟩
  | cons piece rest ih =>
    rw [List.flatten_cons, List.forall_mem_append] at hdimension
    obtain ⟨raw, hraw⟩ := hanswers piece e.calls
    have hvectors : raw = piece.map vectorOf := hm piece e.calls raw hraw
    have houtcome : e.outcome piece = .ok (raw.map e.finish) := by
      refine outcome_eq_ok_iff.mpr ⟨raw, hraw, by rw [hvectors, List.length_map], ?_, rfl⟩
      rw [hvectors, List.forall_mem_map]
      exact hdimension.1
    obtain ⟨more, hmore⟩ := ih (e := (e.call piece).1) hm hanswers hdimension.2
    refine ⟨raw.map e.finish ++ more, ?_⟩
    rw [embedChunks_cons, houtcome]
    exact congrArg (Except.map (raw.map e.finish ++ ·)) hmore

/-- A vector that the engine makes of a text in some call of its model. -/
def Gives (e : Engine) (text : String) (v : Embedding) : Prop :=
  ∃ (texts : List String) (earlier : List (List String)) (raws : List Embedding) (i : Nat)
    (raw : Embedding), e.model.answer (texts :: earlier) = .ok raws ∧ texts[i]? = some text ∧
      raws[i]? = some raw ∧ v = e.finish raw

theorem gives_congr {e e' : Engine} (hmodel : e'.model = e.model)
    (hnormalize : e'.normalize = e.normalize) : e'.Gives = e.Gives := by
  funext text v
  rw [Gives, Gives, hmodel]
  simp only [finish, hnormalize]

/-- The vector under the position of a text is one that the engine makes of it. -/
theorem gives_of_embed {e : Engine} {texts : List String} {vectors : List Embedding}
    (h : (e.embed texts).2 = .ok vectors) {i : Nat} {text : String} {v : Embedding}
    (ht : texts[i]? = some text) (hv : vectors[i]? = some v) : e.Gives text v := by
  rw [embed] at h
  rw [← flatten_chunks e.batchSize texts] at ht
  generalize chunks e.batchSize texts = pieces at h ht
  induction pieces generalizing e vectors i with
  | nil => cases ht
  | cons piece rest ih =>
    obtain ⟨raw, more, ha, hl, _, hm, rfl⟩ := embedChunks_cons_ok h
    rw [List.flatten_cons] at ht
    by_cases hi : i < piece.length
    · rw [List.getElem?_append_left hi] at ht
      rw [List.getElem?_append_left (by rw [List.length_map, hl]; exact hi),
        List.getElem?_map] at hv
      obtain ⟨x, hx, rfl⟩ := Option.map_eq_some_iff.mp hv
      exact ⟨piece, e.calls, raw, i, x, ha, ht, hx, rfl⟩
    · have hle : piece.length ≤ i := Nat.le_of_not_lt hi
      rw [List.getElem?_append_right hle] at ht
      rw [List.getElem?_append_right (by rw [List.length_map, hl]; exact hle), List.length_map,
        hl] at hv
      exact ih (e := (e.call piece).1) hv hm ht

/-- A model whose answer to a call does not depend on the calls before. -/
def Memoryless (m : Model) : Prop :=
  ∀ texts earlier earlier', m.answer (texts :: earlier) = m.answer (texts :: earlier')

/-- Engines around such a model give the same vectors, whatever they were asked before. -/
theorem embed_of_memoryless {e e' : Engine} (hm : Memoryless e.model) (hmodel : e'.model = e.model)
    (hbatch : e'.batchSize = e.batchSize) (hnormalize : e'.normalize = e.normalize)
    (texts : List String) : (e'.embed texts).2 = (e.embed texts).2 := by
  rw [embed, embed, hbatch]
  generalize chunks e.batchSize texts = pieces
  induction pieces generalizing e e' with
  | nil => rfl
  | cons piece rest ih =>
    have houtcome : e'.outcome piece = e.outcome piece := by
      have hchecked : e'.checked piece = e.checked piece := by
        funext vectors
        rw [checked, checked, hmodel, hnormalize]
      rw [outcome, outcome, hchecked, hmodel, hm piece e'.calls e.calls]
    rw [embedChunks_cons, embedChunks_cons, houtcome]
    cases e.outcome piece with
    | error cause => rfl
    | ok vectors =>
      have hsame : (e'.call piece).1.model = (e.call piece).1.model := hmodel
      have hrest := ih (e := (e.call piece).1) hm hsame hbatch hnormalize
      exact congrArg (Except.map (vectors ++ ·)) hrest

end Engine

end CodeClones
