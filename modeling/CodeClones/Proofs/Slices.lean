import CodeClones.Proofs.Embedding

/-!
# Texts in slices

An engine cuts its texts into slices and calls its model on one after the other, up to the first
slice that fails. Nothing makes up for a vector that is missing from a slice or of the wrong
dimension. Over a model that encodes each text by itself, where the cuts fall makes no difference.
-/

namespace CodeClones

/-- No slice is empty, or longer than the engine allows. -/
theorem chunks_bounds {α : Type} (n : Nat) (items : List α) :
    ∀ slice ∈ chunks n items, slice ≠ [] ∧ slice.length ≤ max 1 n := by
  fun_induction chunks n items with
  | case1 => exact List.forall_mem_nil _
  | case2 x rest ih =>
    refine List.forall_mem_cons.mpr ⟨⟨by simp, ?_⟩, ih⟩
    have hlength : ((x :: rest).take (n - 1 + 1)).length ≤ n - 1 + 1 := List.length_take_le ..
    omega

private theorem length_of_mapM_eq_some {α β : Type} {f : α → Option β} {xs : List α} {ys : List β}
    (h : xs.mapM f = some ys) : ys.length = xs.length := by
  induction xs generalizing ys with
  | nil =>
    cases h
    rfl
  | cons x xs ih =>
    rw [List.mapM_cons] at h
    obtain ⟨y, -, h⟩ := Option.bind_eq_some_iff.mp h
    obtain ⟨rest, hrest, h⟩ := Option.bind_eq_some_iff.mp h
    cases h
    rw [List.length_cons, List.length_cons, ih hrest]

namespace Model

/-- Slices that the model answers one after the other, after the calls `earlier`: with a vector for
each text, each of the dimension of the model. -/
inductive Accepts (m : Model) :
    List (List String) → List (List String) → List (List Embedding) → Prop
  | nil (earlier : List (List String)) : m.Accepts earlier [] []
  | cons {earlier rest : List (List String)} {slice : List String} {raw : List Embedding}
      {raws : List (List Embedding)} (answer : m.answer (slice :: earlier) = .ok raw)
      (length : raw.length = slice.length) (dimension : ∀ v ∈ raw, v.length = m.dimension)
      (more : m.Accepts (slice :: earlier) rest raws) :
      m.Accepts earlier (slice :: rest) (raw :: raws)

/-- How a slice fails after the calls `earlier`. -/
inductive Fails (m : Model) (earlier : List (List String)) (slice : List String) :
    EmbedError → Prop
  | refused {cause : EmbedError} (answer : m.answer (slice :: earlier) = .error cause) :
      m.Fails earlier slice cause
  | miscounted {raw : List Embedding} (answer : m.answer (slice :: earlier) = .ok raw)
      (length : raw.length ≠ slice.length) :
      m.Fails earlier slice (.lengthMismatch slice.length raw.length)
  | misshapen {before after : List Embedding} {v : Embedding}
      (answer : m.answer (slice :: earlier) = .ok (before ++ v :: after))
      (length : (before ++ v :: after).length = slice.length)
      (dimension : ∀ w ∈ before, w.length = m.dimension) (wrong : v.length ≠ m.dimension) :
      m.Fails earlier slice (.wrongDimension m.dimension v.length)

/-- Accepted slices have a vector for each of their texts. -/
theorem Accepts.length_flatten {m : Model} {earlier slices : List (List String)}
    {raws : List (List Embedding)} (h : m.Accepts earlier slices raws) :
    raws.flatten.length = slices.flatten.length := by
  induction h with
  | nil => rfl
  | cons _ length _ _ ih =>
    rw [List.flatten_cons, List.flatten_cons, List.length_append, List.length_append, length, ih]

/-- A model that encodes each text by itself: a call gives the vectors of its texts, and fails if
one of them has none. -/
def Separate (m : Model) (vectorOf : String → Option Embedding) : Prop :=
  ∀ texts earlier, (m.answer (texts :: earlier)).toOption = texts.mapM vectorOf

end Model

namespace Engine

/-- A call is accepted, or fails in one of the three ways. -/
theorem outcome_cases (e : Engine) (slice : List String) :
    (∃ raw, e.model.answer (slice :: e.calls) = .ok raw ∧ raw.length = slice.length ∧
      (∀ v ∈ raw, v.length = e.model.dimension) ∧ e.outcome slice = .ok (raw.map e.finish)) ∨
    ∃ cause, e.model.Fails e.calls slice cause ∧ e.outcome slice = .error cause := by
  cases hanswer : e.model.answer (slice :: e.calls) with
  | error cause => exact .inr ⟨cause, .refused hanswer, by rw [outcome, hanswer]; rfl⟩
  | ok raw =>
    have houtcome : e.outcome slice = e.checked slice raw := by
      rw [outcome, hanswer]
      rfl
    by_cases hlength : raw.length = slice.length
    · by_cases hdimension : ∀ v ∈ raw, v.length = e.model.dimension
      · exact .inl ⟨raw, rfl, hlength, hdimension,
          outcome_eq_ok_iff.mpr ⟨raw, hanswer, hlength, hdimension, rfl⟩⟩
      · cases hfind : raw.find? fun v => v.length != e.model.dimension with
        | none =>
          refine absurd (fun v hv => ?_) hdimension
          simpa using List.find?_eq_none.mp hfind v hv
        | some v =>
          obtain ⟨hwrong, before, after, rfl, hbefore⟩ := List.find?_eq_some_iff_append.mp hfind
          refine .inr ⟨_, .misshapen hanswer hlength (by simpa using hbefore)
            (by simpa using hwrong), ?_⟩
          rw [houtcome, checked, if_neg (not_not.mpr hlength), hfind]
    · refine .inr ⟨_, .miscounted hanswer hlength, ?_⟩
      rw [houtcome, checked, if_pos hlength]

/-- The calls that embedding makes and what becomes of them: all slices are accepted, or all up to
one that fails. -/
theorem embedChunks_run (e : Engine) (slices : List (List String)) :
    ∃ made left, slices = made ++ left ∧
      (e.embedChunks slices).1 = { e with calls := made.reverse ++ e.calls } ∧
      ((∃ raws, left = [] ∧ e.model.Accepts e.calls made raws ∧
          (e.embedChunks slices).2 = .ok (raws.flatten.map e.finish)) ∨
        ∃ passed slice raws cause, made = passed ++ [slice] ∧
          e.model.Accepts e.calls passed raws ∧
          e.model.Fails (passed.reverse ++ e.calls) slice cause ∧
          (e.embedChunks slices).2 = .error cause) := by
  induction slices generalizing e with
  | nil => exact ⟨[], [], rfl, rfl, .inl ⟨[], rfl, .nil _, rfl⟩⟩
  | cons slice rest ih =>
    rw [embedChunks_cons]
    rcases e.outcome_cases slice with ⟨raw, hanswer, hlength, hdimension, houtcome⟩ |
      ⟨cause, hfails, houtcome⟩
    · rw [houtcome]
      obtain ⟨made, left, rfl, hcalls, hcases⟩ := ih (e.call slice).1
      refine ⟨slice :: made, left, rfl, ?_, ?_⟩
      · rw [List.reverse_cons, List.append_assoc]
        exact hcalls
      rcases hcases with ⟨raws, rfl, haccepts, hvectors⟩ |
        ⟨passed, last, raws, cause, rfl, haccepts, hfails, hcause⟩
      · refine .inl ⟨raw :: raws, rfl, .cons hanswer hlength hdimension haccepts, ?_⟩
        dsimp only
        rw [hvectors, List.flatten_cons, List.map_append]
        rfl
      · refine .inr ⟨slice :: passed, last, raw :: raws, cause, rfl,
          .cons hanswer hlength hdimension haccepts, ?_, ?_⟩
        · rw [List.reverse_cons, List.append_assoc]
          exact hfails
        · dsimp only
          rw [hcause]
          rfl
    · rw [houtcome]
      exact ⟨[slice], rest, rfl, rfl, .inr ⟨[], slice, [], cause, rfl, .nil _, hfails, rfl⟩⟩

/-- The vector of a text encoded alone, scaled as the engine is told to, if it is of the right
dimension. -/
def alone (e : Engine) (vectorOf : String → Option Embedding) (text : String) : Option Embedding :=
  (vectorOf text).bind fun v => if v.length = e.model.dimension then some (e.finish v) else none

/-- All texts have a vector alone exactly if they have vectors and these are of the right dimension.
-/
theorem mapM_alone (e : Engine) (vectorOf : String → Option Embedding) (texts : List String) :
    texts.mapM (e.alone vectorOf) =
      (texts.mapM vectorOf).bind fun raw =>
        if ∀ v ∈ raw, v.length = e.model.dimension then some (raw.map e.finish) else none := by
  induction texts with
  | nil => simp
  | cons text rest ih =>
    rw [List.mapM_cons, List.mapM_cons, ih, alone]
    cases vectorOf text with
    | none => rfl
    | some v =>
      cases rest.mapM vectorOf with
      | none => by_cases hv : v.length = e.model.dimension <;> simp [hv]
      | some raw =>
        by_cases hv : v.length = e.model.dimension
        · by_cases hraw : ∀ v ∈ raw, v.length = e.model.dimension
          · simp [hv, if_pos hraw]
          · simp [hv, if_neg hraw]
        · simp [hv]

/-- A model that encodes each text by itself gives a slice the vectors that its texts have alone. -/
theorem outcome_of_separate {e : Engine} {vectorOf : String → Option Embedding}
    (hm : e.model.Separate vectorOf) (slice : List String) :
    (e.outcome slice).toOption = slice.mapM (e.alone vectorOf) := by
  have hanswers := hm slice e.calls
  rw [mapM_alone, ← hanswers]
  rcases e.outcome_cases slice with ⟨raw, hanswer, -, hdimension, houtcome⟩ |
    ⟨cause, hfails, houtcome⟩
  · rw [houtcome, hanswer]
    exact (if_pos hdimension).symm
  · rw [houtcome]
    cases hfails with
    | refused hanswer =>
      rw [hanswer]
      rfl
    | miscounted hanswer hlength =>
      rw [hanswer] at hanswers
      exact absurd (length_of_mapM_eq_some hanswers.symm) hlength
    | @misshapen before after v hanswer _ _ hwrong =>
      rw [hanswer]
      exact (if_neg fun h => hwrong (h v (by simp))).symm

/-- Over a model that encodes each text by itself, the slices do not show in the vectors. -/
theorem embedChunks_of_separate {e : Engine} {vectorOf : String → Option Embedding}
    (hm : e.model.Separate vectorOf) (slices : List (List String)) :
    (e.embedChunks slices).2.toOption = slices.flatten.mapM (e.alone vectorOf) := by
  induction slices generalizing e with
  | nil => rfl
  | cons slice rest ih =>
    have hrest : ((e.call slice).1.embedChunks rest).2.toOption =
        rest.flatten.mapM (e.alone vectorOf) := ih (e := (e.call slice).1) hm
    rw [embedChunks_cons, List.flatten_cons, List.mapM_append, ← outcome_of_separate hm, ← hrest]
    cases e.outcome slice with
    | error cause => rfl
    | ok vectors => cases ((e.call slice).1.embedChunks rest).2 <;> rfl

/-- With a vector for each text, only the dimensions are left to check. -/
theorem checked_map (e : Engine) (vectorOf : String → Embedding) (texts : List String) :
    e.checked texts (texts.map vectorOf) =
      match (texts.map vectorOf).find? fun v => v.length != e.model.dimension with
      | some v => .error (.wrongDimension e.model.dimension v.length)
      | none => .ok ((texts.map vectorOf).map e.finish) := by
  cases hchecked : e.checked texts (texts.map vectorOf) with
  | ok checked =>
    have hdimension := (checked_iff.mp ⟨checked, hchecked⟩).2
    rw [List.find?_eq_none.mpr fun v hv => by simp [hdimension v hv], (checked_ok hchecked).2]
  | error cause =>
    rw [checked, if_neg (not_not.mpr (List.length_map ..))] at hchecked
    cases hfind : (texts.map vectorOf).find? fun v => v.length != e.model.dimension with
    | none => simp [hfind] at hchecked
    | some v =>
      rw [hfind] at hchecked
      exact hchecked.symm

/-- The vectors of two slices pass together exactly if they pass one after the other. -/
theorem checked_append (e : Engine) (vectorOf : String → Embedding) (slice rest : List String) :
    e.checked (slice ++ rest) ((slice ++ rest).map vectorOf) =
      (e.checked slice (slice.map vectorOf)).bind fun vectors =>
        (e.checked rest (rest.map vectorOf)).map (vectors ++ ·) := by
  rw [checked_map, checked_map, checked_map, List.map_append, List.find?_append]
  cases (slice.map vectorOf).find? fun v => v.length != e.model.dimension with
  | some v => rfl
  | none =>
    cases (rest.map vectorOf).find? fun v => v.length != e.model.dimension with
    | some v => rfl
    | none => exact congrArg Except.ok (List.map_append ..)

/-- Over such a model that has a vector for every text, the slices do not show in errors either. -/
theorem embedChunks_of_total {e : Engine} {vectorOf : String → Embedding}
    (hm : e.model.Separate (some ∘ vectorOf)) (slices : List (List String)) :
    (e.embedChunks slices).2 = e.checked slices.flatten (slices.flatten.map vectorOf) := by
  induction slices generalizing e with
  | nil =>
    rw [List.flatten_nil, checked_map]
    rfl
  | cons slice rest ih =>
    have hrest : ((e.call slice).1.embedChunks rest).2 =
        e.checked rest.flatten (rest.flatten.map vectorOf) := ih (e := (e.call slice).1) hm
    have houtcome : e.outcome slice = e.checked slice (slice.map vectorOf) := by
      have hanswer := hm slice e.calls
      rw [show slice.mapM (some ∘ vectorOf) = some (slice.map vectorOf) from
        List.mapM_pure (m := Option) ..] at hanswer
      rw [outcome]
      cases h : e.model.answer (slice :: e.calls) with
      | error cause => simp [h, Except.toOption] at hanswer
      | ok raw =>
        rw [h] at hanswer
        rw [← Option.some.inj hanswer]
        rfl
    rw [embedChunks_cons, List.flatten_cons, checked_append, houtcome, ← hrest]
    cases e.checked slice (slice.map vectorOf) <;> rfl

/-- Embedding is calling the model on slices that make up the texts, each once and in order, up to
the first that fails; with vectors there is one for each text. A model that encodes each text by
itself is as good as called on all texts together, whatever the size of the slices and the calls
before. -/
theorem embed_slices (e : Engine) (texts : List String) :
    (chunks e.batchSize texts).flatten = texts ∧
      (∀ slice ∈ chunks e.batchSize texts, slice ≠ [] ∧ slice.length ≤ max 1 e.batchSize) ∧
      (∃ made left, chunks e.batchSize texts = made ++ left ∧
        (e.embed texts).1 = { e with calls := made.reverse ++ e.calls } ∧
        ((∃ raws, left = [] ∧ e.model.Accepts e.calls made raws ∧
            raws.flatten.length = texts.length ∧
            (e.embed texts).2 = .ok (raws.flatten.map e.finish)) ∨
          ∃ passed slice raws cause, made = passed ++ [slice] ∧
            e.model.Accepts e.calls passed raws ∧
            e.model.Fails (passed.reverse ++ e.calls) slice cause ∧
            (e.embed texts).2 = .error cause)) ∧
      (∀ vectorOf, e.model.Separate vectorOf → ∀ batchSize calls,
        (Engine.embed { e with batchSize, calls } texts).2.toOption =
          texts.mapM (e.alone vectorOf)) ∧
      (∀ vectorOf, e.model.Separate (some ∘ vectorOf) → ∀ batchSize calls,
        (Engine.embed { e with batchSize, calls } texts).2 =
          e.checked texts (texts.map vectorOf)) ∧
      e.embed [] = (e, .ok []) := by
  refine ⟨flatten_chunks .., chunks_bounds _ _, ?_, fun vectorOf hm batchSize calls => ?_,
    fun vectorOf hm batchSize calls => ?_, e.embed_nil⟩
  · obtain ⟨made, left, hmade, hcalls, hcases⟩ := e.embedChunks_run (chunks e.batchSize texts)
    refine ⟨made, left, hmade, hcalls, hcases.imp ?_ id⟩
    rintro ⟨raws, rfl, haccepts, hvectors⟩
    refine ⟨raws, rfl, haccepts, ?_, hvectors⟩
    rw [haccepts.length_flatten, ← List.append_nil made, ← hmade, flatten_chunks]
  · have h := embedChunks_of_separate (e := { e with batchSize, calls }) hm (chunks batchSize texts)
    rw [flatten_chunks] at h
    exact h
  · have h := embedChunks_of_total (e := { e with batchSize, calls }) hm (chunks batchSize texts)
    rw [flatten_chunks] at h
    exact h

/-- An engine whose vectors hold the lengths of texts. It takes two texts at a time. -/
def lengths : Engine where
  model :=
    { name := "lengths"
      dimension := 1
      answer := fun calls => .ok ((calls.headD []).map fun text => [Float32.ofNat text.length]) }
  batchSize := 2
  normalize := false

theorem embed_slices_lengths :
    lengths.model.Separate (some ∘ fun text => [Float32.ofNat text.length]) ∧
      (Engine.embed { lengths with batchSize := 1, calls := [] } ["a", "bc", ""]).2.toOption =
        some [[Float32.ofNat 1], [Float32.ofNat 2], [Float32.ofNat 0]] ∧
      (Engine.embed { lengths with batchSize := 3, calls := [["d"]] } ["a", "bc", ""]).2 =
        .ok [[Float32.ofNat 1], [Float32.ofNat 2], [Float32.ofNat 0]] := by
  have hm : lengths.model.Separate (some ∘ fun text => [Float32.ofNat text.length]) :=
    fun texts _ => (List.mapM_pure (m := Option) ..).symm
  obtain ⟨-, -, -, hseparate, htotal, -⟩ := embed_slices lengths ["a", "bc", ""]
  exact ⟨hm, (hseparate _ hm 1 []).trans rfl, (htotal _ hm 3 [["d"]]).trans rfl⟩

end Engine

end CodeClones
