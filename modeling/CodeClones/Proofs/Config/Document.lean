import CodeClones.Proofs.Config.Normal
import CodeClones.Proofs.Decimal.Binary

/-!
# Configurations and their documents

A configuration is read from the document it is written as.
-/

namespace CodeClones

namespace Toml

section

variable {α : Type} {name key : String} {v : Value} {rest : List (String × Value)}
  {read : Value → Option α} {default : α}

theorem setting_cons_self : setting ((name, v) :: rest) name read default = read v := by
  rw [setting, List.lookup_cons_self]

theorem setting_cons_ne (h : name ≠ key) :
    setting ((key, v) :: rest) name read default = setting rest name read default := by
  rw [setting, setting, List.lookup_cons, beq_eq_false_iff_ne.mpr h]

end

/-- Settings that are read off the entries of a section. -/
structure ReadOff (entries settings : List (String × Value)) : Prop where
  given : ∀ entry ∈ entries, ∀ {α : Type} (read : Value → Option α) (default : α),
    setting settings entry.1 read default = read entry.2
  missing : ∀ name, (∀ entry ∈ entries, entry.1 ≠ name) → ∀ {α : Type} (read : Value → Option α)
    (default : α), setting settings name read default = some default

theorem readOff_self {entries : List (String × Value)} (h : (entries.map Prod.fst).Nodup) :
    ReadOff entries entries := by
  constructor
  · rintro ⟨name, v⟩ hentry α read default
    obtain ⟨before, after, rfl⟩ := List.append_of_mem hentry
    have hlookup : (before ++ (name, v) :: after).lookup name = some v := by
      rw [List.map_append, List.nodup_append] at h
      refine List.lookup_eq_some_iff.mpr ⟨before, after, rfl, fun entry hbefore => ?_⟩
      exact bne_iff_ne.mpr (h.2.2 _ (List.mem_map_of_mem hbefore) _ (List.mem_cons_self ..)).symm
    rw [setting, hlookup]
  · intro name hname α read default
    rw [setting, List.lookup_eq_none_iff.mpr fun entry hentry =>
      bne_iff_ne.mpr (hname entry hentry).symm]

/-- An entry that a section has or has not is read as it was written. -/
theorem ReadOff.optional {front back settings : List (String × Value)} {key : String}
    {text : Option String}
    (h : ReadOff (front ++ (text.map fun text => (key, Value.string text)).toList ++ back) settings)
    (hfront : ∀ entry ∈ front, entry.1 ≠ key) (hback : ∀ entry ∈ back, entry.1 ≠ key) :
    setting settings key (fun v => v.string?.map some) none = some text := by
  cases text with
  | none =>
    refine h.missing key (fun entry hentry => ?_) _ _
    rw [Option.map_none, Option.toList_none, List.append_nil] at hentry
    exact (List.mem_append.mp hentry).elim (hfront entry) (hback entry)
  | some text => exact h.given (key, .string text) (by simp) _ _

/-- A section is read by its entries if each has a name of its own among the names read. -/
theorem Value.exists_settings {entries : List (String × Value)} {v : Value}
    (hv : Value.table entries = v) (hkeys : (entries.map Prod.fst).Nodup) :
    ∃ settings, (∀ names, (∀ entry ∈ entries, entry.1 ∈ names) →
      v.settings? names = some settings) ∧ ReadOff entries settings := by
  subst hv
  refine ⟨entries, fun names hnames => congrArg some ?_, readOff_self hkeys⟩
  exact List.filter_eq_self.mpr fun entry hentry => List.contains_iff_mem.mpr (hnames entry hentry)

theorem bind_of_eq_some {α β : Type} {x : Option α} {a : α} {f : α → Option β} {b : Option β}
    (hx : x = some a) (hf : f a = b) : x >>= f = b := by
  rw [hx]
  exact hf

theorem Value.natural?_natural (n : Nat) : (Config.natural n).natural? = some n := rfl

theorem Value.choice?_string {α : Type} {ofName? : String → Option α} {s : String} :
    Value.choice? ofName? (.string s) = ofName? s := rfl

theorem Value.list?_map {α : Type} {read : Value → Option α} {write : α → Value}
    (h : ∀ a, read (write a) = some a) (items : List α) :
    Value.list? read (.array (items.map write)) = some items := by
  rw [Value.list?, List.mapM_map]
  induction items with
  | nil => rfl
  | cons a items ih => simp [List.mapM_cons, h, ih]

end Toml

open Toml

theorem AnalysisMode.ofName?_name (m : AnalysisMode) : ofName? m.name = some m := by
  cases m <;> decide

theorem BackendKind.ofName?_name (b : BackendKind) : ofName? b.name = some b := by
  cases b <;> decide

theorem ProviderKind.ofName?_name (p : ProviderKind) : ofName? p.name = some p := by
  cases p <;> decide

theorem Kind.ofExactName?_name (k : Kind) : ofExactName? k.name = some k := by
  cases k <;> decide

/-- The cutoffs of a ladder make the ladder. -/
theorem Thresholds.make?_self (t : Thresholds) : make? t.low t.medium t.high t.exact = .ok t := by
  have hrange : outOfRange? [("low", t.low), ("medium", t.medium), ("high", t.high),
      ("exact", t.exact)] = none := by
    have hvalid := t.valid
    simp only [isLadder, Bool.and_eq_true] at hvalid
    simp [outOfRange?, hvalid]
  rw [make?, hrange]
  exact dif_pos t.valid

theorem Thresholds.ofToml?_toToml (t : Thresholds) :
    ofToml? (.table [("low", Config.single t.low), ("medium", Config.single t.medium),
      ("high", Config.single t.high), ("exact", Config.single t.exact)]) = some t := by
  generalize hv : Value.table _ = v
  obtain ⟨settings, hsettings, hgiven, -⟩ := Value.exists_settings hv (by simp)
  simp only [List.forall_mem_cons] at hgiven
  have hnarrow (x : Float32) : (Config.single x).number?.map Decimal.narrow = some x :=
    congrArg some (Decimal.narrow_widen x)
  rw [ofToml?, hsettings _ (by simp)]
  simp [hgiven, hnarrow, make?_self, Except.toOption]

theorem IndexParams.ofToml?_toToml (i : IndexParams) :
    ofToml? (.table [("space", .string space), ("m", Config.natural i.m),
      ("construction_ef", Config.natural i.constructionEf),
      ("search_ef", Config.natural i.searchEf),
      ("num_threads", Config.natural i.numThreads)]) = some i := by
  generalize hv : Value.table _ = v
  obtain ⟨settings, hsettings, hgiven, -⟩ := Value.exists_settings hv (by simp)
  simp only [List.forall_mem_cons] at hgiven
  rw [ofToml?, hsettings _ (by simp)]
  simp [hgiven, Value.choice?_string, Value.natural?_natural]

namespace Config

private theorem finder_toToml (c : Config) :
    setting c.toToml "finder" FinderConfig.ofToml? {} = some c.finder := by
  have hkinds : Value.list? (Value.choice? Kind.ofExactName?)
      (.array ((c.finder.includeSymbolTypes.map Kind.name).map .string)) =
        some c.finder.includeSymbolTypes := by
    rw [List.map_map]
    exact Value.list?_map Kind.ofExactName?_name _
  have hpatterns : Value.list? Value.string? (.array (c.finder.excludeFilePatterns.map .string)) =
      some c.finder.excludeFilePatterns :=
    have hread (s : String) : Value.string? (.string s) = some s := rfl
    Value.list?_map hread _
  rw [toToml, setting_cons_self]
  generalize hv : Value.table _ = v
  obtain ⟨settings, hsettings, hgiven, -⟩ := Value.exists_settings hv (by simp)
  simp only [List.forall_mem_cons] at hgiven
  obtain ⟨hmode, hbatch, hsymbols, hcaching, hincremental, hmemory, htypes, hfiles, hlength,
    hthresholds, -⟩ := hgiven
  refine bind_of_eq_some (hsettings _ (by simp)) ?_
  refine bind_of_eq_some ((hmode _ _).trans (AnalysisMode.ofName?_name _)) ?_
  refine bind_of_eq_some (hbatch _ _) ?_
  refine bind_of_eq_some (hsymbols _ _) ?_
  refine bind_of_eq_some (hcaching _ _) ?_
  refine bind_of_eq_some (hincremental _ _) ?_
  refine bind_of_eq_some (hmemory _ _) ?_
  refine bind_of_eq_some ((htypes _ _).trans hkinds) ?_
  refine bind_of_eq_some ((hfiles _ _).trans hpatterns) ?_
  refine bind_of_eq_some (hlength _ _) ?_
  exact bind_of_eq_some ((hthresholds _ _).trans (Thresholds.ofToml?_toToml _)) rfl

private theorem store_toToml (c : Config) :
    setting c.toToml "store" StoreConfig.ofToml? {} = some c.store := by
  rw [toToml, setting_cons_ne (by decide), setting_cons_self]
  generalize hv : Value.table _ = v
  obtain ⟨settings, hsettings, hread⟩ := Value.exists_settings hv
    (by cases c.store.persistDir <;> simp)
  have hdir := hread.optional (by simp) (by simp)
  have hgiven := hread.given
  simp only [List.forall_mem_append, List.forall_mem_cons] at hgiven
  obtain ⟨⟨⟨hbackend, hcollection, -⟩, -⟩, hresults, hpooling, hconnections, htimeout, hcache, httl,
    hentries, hasync, hqueries, hsearch, hindex, -⟩ := hgiven
  refine bind_of_eq_some (hsettings _ (by cases c.store.persistDir <;> simp)) ?_
  refine bind_of_eq_some ((hbackend _ _).trans (BackendKind.ofName?_name _)) ?_
  refine bind_of_eq_some (hcollection _ _) ?_
  refine bind_of_eq_some hdir ?_
  refine bind_of_eq_some (hresults _ _) ?_
  refine bind_of_eq_some (hpooling _ _) ?_
  refine bind_of_eq_some (hconnections _ _) ?_
  refine bind_of_eq_some (htimeout _ _) ?_
  refine bind_of_eq_some (hcache _ _) ?_
  refine bind_of_eq_some (httl _ _) ?_
  refine bind_of_eq_some (hentries _ _) ?_
  refine bind_of_eq_some (hasync _ _) ?_
  refine bind_of_eq_some (hqueries _ _) ?_
  refine bind_of_eq_some (hsearch _ _) ?_
  exact bind_of_eq_some ((hindex _ _).trans (IndexParams.ofToml?_toToml _)) rfl

private theorem embeddings_toToml (c : Config) :
    setting c.toToml "embeddings" EmbeddingsConfig.ofToml? {} = some c.embeddings := by
  rw [toToml, setting_cons_ne (by decide), setting_cons_ne (by decide), setting_cons_self]
  generalize hv : Value.table _ = v
  obtain ⟨settings, hsettings, hread⟩ := Value.exists_settings hv
    (by cases c.embeddings.model <;> simp)
  have hmodel := hread.optional (by simp) (by simp)
  have hgiven := hread.given
  simp only [List.forall_mem_append, List.forall_mem_cons] at hgiven
  obtain ⟨⟨⟨hprovider, -⟩, -⟩, hdimension, hbatch, hnormalize, -⟩ := hgiven
  refine bind_of_eq_some (hsettings _ (by cases c.embeddings.model <;> simp)) ?_
  refine bind_of_eq_some ((hprovider _ _).trans (ProviderKind.ofName?_name _)) ?_
  refine bind_of_eq_some hmodel ?_
  refine bind_of_eq_some (hdimension _ _) ?_
  refine bind_of_eq_some (hbatch _ _) ?_
  exact bind_of_eq_some (hnormalize _ _) rfl

/-- A configuration is read from its document. -/
theorem ofToml?_toToml (c : Config) : ofToml? c.toToml = some c := by
  rw [ofToml?, finder_toToml, store_toToml, embeddings_toToml]
  rfl

end Config

end CodeClones
