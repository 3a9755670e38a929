import CodeClones.Proofs.Config.Normal
import CodeClones.Proofs.Toml.Documents
import CodeClones.Proofs.Toml.Ranges

/-!
# Writing configurations

The natural numbers of a configuration that is read have 64 bits, so that its document is read from
the text that it is written as.
-/

namespace CodeClones

namespace Toml

section

variable {α : Type} {settings : Table} {names : List String} {name : String} {v : Value}
  {read : Value → Option α} {default a : α}

/-- The settings of a section in range are in range. -/
theorem Value.InRange.settings? (hv : v.InRange) (h : v.settings? names = some settings) :
    ∀ entry ∈ settings, entry.2.InRange := by
  intro entry hentry
  cases hv with
  | table entries inRange =>
    cases h
    exact inRange entry (List.mem_filter.mp hentry).1
  | array items inRange =>
    cases h
    exact inRange entry.2 (List.of_mem_zip hentry).2
  | moment =>
    cases h
    cases hentry
  | string | integer | float | bool => cases h

/-- A setting is read from a value in range, or is the default. -/
theorem setting_cases (hsettings : ∀ entry ∈ settings, entry.2.InRange)
    (h : setting settings name read default = some a) :
    (∃ v : Value, v.InRange ∧ read v = some a) ∨ a = default := by
  rw [setting] at h
  cases hlookup : settings.lookup name with
  | none =>
    rw [hlookup] at h
    exact .inr (Option.some.inj h).symm
  | some v =>
    rw [hlookup] at h
    obtain ⟨before, after, rfl, -⟩ := List.lookup_eq_some_iff.mp hlookup
    exact .inl ⟨v, hsettings (name, v) (by simp), h⟩

/-- Natural numbers with 64 bits stay so when they are read. -/
theorem inRange_of_setting {n d : Nat} (hsettings : ∀ entry ∈ settings, entry.2.InRange)
    (hd : (Config.natural d).InRange) (h : setting settings name Value.natural? d = some n) :
    (Config.natural n).InRange := by
  rcases setting_cases hsettings h with ⟨v, hv, hn⟩ | rfl
  · cases hv with
    | integer i low high =>
      rw [Value.natural?] at hn
      split at hn
      case isTrue hpos =>
        cases hn
        rw [Config.natural, Int.toNat_of_nonneg hpos]
        exact .integer i low high
      case isFalse => cases hn
    | string | float | bool | moment | array | table => cases hn
  · exact hd

theorem inRange_natural {n : Nat} (hn : n ≤ 10000) : (Config.natural n).InRange := by
  have hlow : Int64.minValue.toInt ≤ 0 := by decide
  have hhigh : 10000 ≤ Int64.maxValue.toInt := by decide
  exact .integer _ (by omega) (by omega)

end

end Toml

open Toml

section Reading

variable {v : Toml.Value} {s : Toml.Table} {names : List String} {n d : Nat} {name : String}

theorem inRange_of_settings (hv : v.InRange) (hs : v.settings? names = some s) (hd : d ≤ 10000)
    (h : setting s name Value.natural? d = some n) : (Config.natural n).InRange :=
  inRange_of_setting (hv.settings? hs) (inRange_natural hd) h

/-- The natural numbers of a section have 64 bits. -/
def FinderConfig.Fits (f : FinderConfig) : Prop :=
  ∀ n ∈ [f.batchSize, f.maxSymbols, f.minSymbolLength], (Config.natural n).InRange

theorem FinderConfig.fits_of_ofToml? {f : FinderConfig} (hv : v.InRange) (h : ofToml? v = some f) :
    f.Fits := by
  rw [ofToml?] at h
  obtain ⟨s, hs, h⟩ := Option.bind_eq_some_iff.mp h
  obtain ⟨mode, -, h⟩ := Option.bind_eq_some_iff.mp h
  obtain ⟨batch, hbatch, h⟩ := Option.bind_eq_some_iff.mp h
  obtain ⟨symbols, hsymbols, h⟩ := Option.bind_eq_some_iff.mp h
  obtain ⟨caching, -, h⟩ := Option.bind_eq_some_iff.mp h
  obtain ⟨incremental, -, h⟩ := Option.bind_eq_some_iff.mp h
  obtain ⟨memory, -, h⟩ := Option.bind_eq_some_iff.mp h
  obtain ⟨types, -, h⟩ := Option.bind_eq_some_iff.mp h
  obtain ⟨files, -, h⟩ := Option.bind_eq_some_iff.mp h
  obtain ⟨length, hlength, h⟩ := Option.bind_eq_some_iff.mp h
  obtain ⟨thresholds, -, h⟩ := Option.bind_eq_some_iff.mp h
  cases h
  simp only [Fits, List.forall_mem_cons]
  exact ⟨inRange_of_settings hv hs (by decide) hbatch,
    inRange_of_settings hv hs (by decide) hsymbols,
    inRange_of_settings hv hs (by decide) hlength, by simp⟩

/-- The natural numbers of a section have 64 bits. -/
def IndexParams.Fits (i : IndexParams) : Prop :=
  ∀ n ∈ [i.m, i.constructionEf, i.searchEf, i.numThreads], (Config.natural n).InRange

theorem IndexParams.fits_of_ofToml? {i : IndexParams} (hv : v.InRange) (h : ofToml? v = some i) :
    i.Fits := by
  rw [ofToml?] at h
  obtain ⟨s, hs, h⟩ := Option.bind_eq_some_iff.mp h
  obtain ⟨space, -, h⟩ := Option.bind_eq_some_iff.mp h
  obtain ⟨m, hm, h⟩ := Option.bind_eq_some_iff.mp h
  obtain ⟨construction, hconstruction, h⟩ := Option.bind_eq_some_iff.mp h
  obtain ⟨search, hsearch, h⟩ := Option.bind_eq_some_iff.mp h
  obtain ⟨threads, hthreads, h⟩ := Option.bind_eq_some_iff.mp h
  cases h
  simp only [Fits, List.forall_mem_cons]
  exact ⟨inRange_of_settings hv hs (by decide) hm,
    inRange_of_settings hv hs (by decide) hconstruction,
    inRange_of_settings hv hs (by decide) hsearch,
    inRange_of_settings hv hs (by decide) hthreads, by simp⟩

theorem IndexParams.fits_default : ({} : IndexParams).Fits := by
  simp only [Fits, List.forall_mem_cons]
  exact ⟨inRange_natural (by decide), inRange_natural (by decide), inRange_natural (by decide),
    inRange_natural (by decide), by simp⟩

/-- The natural numbers of a section have 64 bits. -/
def StoreConfig.Fits (s : StoreConfig) : Prop :=
  (∀ n ∈ [s.maxResults, s.maxConnections, s.connectionTimeoutSecs, s.cacheTtlSecs,
    s.maxCacheEntries, s.maxConcurrentQueries, s.searchTimeoutSecs], (Config.natural n).InRange) ∧
    s.index.Fits

theorem StoreConfig.fits_of_ofToml? {c : StoreConfig} (hv : v.InRange) (h : ofToml? v = some c) :
    c.Fits := by
  rw [ofToml?] at h
  obtain ⟨s, hs, h⟩ := Option.bind_eq_some_iff.mp h
  obtain ⟨backend, -, h⟩ := Option.bind_eq_some_iff.mp h
  obtain ⟨collection, -, h⟩ := Option.bind_eq_some_iff.mp h
  obtain ⟨dir, -, h⟩ := Option.bind_eq_some_iff.mp h
  obtain ⟨results, hresults, h⟩ := Option.bind_eq_some_iff.mp h
  obtain ⟨pooling, -, h⟩ := Option.bind_eq_some_iff.mp h
  obtain ⟨connections, hconnections, h⟩ := Option.bind_eq_some_iff.mp h
  obtain ⟨timeout, htimeout, h⟩ := Option.bind_eq_some_iff.mp h
  obtain ⟨caching, -, h⟩ := Option.bind_eq_some_iff.mp h
  obtain ⟨ttl, httl, h⟩ := Option.bind_eq_some_iff.mp h
  obtain ⟨entries, hentries, h⟩ := Option.bind_eq_some_iff.mp h
  obtain ⟨async, -, h⟩ := Option.bind_eq_some_iff.mp h
  obtain ⟨queries, hqueries, h⟩ := Option.bind_eq_some_iff.mp h
  obtain ⟨search, hsearch, h⟩ := Option.bind_eq_some_iff.mp h
  obtain ⟨index, hindex, h⟩ := Option.bind_eq_some_iff.mp h
  cases h
  have hfits : index.Fits := by
    rcases setting_cases (hv.settings? hs) hindex with ⟨w, hw, hread⟩ | rfl
    · exact IndexParams.fits_of_ofToml? hw hread
    · exact IndexParams.fits_default
  simp only [Fits, List.forall_mem_cons]
  exact ⟨⟨inRange_of_settings hv hs (by decide) hresults,
    inRange_of_settings hv hs (by decide) hconnections,
    inRange_of_settings hv hs (by decide) htimeout,
    inRange_of_settings hv hs (by decide) httl,
    inRange_of_settings hv hs (by decide) hentries,
    inRange_of_settings hv hs (by decide) hqueries,
    inRange_of_settings hv hs (by decide) hsearch, by simp⟩, hfits⟩

/-- The natural numbers of a section have 64 bits. -/
def EmbeddingsConfig.Fits (e : EmbeddingsConfig) : Prop :=
  ∀ n ∈ [e.dimension, e.batchSize], (Config.natural n).InRange

theorem EmbeddingsConfig.fits_of_ofToml? {e : EmbeddingsConfig} (hv : v.InRange)
    (h : ofToml? v = some e) : e.Fits := by
  rw [ofToml?] at h
  obtain ⟨s, hs, h⟩ := Option.bind_eq_some_iff.mp h
  obtain ⟨provider, -, h⟩ := Option.bind_eq_some_iff.mp h
  obtain ⟨model, -, h⟩ := Option.bind_eq_some_iff.mp h
  obtain ⟨dimension, hdimension, h⟩ := Option.bind_eq_some_iff.mp h
  obtain ⟨batch, hbatch, h⟩ := Option.bind_eq_some_iff.mp h
  obtain ⟨normal, -, h⟩ := Option.bind_eq_some_iff.mp h
  cases h
  simp only [Fits, List.forall_mem_cons]
  exact ⟨inRange_of_settings hv hs (by decide) hdimension,
    inRange_of_settings hv hs (by decide) hbatch, by simp⟩

end Reading

namespace Config

/-- The natural numbers of a configuration have 64 bits. -/
structure Fits (c : Config) : Prop where
  finder : c.finder.Fits
  store : c.store.Fits
  embeddings : c.embeddings.Fits

theorem fits_default : ({} : Config).Fits := by
  refine ⟨?_, ⟨?_, IndexParams.fits_default⟩, ?_⟩ <;>
    simp only [FinderConfig.Fits, EmbeddingsConfig.Fits, List.forall_mem_cons] <;>
    simp [inRange_natural]

theorem Fits.normalize {c : Config} (h : c.Fits) : c.normalize.Fits where
  finder := by simpa only [Config.normalize, FinderConfig.Fits] using h.finder
  store := by simpa only [Config.normalize, StoreConfig.Fits] using h.store
  embeddings := by simpa only [Config.normalize, EmbeddingsConfig.Fits] using h.embeddings

/-- A configuration that is read from a document in range fits. -/
theorem fits_of_ofToml? {t : Toml.Table} {c : Config} (ht : (Value.table t).InRange)
    (h : ofToml? t = some c) : c.Fits := by
  cases ht with
  | table _ hentries =>
    simp only [ofToml?, Option.bind_eq_bind, Option.bind_eq_some_iff, Option.pure_def,
      Option.some.injEq] at h
    obtain ⟨finder, hfinder, store, hstore, embeddings, hembeddings, rfl⟩ := h
    refine ⟨?_, ?_, ?_⟩
    · rcases setting_cases hentries hfinder with ⟨v, hv, hread⟩ | rfl
      · exact FinderConfig.fits_of_ofToml? hv hread
      · exact fits_default.finder
    · rcases setting_cases hentries hstore with ⟨v, hv, hread⟩ | rfl
      · exact StoreConfig.fits_of_ofToml? hv hread
      · exact fits_default.store
    · rcases setting_cases hentries hembeddings with ⟨v, hv, hread⟩ | rfl
      · exact EmbeddingsConfig.fits_of_ofToml? hv hread
      · exact fits_default.embeddings

section Writing

end Writing

end Config

end CodeClones
