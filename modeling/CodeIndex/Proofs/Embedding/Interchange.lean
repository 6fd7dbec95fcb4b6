import CodeIndex.Embedding.Provider
import CodeIndex.Proofs.Embedding.Calls
import CodeIndex.Proofs.Except
import CodeIndex.Proofs.Vectors.Agreement

/-!
# Providers over a table and over memory

Two providers that differ in their index alone are `Alike` as long as their indexes agree under the collection.
Every call keeps that and has one answer, up to what a table does not keep: the texts of documents and the values
of their metadata that are not plain.
-/

namespace CodeIndex

open Vectors (MemoryIndex TableIndex Index Filter Hit Point Tabular Agrees)

/-! ## Documents -/

/-- A document whose metadata a row can tell: the file is a text and so is the symbol if there is one, and the
plain values can be read back from their JSON text. -/
structure Document.Tabular (d : Document) : Prop where
  sorted : Dict.Sorted d.metadata
  file : ∃ s, d.metadata.lookup "file_path" = some (.str s)
  symbol : ∀ v, d.metadata.lookup "symbol_name" = some v → ∃ s, v = .str s
  readable : Json.parse? (Json.obj (Vectors.plainPart d.metadata)).render =
    some (.obj (Vectors.plainPart d.metadata))

/-- A value in a column of its own is no part of the JSON text. -/
theorem Vectors.plainPart_put {p : Vectors.Payload} (hsorted : Dict.Sorted p) {k : String}
    (hk : k ∈ TableIndex.reserved) (v : Json) : plainPart (Dict.put k v p) = plainPart p := by
  have hput : Dict.Sorted (Dict.put k v p) := hsorted.put k v
  refine Dict.Sorted.ext (hput.sublist List.filter_sublist) (hsorted.sublist List.filter_sublist) fun key => ?_
  rw [lookup_plainPart hput, lookup_plainPart hsorted, Dict.lookup_put]
  by_cases hkey : key = k
  · simp [hkey, hk]
  · rw [if_neg hkey]

theorem Document.Tabular.pointOf {d : Document} (h : d.Tabular) (v : List Single) :
    Vectors.Tabular (Provider.pointOf d v).id (Provider.pointOf d v).payload where
  sorted := (h.sorted.put _ _).put _ _
  docId := by simp [Provider.pointOf, Dict.lookup_put]
  file := by
    obtain ⟨s, hs⟩ := h.file
    exact ⟨s, by simp [Provider.pointOf, Dict.lookup_put, hs]⟩
  symbol w hw := by
    refine h.symbol w ?_
    simpa [Provider.pointOf, Dict.lookup_put] using hw
  readable := by
    have hplain : Vectors.plainPart (Provider.pointOf d v).payload = Vectors.plainPart d.metadata := by
      refine (Vectors.plainPart_put (h.sorted.put _ _) ?_ _).trans (Vectors.plainPart_put h.sorted ?_ _) <;>
        simp [TableIndex.reserved]
    rw [hplain, h.readable]

/-! ## Results -/

/-- A result as a table tells it. -/
def SearchResult.kept (r : SearchResult) : SearchResult :=
  { r with content := none, metadata := r.metadata.filter fun (_, v) => TableIndex.isPlain v }

/-- An answer as a table under a name gives it. -/
def ProviderAnswer.kept (backend : String) : ProviderAnswer → ProviderAnswer
  | .stats s => .stats { s with backend }
  | .found results => .found (results.map SearchResult.kept)
  | answer => answer

theorem Provider.resultOf_kept {σ τ : Type} {p : Provider σ} {q : Provider τ} (hmetric : q.metric = p.metric)
    {h : Hit} (htabular : Tabular h.id h.payload) : q.resultOf h.kept = (p.resultOf h).kept := by
  have hsorted := htabular.sorted
  obtain ⟨file, hfile⟩ := htabular.file
  have hsymbol : (Vectors.kept h.payload).lookup "symbol_name" = h.payload.lookup "symbol_name" := by
    rw [Vectors.lookup_kept hsorted]
    cases hlookup : h.payload.lookup "symbol_name" with
    | none => rfl
    | some v =>
      obtain ⟨s, rfl⟩ := htabular.symbol v hlookup
      simp [Vectors.isPlain_str, Option.filter_some]
  have hfile' : (Vectors.kept h.payload).lookup "file_path" = some (.str file) := by
    simp [Vectors.lookup_kept hsorted, hfile, Vectors.isPlain_str, Option.filter_some]
  have hcontent : (Vectors.kept h.payload).lookup "content" = none := by
    simp [Vectors.lookup_kept hsorted]
  have hmetadata : (Vectors.kept h.payload).filter (fun (k, _) => k != "content" && k != "doc_id") =
      (h.payload.filter fun (k, _) => k != "content" && k != "doc_id").filter
        fun (_, v) => TableIndex.isPlain v := by
    rw [Vectors.kept, List.filter_filter, List.filter_filter]
    refine List.filter_congr fun (k, v) _ => ?_
    dsimp only
    cases k != "content" <;> cases k != "doc_id" <;> cases TableIndex.isPlain v <;> rfl
  simp [resultOf, Hit.kept, SearchResult.kept, hsymbol, hfile, hfile', hcontent, hmetadata, hmetric]

/-! ## Providers -/

/-- Two providers over one model, over memory and over a table under a name, whose indexes agree. The dimension is
that of a vector in memory. -/
structure Alike (backend : String) (m : Provider MemoryIndex) (t : Provider TableIndex) : Prop where
  named : t.backend = backend
  collection : t.collection = m.collection
  metric : t.metric = m.metric
  batchSize : t.batchSize = m.batchSize
  model : t.model = m.model
  measured : t.measured = m.measured
  sample : ∀ v, m.model.embed Provider.sampleText = .ok v → v.length < 2 ^ 63
  small : ∀ n, m.measured = some n → n < 2 ^ 63
  index : Agrees m.collection m.measured m.index t.index

namespace Alike

variable {backend : String} {m : Provider MemoryIndex} {t : Provider TableIndex}

theorem setIndex (h : Alike backend m t) {x : MemoryIndex} {y : TableIndex}
    (hindex : Agrees m.collection m.measured x y) : Alike backend { m with index := x } { t with index := y } :=
  { h with index := hindex }

/-- Both measure the same dimension, or both fail alike. -/
theorem prepare (h : Alike backend m t) :
    Alike backend m.prepare.1 t.prepare.1 ∧ t.prepare.2 = m.prepare.2 ∧
      ∀ n, m.prepare.2 = .ok n → m.prepare.1.measured = some n := by
  unfold Provider.prepare
  rw [h.measured]
  cases hmeasured : m.measured with
  | some n => exact ⟨h, rfl, fun k hk => hmeasured.trans (congrArg some (Except.ok.inj hk))⟩
  | none =>
    unfold Provider.measure
    rw [h.model, h.collection]
    cases hsample : m.model.embed Provider.sampleText with
    | error e => exact ⟨h, rfl, nofun⟩
    | ok v =>
      by_cases hempty : v.length = 0
      · simp only [bind, Except.bind, hempty, if_true]
        exact ⟨h, trivial, nofun⟩
      · obtain ⟨x, y, hx, hy, hindex⟩ := h.index.ensure (h.sample v hsample)
        simp only [bind, Except.bind, hempty, if_false, hx, hy, Provider.lift, pure, Except.pure]
        refine ⟨?_, trivial, fun n hn => congrArg some (Except.ok.inj hn)⟩
        rw [hmeasured] at hindex
        exact { h with
          collection := rfl
          model := rfl
          measured := rfl
          small := fun n hn => Option.some.inj hn ▸ h.sample v hsample
          index := hindex.resize _ }

theorem embedSized_eq (h : Alike backend m t) (n : Nat) : t.embedSized n = m.embedSized n := by
  funext text
  rw [Provider.embedSized, Provider.embedSized, h.model]

theorem length_of_embedSized {n : Nat} {text : String} {v : List Single} (hv : m.embedSized n text = .ok v) :
    v.length = n := by
  unfold Provider.embedSized at hv
  cases hembed : m.model.embed text with
  | error e => simp [hembed, bind, Except.bind] at hv
  | ok w =>
    simp only [hembed, bind, Except.bind, Provider.sized] at hv
    split at hv
    · next hlength =>
      cases hv
      exact hlength
    · cases hv

theorem embedText (h : Alike backend m t) (text : String) :
    Alike backend (m.embedText text).1 (t.embedText text).1 ∧ (t.embedText text).2 = (m.embedText text).2 ∧
      ∀ v, (m.embedText text).2 = .ok v → (m.embedText text).1.measured = some v.length := by
  obtain ⟨hprepared, hanswer, hmeasured⟩ := h.prepare
  unfold Provider.embedText
  rcases hm : m.prepare with ⟨m', answer⟩
  rcases ht : t.prepare with ⟨t', answer'⟩
  rw [hm, ht] at hprepared hanswer
  rw [hm] at hmeasured
  dsimp only at hprepared hanswer hmeasured
  subst hanswer
  cases answer' with
  | error e => exact ⟨hprepared, rfl, nofun⟩
  | ok n =>
    refine ⟨hprepared, congrFun (hprepared.embedSized_eq n) text, fun v hv => ?_⟩
    rw [length_of_embedSized hv]
    exact hmeasured n rfl

theorem embedBatch (h : Alike backend m t) (texts : List String) :
    Alike backend (m.embedBatch texts).1 (t.embedBatch texts).1 ∧
      (t.embedBatch texts).2 = (m.embedBatch texts).2 ∧
      ∀ vs, (m.embedBatch texts).2 = .ok vs → ∀ v ∈ vs, (m.embedBatch texts).1.measured = some v.length := by
  obtain ⟨hprepared, hanswer, hmeasured⟩ := h.prepare
  unfold Provider.embedBatch
  cases htexts : texts.isEmpty with
  | true =>
    refine ⟨h, rfl, fun vs hvs => ?_⟩
    cases hvs
    exact nofun
  | false =>
    simp only [Bool.false_eq_true, if_false]
    rcases hm : m.prepare with ⟨m', answer⟩
    rcases ht : t.prepare with ⟨t', answer'⟩
    rw [hm, ht] at hprepared hanswer
    rw [hm] at hmeasured
    dsimp only at hprepared hanswer hmeasured
    subst hanswer
    cases answer' with
    | error e => exact ⟨hprepared, rfl, nofun⟩
    | ok n =>
      simp only [Calls.collect_eq_mapM]
      refine ⟨hprepared, congrArg (texts.mapM ·) (hprepared.embedSized_eq n), fun vs hvs v hv => ?_⟩
      obtain ⟨text, _, htext⟩ := exists_of_mapM hvs v hv
      rw [length_of_embedSized htext]
      exact hmeasured n rfl

/-- A batch is stored by both, or fails alike. -/
theorem indexBatch (h : Alike backend m t) {batch : List Document} (hbatch : ∀ d ∈ batch, d.Tabular) :
    Alike backend (m.indexBatch batch).1 (t.indexBatch batch).1 ∧ (t.indexBatch batch).2 = (m.indexBatch batch).2 := by
  obtain ⟨hembedded, hanswer, hsizes⟩ := h.embedBatch (batch.map (·.content))
  unfold Provider.indexBatch
  rcases hm : m.embedBatch (batch.map (·.content)) with ⟨m', answer⟩
  rcases ht : t.embedBatch (batch.map (·.content)) with ⟨t', answer'⟩
  rw [hm, ht] at hembedded hanswer
  rw [hm] at hsizes
  dsimp only at hembedded hanswer hsizes
  subst hanswer
  rw [hm, ht]
  cases answer' with
  | error e => exact ⟨hembedded, rfl⟩
  | ok vectors =>
    have hpoint : ∀ p ∈ List.zipWith Provider.pointOf batch vectors,
        ∃ d ∈ batch, ∃ v ∈ vectors, p = Provider.pointOf d v := by
      intro p hp
      rw [← List.map_uncurry_zip_eq_zipWith] at hp
      obtain ⟨pair, hpair, rfl⟩ := List.mem_map.mp hp
      obtain ⟨hd, hv⟩ := List.of_mem_zip hpair
      exact ⟨pair.1, hd, pair.2, hv, rfl⟩
    have htabular : ∀ p ∈ List.zipWith Provider.pointOf batch vectors, Tabular p.id p.payload := by
      intro p hp
      obtain ⟨d, hd, v, _, rfl⟩ := hpoint p hp
      exact (hbatch d hd).pointOf v
    have hsized : ∀ p ∈ List.zipWith Provider.pointOf batch vectors, m'.measured = some p.vector.length := by
      intro p hp
      obtain ⟨d, _, v, hv, rfl⟩ := hpoint p hp
      exact hsizes vectors rfl v hv
    dsimp only
    rcases hembedded.index.upsert htabular hsized with ⟨e, hx, hy⟩ | ⟨x, y, hx, hy, hindex⟩ <;>
      rw [← hembedded.collection] at hy
    · rw [hx, hy]
      exact ⟨hembedded, rfl⟩
    · rw [hx, hy]
      exact ⟨hembedded.setIndex hindex, rfl⟩

theorem indexBatches (h : Alike backend m t) {batches : List (List Document)}
    (hbatches : ∀ batch ∈ batches, ∀ d ∈ batch, d.Tabular) (done : Nat) :
    Alike backend (m.indexBatches done batches).1 (t.indexBatches done batches).1 ∧
      (t.indexBatches done batches).2 = (m.indexBatches done batches).2 := by
  induction batches generalizing m t done with
  | nil => exact ⟨h, rfl⟩
  | cons batch rest ih =>
    obtain ⟨hfirst, hanswer⟩ := h.indexBatch (hbatches batch List.mem_cons_self)
    unfold Provider.indexBatches
    rcases hm : m.indexBatch batch with ⟨m', answer⟩
    rcases ht : t.indexBatch batch with ⟨t', answer'⟩
    rw [hm, ht] at hfirst hanswer
    dsimp only at hfirst hanswer
    subst hanswer
    cases answer' with
    | error e => exact ⟨hfirst, rfl⟩
    | ok _ => exact ih hfirst (fun b hb => hbatches b (List.mem_cons_of_mem batch hb)) _

theorem mem_of_mem_batches {α : Type} {n : Nat} {xs batch : List α} (hbatch : batch ∈ Provider.batches n xs) :
    ∀ x ∈ batch, x ∈ xs := by
  fun_induction Provider.batches n xs with
  | case1 => cases hbatch
  | case2 a rest ih =>
    intro x hx
    rcases List.mem_cons.mp hbatch with rfl | hbatch
    · rcases List.mem_cons.mp hx with rfl | hx
      · exact List.mem_cons_self
      · exact List.mem_cons_of_mem a (List.mem_of_mem_take hx)
    · exact List.mem_cons_of_mem a (List.mem_of_mem_drop (ih hbatch x hx))

theorem indexDocuments (h : Alike backend m t) {documents : List Document} (hdocuments : ∀ d ∈ documents, d.Tabular) :
    Alike backend (m.indexDocuments documents).1 (t.indexDocuments documents).1 ∧
      (t.indexDocuments documents).2 = (m.indexDocuments documents).2 := by
  unfold Provider.indexDocuments
  rw [h.batchSize]
  exact h.indexBatches (fun batch hbatch d hd => hdocuments d (mem_of_mem_batches hbatch d hd)) 0

theorem offText_filterOf {wanted : Dict Json} (h : ∀ entry ∈ wanted, entry.1 ≠ "content") :
    (Provider.filterOf wanted).OffText := by
  refine ⟨fun c hc => ?_, nofun⟩
  obtain ⟨entry, hentry, rfl⟩ := List.mem_map.mp hc
  exact h entry hentry

theorem search (h : Alike backend m t) (query : String) (limit : Nat) {wanted : Dict Json}
    (hwanted : ∀ entry ∈ wanted, entry.1 ≠ "content") :
    Alike backend (m.search query limit wanted).1 (t.search query limit wanted).1 ∧
      (t.search query limit wanted).2 = (m.search query limit wanted).2.map (·.map SearchResult.kept) := by
  unfold Provider.search
  by_cases hlimit : limit = 0
  · simp only [hlimit, if_true]
    exact ⟨h, rfl⟩
  simp only [hlimit, if_false]
  obtain ⟨hembedded, hanswer, hsize⟩ := h.embedText query
  rcases hm : m.embedText query with ⟨m', answer⟩
  rcases ht : t.embedText query with ⟨t', answer'⟩
  rw [hm, ht] at hembedded hanswer
  rw [hm] at hsize
  dsimp only at hembedded hanswer hsize
  subst hanswer
  cases answer' with
  | error e => exact ⟨hembedded, rfl⟩
  | ok v =>
    refine ⟨hembedded, ?_⟩
    dsimp only
    have hfound := hembedded.index.search (offText_filterOf hwanted) (hsize v rfl) limit
    rw [hembedded.collection, hfound]
    cases hhits : Index.search m'.index m'.collection v limit (Provider.filterOf wanted) with
    | error e => rfl
    | ok hits =>
      have htabular := hembedded.index.tabular_of_mem_search hhits
      simp only [Except.map, Provider.lift, List.map_map, Except.ok.injEq]
      exact List.map_congr_left fun hit hhit => Provider.resultOf_kept hembedded.metric (htabular hit hhit)

theorem deleteDocument (h : Alike backend m t) (id : String) :
    ∃ m' t', m.deleteDocument id = .ok m' ∧ t.deleteDocument id = .ok t' ∧ Alike backend m' t' := by
  unfold Provider.deleteDocument
  rw [h.collection]
  rcases h.index.has_cases with ⟨hhas, hm, ht⟩ | ⟨hhas, hm, ht⟩ <;>
    simp only [hm, ht, bind, Except.bind, pure, Except.pure, Bool.false_eq_true, if_true, if_false]
  · obtain ⟨x, y, hx, hy, hindex⟩ := h.index.deleteIds hhas (List.cons_ne_nil id [])
    simp only [hx, hy]
    exact ⟨_, _, rfl, rfl, { h.setIndex hindex with collection := rfl }⟩
  · exact ⟨m, t, rfl, rfl, h⟩

theorem deleteFile (h : Alike backend m t) (file : String) :
    ∃ m' t' n, m.deleteFile file = .ok (m', n) ∧ t.deleteFile file = .ok (t', n) ∧ Alike backend m' t' := by
  have hfile : Filter.OffText { must := [⟨"file_path", .text file⟩] } := by
    simp [Filter.OffText]
  unfold Provider.deleteFile
  rw [h.collection]
  rcases h.index.has_cases with ⟨hhas, hm, ht⟩ | ⟨hhas, hm, ht⟩ <;>
    simp only [hm, ht, bind, Except.bind, pure, Except.pure, Bool.false_eq_true, if_true, if_false]
  · obtain ⟨x, y, n, hx, hy, hindex⟩ := h.index.deleteWhere hhas hfile
    simp only [hx, hy]
    exact ⟨_, _, n, rfl, rfl, { h.setIndex hindex with collection := rfl }⟩
  · exact ⟨m, t, 0, rfl, rfl, h⟩

theorem dropCollection (h : Alike backend m t) :
    ∃ m' t', m.dropCollection = .ok m' ∧ t.dropCollection = .ok t' ∧ Alike backend m' t' := by
  unfold Provider.dropCollection
  rw [h.collection]
  rcases h.index.has_cases with ⟨hhas, hm, ht⟩ | ⟨hhas, hm, ht⟩ <;>
    simp only [hm, ht, bind, Except.bind, pure, Except.pure, Bool.false_eq_true, if_true, if_false]
  · obtain ⟨x, y, hx, hy, hindex⟩ := h.index.drop m.measured
    simp only [hx, hy]
    exact ⟨_, _, rfl, rfl, { h.setIndex hindex with collection := rfl }⟩
  · exact ⟨m, t, rfl, rfl, h⟩

theorem clear (h : Alike backend m t) : Alike backend m.clear.1 t.clear.1 ∧ t.clear.2 = m.clear.2 := by
  obtain ⟨m', t', hm, ht, hdropped⟩ := h.dropCollection
  unfold Provider.clear
  rw [hm, ht]
  dsimp only
  rw [hdropped.measured]
  cases hmeasured : m'.measured with
  | none => exact ⟨hdropped, rfl⟩
  | some n =>
    obtain ⟨x, y, hx, hy, hindex⟩ := hdropped.index.ensure (hdropped.small n hmeasured)
    rw [← hdropped.collection] at hy
    simp only [hx, hy]
    exact ⟨{ hdropped.setIndex hindex with
      measured := rfl
      small := fun k hk => hdropped.small k (hmeasured.trans hk)
      index := hmeasured ▸ hindex }, trivial⟩

theorem stats (h : Alike backend m t) : t.stats = m.stats.map ({ · with backend }) := by
  unfold Provider.stats
  rw [h.collection, h.index.count_eq, h.model, h.metric, h.measured, h.named]
  cases Index.count m.index m.collection <;> rfl

end Alike

/-- The documents of a call can be told by rows, and its filter does not name their texts. -/
def ProviderCall.Tabular : ProviderCall → Prop
  | .index documents => ∀ d ∈ documents, d.Tabular
  | .search _ _ wanted => ∀ entry ∈ wanted, entry.1 ≠ "content"
  | _ => True

namespace Alike

variable {backend : String} {m : Provider MemoryIndex} {t : Provider TableIndex}

/-- One call keeps two providers alike, and the table gives the answer of the memory as far as it keeps it. -/
theorem call (h : Alike backend m t) {c : ProviderCall} (hc : c.Tabular) :
    Alike backend (m.call c).1 (t.call c).1 ∧ (t.call c).2 = (m.call c).2.map (·.kept backend) := by
  cases c with
  | index documents =>
    obtain ⟨hafter, hanswer⟩ := h.indexDocuments hc
    refine ⟨hafter, ?_⟩
    simp only [Provider.call, hanswer]
    cases (m.indexDocuments documents).2 <;> rfl
  | deleteDocument id =>
    obtain ⟨m', t', hm, ht, hafter⟩ := h.deleteDocument id
    simp only [Provider.call, hm, ht]
    exact ⟨hafter, rfl⟩
  | deleteFile file =>
    obtain ⟨m', t', n, hm, ht, hafter⟩ := h.deleteFile file
    simp only [Provider.call, hm, ht]
    exact ⟨hafter, rfl⟩
  | clear =>
    obtain ⟨hafter, hanswer⟩ := h.clear
    refine ⟨hafter, ?_⟩
    simp only [Provider.call, hanswer]
    cases m.clear.2 <;> rfl
  | stats =>
    refine ⟨h, ?_⟩
    simp only [Provider.call, h.stats]
    cases m.stats <;> rfl
  | search query limit wanted =>
    obtain ⟨hafter, hanswer⟩ := h.search query limit hc
    refine ⟨hafter, ?_⟩
    simp only [Provider.call, hanswer]
    cases (m.search query limit wanted).2 <;> rfl

theorem callAll (h : Alike backend m t) {calls : List ProviderCall} (hcalls : ∀ c ∈ calls, c.Tabular) :
    Alike backend (m.callAll calls).1 (t.callAll calls).1 ∧
      (t.callAll calls).2 = (m.callAll calls).2.map (·.map (·.kept backend)) := by
  induction calls generalizing m t with
  | nil => exact ⟨h, rfl⟩
  | cons c calls ih =>
    obtain ⟨hfirst, hanswer⟩ := h.call (hcalls c List.mem_cons_self)
    obtain ⟨hrest, hanswers⟩ := ih hfirst fun c' hc' => hcalls c' (List.mem_cons_of_mem c hc')
    refine ⟨hrest, ?_⟩
    simp only [Provider.callAll, hanswer, hanswers, List.map_cons]

theorem ofParts (s : EmbeddingSettings) (metric : Vectors.Metric) (model : Model)
    (hsample : ∀ v, model.embed Provider.sampleText = .ok v → v.length < 2 ^ 63) :
    Alike "sqlite" (Provider.ofParts { s with vectorStore := "memory" } metric model { metric })
      (Provider.ofParts { s with vectorStore := "sqlite" } metric model { metric }) where
  named := by
    change ("sqlite" : String).map Char.toLower = "sqlite"
    rw [← String.toList_inj, String.toList_map]
    decide
  collection := rfl
  metric := rfl
  batchSize := rfl
  model := rfl
  measured := rfl
  sample := hsample
  small := nofun
  index := .empty s.collection metric

end Alike

/-- Providers over a table and over memory, both empty at first, answer any calls alike: a table leaves out texts
and values that are not plain, and its stats bear its name. Searches of their indexes find the same points at the
same distances, and the order in which the memory visits its points does not matter. Lengths of vectors are below
`2 ^ 63`, as those of all sequences in a machine's memory. -/
theorem table_provider_as_memory (s : EmbeddingSettings) (metric : Vectors.Metric) (model : Model)
    (hsample : ∀ v, model.embed Provider.sampleText = .ok v → v.length < 2 ^ 63)
    (calls : List ProviderCall) (hcalls : ∀ c ∈ calls, c.Tabular) :
    let m := (Provider.ofParts { s with vectorStore := "memory" } metric model ({ metric } : MemoryIndex)).callAll calls
    let t := (Provider.ofParts { s with vectorStore := "sqlite" } metric model ({ metric } : TableIndex)).callAll calls
    t.2 = m.2.map (·.map (·.kept "sqlite")) ∧
      (∀ v limit f, Filter.OffText f → m.1.measured = some v.length →
        Index.search t.1.index t.1.collection v limit f =
          (Index.search m.1.index m.1.collection v limit f).map (·.map Hit.kept)) ∧
      ∀ entries others v f limit, m.1.index.collections.lookup m.1.collection = some entries →
        others.Perm entries →
          Vectors.rank (m.1.index.hits v f others) limit = Vectors.rank (m.1.index.hits v f entries) limit := by
  intro m t
  obtain ⟨halike, hanswers⟩ := (Alike.ofParts s metric model hsample).callAll hcalls
  refine ⟨hanswers, fun v limit f hf hv => ?_, fun entries others v f limit hentries hperm => ?_⟩
  · rw [halike.collection]
    exact halike.index.search hf hv limit
  · have hids := halike.index.nodup_ids_hits v f
    rw [MemoryIndex.entriesOf, hentries] at hids
    exact Vectors.rank_perm hids ((hperm.filter _).map _) limit

/-- A document with a plain value, a text in a column and a value that no table keeps. -/
def exportedDocument : Document :=
  { id := "a.py:f", content := "def f(): pass"
    metadata := [("exported", .bool true), ("file_path", .str "a.py"), ("tags", .arr [.str "x"])] }

theorem tabular_exportedDocument : exportedDocument.Tabular where
  sorted := by
    simp only [exportedDocument, Dict.Sorted]
    decide
  file := ⟨"a.py", rfl⟩
  symbol := nofun
  readable := by
    have hplain : Vectors.plainPart exportedDocument.metadata = [("exported", .bool true)] := by
      simp [Vectors.plainPart, exportedDocument, TableIndex.reserved, TableIndex.isPlain]
    have hrender : (Json.obj [("exported", .bool true)]).render = "\x7b\"exported\":true\x7d" := by
      decide +kernel
    rw [hplain, hrender]
    simp [Json.parse?, Json.value?, Json.members?, Json.text?, Json.skipBlanks, Json.isJsonBlank, Json.ofMembers,
      Dict.ofList, Dict.put]

/-- A model that embeds every text alike. -/
def constantModel : Model :=
  { type := "constant", name := "constant", dimension := 1, embed := fun _ => .ok [.one] }

def exportedCalls : List ProviderCall :=
  [.index [exportedDocument, exportedDocument], .search "f" 3 [("exported", .bool true)], .stats,
    .deleteFile "a.py", .clear]

theorem table_provider_as_memory_exported :
    (∀ v, constantModel.embed Provider.sampleText = .ok v → v.length < 2 ^ 63) ∧
      (∀ c ∈ exportedCalls, c.Tabular) ∧
      ((Provider.ofParts { vectorStore := "sqlite" } .cosine constantModel
          ({ metric := .cosine } : TableIndex)).callAll exportedCalls).2 =
        ((Provider.ofParts { vectorStore := "memory" } .cosine constantModel
          ({ metric := .cosine } : MemoryIndex)).callAll exportedCalls).2.map (·.map (·.kept "sqlite")) := by
  have hsample : ∀ v, constantModel.embed Provider.sampleText = .ok v → v.length < 2 ^ 63 := by
    intro v hv
    cases hv
    decide
  have hcalls : ∀ c ∈ exportedCalls, c.Tabular := by
    simp [exportedCalls, ProviderCall.Tabular, tabular_exportedDocument]
  exact ⟨hsample, hcalls, (table_provider_as_memory {} .cosine constantModel hsample exportedCalls hcalls).1⟩

end CodeIndex
