import CodeIndex.Proofs.Embedding.Batches

/-!
# The documents of a provider over memory

A provider over memory has documents by their ids, the last one of an id (`Stores`). A call that indexes documents
adds them, up to the batch that fails; a call that deletes removes some of them; the others leave them as they are.
So a provider that was empty at first stores documents after any calls (`Stores.callAll`), and after calls that did
nothing but index, it stores all of them.
-/

namespace CodeIndex

open Vectors (MemoryIndex Entry Payload Index)

theorem Dict.map_put {α β : Type} (f : α → β) (key : String) (value : α) (d : Dict α) :
    (put key value d).map (fun entry => (entry.1, f entry.2)) =
      put key (f value) (d.map fun entry => (entry.1, f entry.2)) := by
  induction d with
  | nil => rfl
  | cons entry d ih =>
    obtain ⟨k, v⟩ := entry
    simp only [put, List.map_cons]
    split_ifs
    · rfl
    · rfl
    · rw [List.map_cons, ih]

theorem Dict.map_filter {α β : Type} (f : α → β) (keep : String → β → Bool) (d : Dict α) :
    (d.filter fun entry => keep entry.1 (f entry.2)).map (fun entry => (entry.1, f entry.2)) =
      (d.map fun entry => (entry.1, f entry.2)).filter fun entry => keep entry.1 entry.2 := by
  rw [List.filter_map]
  rfl

theorem Dict.lookup_putNew_self {α : Type} (key : String) (value : α) (d : Dict α) :
    (putNew key value d).lookup key = some ((d.lookup key).getD value) := by
  unfold putNew
  cases h : d.lookup key <;> simp [h, lookup_put]

namespace Document

/-- What an index has of a document. -/
def payload (d : Document) : Payload := (Provider.pointOf d []).payload

/-- Puts documents under their ids, the later ones over the earlier. -/
def putAll (documents : List Document) (docs : Dict Document) : Dict Document :=
  documents.foldl (fun docs d => Dict.put d.id d docs) docs

theorem putAll_append (documents more : List Document) (docs : Dict Document) :
    putAll (documents ++ more) docs = putAll more (putAll documents docs) :=
  List.foldl_append

theorem sorted_putAll {docs : Dict Document} (h : Dict.Sorted docs) (documents : List Document) :
    Dict.Sorted (putAll documents docs) := by
  induction documents generalizing docs with
  | nil => exact h
  | cons d documents ih => exact ih (h.put d.id d)

theorem mem_putAll {documents : List Document} {docs : Dict Document} {entry : String × Document}
    (h : entry ∈ putAll documents docs) : entry ∈ docs ∨ (entry.2 ∈ documents ∧ entry.2.id = entry.1) := by
  induction documents generalizing docs with
  | nil => exact .inl h
  | cons d documents ih =>
    rcases ih h with hput | ⟨hmem, hid⟩
    · rcases Dict.mem_put hput with rfl | hold
      · exact .inr ⟨List.mem_cons_self, rfl⟩
      · exact .inl hold
    · exact .inr ⟨List.mem_cons_of_mem d hmem, hid⟩

theorem payloads_putAll {batch : List Document} {vectors : List (List Single)} (hlength : vectors.length = batch.length)
    {entries : Dict Entry} {docs : Dict Document}
    (h : entries.map (fun e => (e.1, e.2.payload)) = docs.map fun e => (e.1, e.2.payload)) :
    (MemoryIndex.putAll (List.zipWith Provider.pointOf batch vectors) entries).map (fun e => (e.1, e.2.payload)) =
      (putAll batch docs).map fun e => (e.1, e.2.payload) := by
  induction batch generalizing vectors entries docs with
  | nil => exact h
  | cons d batch ih =>
    cases vectors with
    | nil => cases hlength
    | cons v vectors =>
      refine ih (Nat.succ.inj hlength) ?_
      rw [Dict.map_put Entry.payload, Dict.map_put payload, h]
      rfl

end Document

namespace Provider

theorem flatten_batches {α : Type} (n : Nat) (xs : List α) : (batches n xs).flatten = xs := by
  fun_induction batches n xs with
  | case1 => rfl
  | case2 a rest ih => rw [List.flatten_cons, ih, List.cons_append, List.take_append_drop]

/-- A provider over memory whose collection has these documents, each under its id. -/
structure Stores (p : Provider MemoryIndex) (docs : Dict Document) : Prop where
  sorted : Dict.Sorted docs
  ids : ∀ entry ∈ docs, entry.2.id = entry.1
  payloads : (p.index.entriesOf p.collection).map (fun e => (e.1, e.2.payload)) = docs.map fun e => (e.1, e.2.payload)
  exists_of_measured : p.measured.isSome = true → (p.index.collections.lookup p.collection).isSome = true

/-- Replaces what the collection has. -/
def withEntries (p : Provider MemoryIndex) (entries : Dict Entry) : Provider MemoryIndex :=
  { p with index := p.index.set p.collection entries }

variable {p : Provider MemoryIndex} {docs : Dict Document}

theorem stores_ofParts (s : EmbeddingSettings) (metric : Vectors.Metric) (model : Model) :
    (ofParts s metric model ({ metric } : MemoryIndex)).Stores [] where
  sorted := .nil
  ids := List.forall_mem_nil _
  payloads := rfl
  exists_of_measured h := absurd h Bool.false_ne_true

namespace Stores

/-! ## Changes of the collection -/

theorem withEntries {entries : Dict Entry} (hsorted : Dict.Sorted docs) (hids : ∀ entry ∈ docs, entry.2.id = entry.1)
    (hpayloads : entries.map (fun e => (e.1, e.2.payload)) = docs.map fun e => (e.1, e.2.payload)) :
    (p.withEntries entries).Stores docs where
  sorted := hsorted
  ids := hids
  payloads := by
    rw [Provider.withEntries, MemoryIndex.entriesOf_set]
    exact hpayloads
  exists_of_measured _ := by
    rw [Provider.withEntries, MemoryIndex.lookup_set]
    rfl

theorem putAll (h : p.Stores docs) {batch : List Document} {vectors : List (List Single)}
    (hlength : vectors.length = batch.length) :
    (p.withEntries
        (MemoryIndex.putAll (List.zipWith pointOf batch vectors) (p.index.entriesOf p.collection))).Stores
      (Document.putAll batch docs) := by
  refine withEntries (Document.sorted_putAll h.sorted batch) (fun entry hentry => ?_) (Document.payloads_putAll hlength h.payloads)
  rcases Document.mem_putAll hentry with hold | ⟨-, hid⟩
  · exact h.ids entry hold
  · exact hid

theorem payloads_filter (h : p.Stores docs) {entries : Dict Entry}
    (hlookup : p.index.collections.lookup p.collection = some entries) (keep : String → Payload → Bool) :
    (entries.filter fun e => keep e.1 e.2.payload).map (fun e => (e.1, e.2.payload)) =
      (docs.filter fun e => keep e.1 e.2.payload).map fun e => (e.1, e.2.payload) := by
  rw [Dict.map_filter Entry.payload, Dict.map_filter Document.payload, ← h.payloads, MemoryIndex.entriesOf, hlookup,
    Option.getD_some]

theorem filter (h : p.Stores docs) {entries : Dict Entry}
    (hlookup : p.index.collections.lookup p.collection = some entries) (keep : String → Payload → Bool) :
    (p.withEntries (entries.filter fun e => keep e.1 e.2.payload)).Stores
      (docs.filter fun e => keep e.1 e.2.payload) :=
  withEntries (h.sorted.sublist List.filter_sublist) (fun entry hentry => h.ids entry (List.mem_of_mem_filter hentry))
    (h.payloads_filter hlookup keep)

theorem ensure (hsorted : Dict.Sorted docs) (hids : ∀ entry ∈ docs, entry.2.id = entry.1)
    (hpayloads : (p.index.entriesOf p.collection).map (fun e => (e.1, e.2.payload)) = docs.map fun e => (e.1, e.2.payload))
    (measured : Option Nat) :
    { p with index := { p.index with collections := Dict.putNew p.collection [] p.index.collections },
             measured }.Stores docs where
  sorted := hsorted
  ids := hids
  payloads := by
    rw [MemoryIndex.entriesOf, Dict.lookup_putNew_self]
    exact hpayloads
  exists_of_measured _ := by
    rw [Dict.lookup_putNew_self]
    rfl

/-! ## Embedding -/

theorem prepare (h : p.Stores docs) :
    p.prepare.1.Stores docs ∧ ∀ n, p.prepare.2 = .ok n → p.prepare.1.measured = some n := by
  unfold Provider.prepare
  cases hmeasured : p.measured with
  | some n =>
    refine ⟨h, fun m hm => ?_⟩
    cases hm
    exact hmeasured
  | none =>
    unfold measure
    cases hembed : p.model.embed sampleText with
    | error e => exact ⟨h, fun n hn => by cases hn⟩
    | ok v =>
      by_cases hzero : v.length = 0
      · simp only [bind, Except.bind, hzero, if_true]
        exact ⟨h, fun n hn => by cases hn⟩
      · simp only [bind, Except.bind, hzero, if_false]
        refine ⟨ensure h.sorted h.ids h.payloads _, fun m hm => ?_⟩
        cases hm
        rfl

theorem embedText (h : p.Stores docs) (text : String) :
    (p.embedText text).1.Stores docs ∧
      ∀ v, (p.embedText text).2 = .ok v →
        ((p.embedText text).1.index.collections.lookup (p.embedText text).1.collection).isSome = true := by
  obtain ⟨hstores, hmeasured⟩ := h.prepare
  unfold Provider.embedText
  rcases hprepare : p.prepare with ⟨q, answer⟩
  rw [hprepare] at hstores hmeasured
  cases answer with
  | error e => exact ⟨hstores, fun v hv => by cases hv⟩
  | ok n =>
    refine ⟨hstores, fun v _ => hstores.exists_of_measured ?_⟩
    rw [hmeasured n rfl]
    rfl

theorem embedBatch (h : p.Stores docs) (texts : List String) :
    (p.embedBatch texts).1.Stores docs ∧
      ∀ vectors, (p.embedBatch texts).2 = .ok vectors → vectors.length = texts.length := by
  obtain ⟨hstores, -⟩ := h.prepare
  unfold Provider.embedBatch
  split
  · next hempty =>
    refine ⟨h, fun vectors hvectors => ?_⟩
    cases hvectors
    rw [List.isEmpty_iff.mp hempty]
    rfl
  · rcases hprepare : p.prepare with ⟨q, answer⟩
    rw [hprepare] at hstores
    cases answer with
    | error e => exact ⟨hstores, fun vectors hvectors => by cases hvectors⟩
    | ok n =>
      refine ⟨hstores, fun vectors hvectors => ?_⟩
      exact length_of_mapM ((Calls.collect_eq_mapM _ _ _ _).symm.trans hvectors)

/-! ## Indexing -/

theorem indexBatch (h : p.Stores docs) (batch : List Document) :
    ((p.indexBatch batch).2 = .ok () → (p.indexBatch batch).1.Stores (Document.putAll batch docs)) ∧
      ∀ e, (p.indexBatch batch).2 = .error e → (p.indexBatch batch).1.Stores docs := by
  obtain ⟨hstores, hlength⟩ := h.embedBatch (batch.map (·.content))
  unfold Provider.indexBatch
  generalize p.embedBatch (batch.map (·.content)) = result at hstores hlength ⊢
  obtain ⟨q, answer⟩ := result
  cases answer with
  | error e => exact ⟨fun hok => (by cases hok), fun _ _ => hstores⟩
  | ok vectors =>
    have hcount : vectors.length = batch.length := (hlength vectors rfl).trans (List.length_map _)
    dsimp only
    cases hupsert : Index.upsert q.index q.collection (List.zipWith pointOf batch vectors) with
    | error e => exact ⟨fun hok => (by cases hok), fun _ _ => hstores⟩
    | ok index =>
      rw [MemoryIndex.eq_of_upsert hupsert]
      exact ⟨fun _ => hstores.putAll hcount, fun e he => by cases he⟩

/-- The batches before one that fails are stored, and all of them if none does. -/
theorem indexBatches (h : p.Stores docs) (done : Nat) (batches : List (List Document)) :
    ∃ taken, taken <+: batches ∧ (p.indexBatches done batches).1.Stores (Document.putAll taken.flatten docs) ∧
      ∀ n, (p.indexBatches done batches).2 = .ok n → taken = batches := by
  induction batches generalizing p docs done with
  | nil => exact ⟨[], List.prefix_rfl, h, fun _ _ => rfl⟩
  | cons batch batches ih =>
    obtain ⟨hok, herror⟩ := h.indexBatch batch
    unfold Provider.indexBatches
    rcases hbatch : p.indexBatch batch with ⟨q, answer⟩
    rw [hbatch] at hok herror
    cases answer with
    | error e => exact ⟨[], List.nil_prefix, herror e rfl, fun n hn => by cases hn⟩
    | ok _ =>
      obtain ⟨taken, hprefix, hstores, hall⟩ := ih (hok rfl) (done + batch.length)
      refine ⟨batch :: taken, List.cons_prefix_cons.mpr ⟨rfl, hprefix⟩, ?_, fun n hn => by rw [hall n hn]⟩
      rw [List.flatten_cons, Document.putAll_append]
      exact hstores

theorem indexDocuments (h : p.Stores docs) (documents : List Document) :
    ∃ taken, taken <+: documents ∧ (p.indexDocuments documents).1.Stores (Document.putAll taken docs) ∧
      ∀ n, (p.indexDocuments documents).2 = .ok n → taken = documents := by
  obtain ⟨taken, ⟨left, hleft⟩, hstores, hall⟩ := h.indexBatches 0 (batches (p.batchSize - 1) documents)
  refine ⟨taken.flatten, ⟨left.flatten, ?_⟩, hstores, fun n hn => ?_⟩
  · rw [← List.flatten_append, hleft, flatten_batches]
  · rw [hall n hn, flatten_batches]

/-! ## Calls -/

theorem deleteDocument (h : p.Stores docs) (id : String) :
    ∃ q left, p.deleteDocument id = .ok q ∧ left.Sublist docs ∧ q.Stores left := by
  unfold Provider.deleteDocument
  cases hlookup : p.index.collections.lookup p.collection with
  | none =>
    simp only [Index.has, hlookup, Option.isSome_none]
    exact ⟨p, docs, rfl, List.Sublist.refl docs, h⟩
  | some entries =>
    simp only [Index.has, hlookup, Option.isSome_some, Index.deleteIds, MemoryIndex.find]
    exact ⟨_, _, rfl, List.filter_sublist, h.filter hlookup fun other _ => !List.contains [id] other⟩

theorem deleteFile (h : p.Stores docs) (file : String) :
    ∃ q n left, p.deleteFile file = .ok (q, n) ∧ left.Sublist docs ∧ q.Stores left := by
  unfold Provider.deleteFile
  cases hlookup : p.index.collections.lookup p.collection with
  | none =>
    simp only [Index.has, hlookup, Option.isSome_none]
    exact ⟨p, 0, docs, rfl, List.Sublist.refl docs, h⟩
  | some entries =>
    simp only [Index.has, hlookup, Option.isSome_some, Index.deleteWhere]
    exact ⟨_, _, _, rfl, List.filter_sublist,
      h.filter hlookup fun _ payload => !Vectors.Filter.holds { must := [⟨"file_path", .text file⟩] } payload⟩

theorem clear (p : Provider MemoryIndex) : p.clear.1.Stores [] := by
  obtain ⟨q, hdrop, hnone⟩ : ∃ q, p.dropCollection = .ok q ∧ q.index.collections.lookup q.collection = none := by
    unfold dropCollection
    cases hlookup : p.index.collections.lookup p.collection with
    | none =>
      simp only [Index.has, hlookup, Option.isSome_none]
      exact ⟨p, rfl, hlookup⟩
    | some entries =>
      simp only [Index.has, hlookup, Option.isSome_some, Index.drop]
      exact ⟨_, rfl, by rw [MemoryIndex.lookup_without, if_pos rfl]⟩
  have hentries := MemoryIndex.entriesOf_of_absent hnone
  unfold Provider.clear
  rw [hdrop]
  dsimp only
  cases hmeasured : q.measured with
  | none => exact ⟨.nil, List.forall_mem_nil _, by rw [hentries]; rfl, fun h => by rw [hmeasured] at h; cases h⟩
  | some n => exact ensure .nil (List.forall_mem_nil _) (by rw [hentries]; rfl) (some n)

theorem search (h : p.Stores docs) (query : String) (limit : Nat) (wanted : Dict Json) :
    (p.search query limit wanted).1.Stores docs := by
  obtain ⟨hstores, -⟩ := h.embedText query
  unfold Provider.search
  split
  · exact h
  · generalize p.embedText query = result at hstores ⊢
    obtain ⟨q, answer⟩ := result
    cases answer <;> exact hstores

/-- What a call does to the documents: none is there that was not there before or is indexed now, and a call that
indexes documents and succeeds puts all of them. -/
theorem call (h : p.Stores docs) (c : ProviderCall) :
    ∃ others, (p.call c).1.Stores others ∧
      (∀ entry ∈ others, entry ∈ docs ∨ ∃ documents, c = .index documents ∧ entry.2 ∈ documents) ∧
      ∀ documents answer, c = .index documents → (p.call c).2 = .ok answer → others = Document.putAll documents docs := by
  cases c with
  | index documents =>
    obtain ⟨taken, hprefix, hstores, hall⟩ := h.indexDocuments documents
    refine ⟨_, hstores, fun entry hentry => ?_, fun documents' answer heq hok => ?_⟩
    · rcases Document.mem_putAll hentry with hold | ⟨hmem, -⟩
      · exact .inl hold
      · exact .inr ⟨documents, rfl, hprefix.subset hmem⟩
    · cases heq
      cases hanswer : (p.indexDocuments documents).2 with
      | error e =>
        simp only [Provider.call, hanswer, Except.map] at hok
        cases hok
      | ok n => rw [hall n hanswer]
  | deleteDocument id =>
    obtain ⟨q, left, hq, hleft, hstores⟩ := h.deleteDocument id
    rw [Provider.call, hq]
    exact ⟨left, hstores, fun entry hentry => .inl (hleft.subset hentry), fun _ _ heq => by cases heq⟩
  | deleteFile file =>
    obtain ⟨q, n, left, hq, hleft, hstores⟩ := h.deleteFile file
    rw [Provider.call, hq]
    exact ⟨left, hstores, fun entry hentry => .inl (hleft.subset hentry), fun _ _ heq => by cases heq⟩
  | clear => exact ⟨[], clear p, List.forall_mem_nil _, fun _ _ heq => by cases heq⟩
  | stats => exact ⟨docs, h, fun _ hentry => .inl hentry, fun _ _ heq => by cases heq⟩
  | search query limit wanted =>
    exact ⟨docs, h.search query limit wanted, fun _ hentry => .inl hentry, fun _ _ heq => by cases heq⟩

/-- After any calls the provider has documents that were there before or were indexed, and after calls that all
indexed documents and succeeded it has all of them. -/
theorem callAll (h : p.Stores docs) (calls : List ProviderCall) :
    ∃ others, (p.callAll calls).1.Stores others ∧
      (∀ entry ∈ others, entry ∈ docs ∨ ∃ documents, .index documents ∈ calls ∧ entry.2 ∈ documents) ∧
      ∀ runs : List (List Document), calls = runs.map .index → (∀ answer ∈ (p.callAll calls).2, ∃ a, answer = .ok a) →
        others = Document.putAll runs.flatten docs := by
  induction calls generalizing p docs with
  | nil =>
    refine ⟨docs, h, fun _ hentry => .inl hentry, fun runs hruns _ => ?_⟩
    rw [List.map_eq_nil_iff.mp hruns.symm]
    rfl
  | cons c calls ih =>
    obtain ⟨middle, hmiddle, hfrom, hput⟩ := h.call c
    obtain ⟨others, hothers, hfrom', hput'⟩ := ih hmiddle
    refine ⟨others, hothers, fun entry hentry => ?_, fun runs hruns hok => ?_⟩
    · rcases hfrom' entry hentry with hold | ⟨documents, hmem, hentry⟩
      · rcases hfrom entry hold with hold | ⟨documents, rfl, hentry⟩
        · exact .inl hold
        · exact .inr ⟨documents, List.mem_cons_self, hentry⟩
      · exact .inr ⟨documents, List.mem_cons_of_mem c hmem, hentry⟩
    · obtain ⟨documents, runs, rfl, rfl, rfl⟩ := List.map_eq_cons_iff.mp hruns.symm
      obtain ⟨a, ha⟩ := hok _ List.mem_cons_self
      rw [hput' runs rfl fun answer hanswer => hok answer (List.mem_cons_of_mem _ hanswer), hput documents a rfl ha,
        List.flatten_cons, Document.putAll_append]

end Stores

end Provider

end CodeIndex
