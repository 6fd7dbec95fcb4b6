import CodeIndex.Proofs.Embedding.Documents

/-!
# Filters on metadata

A filter gives values that the metadata has to have. Flags, texts and integers below `2 ^ 63` are compared as they
are; of any other value the JSON text is compared (`Json.asked`), and only a text equals a text. So a search finds
the documents with equal metadata exactly if all values are of the first sort, or if the others make no difference
(`filtered_search_iff`).
-/

namespace CodeIndex

open Vectors (MemoryIndex Entry Filter FieldValue Index)

/-! ## Values -/

namespace Json

/-- A value that a filter compares as it is. -/
def isComparable : Json → Bool
  | .bool _ => true
  | .str _ => true
  | .num (.int n) => n < Int.pow 2 63
  | _ => false

/-- What a filter compares in place of a value. -/
def asked (v : Json) : Json := if v.isComparable then v else .str v.render

theorem same_str {v : Json} {t : String} : v.same (.str t) = true ↔ v = .str t := by
  cases v with
  | num n => cases n <;> simp [same]
  | _ => simp [same]

theorem isComparable_of_str_same {v : Json} {t : String} (h : (str t).same v = true) : v.isComparable = true := by
  cases v with
  | str s => rfl
  | num n => cases n <;> simp [same] at h
  | _ => simp [same] at h

/-- No value is equal both to one that is not compared as it is and to its text. -/
theorem not_same_asked {v stored : Json} (hv : v.isComparable = false) (hsame : stored.same v = true) :
    stored.same v.asked = false := by
  rw [asked, hv, if_neg Bool.false_ne_true, Bool.eq_false_iff]
  intro htext
  rw [same_str.mp htext] at hsame
  rw [isComparable_of_str_same hsame] at hv
  cases hv

end Json

theorem Provider.holds_fieldValue (v stored : Json) : (Provider.fieldValue v).holds stored = stored.same v.asked := by
  have htext : ∀ t : String, FieldValue.holds (.text t) stored = stored.same (.str t) := by
    intro t
    cases stored with
    | num n => cases n <;> simp [FieldValue.holds, Json.same]
    | _ => simp [FieldValue.holds, Json.same]
  unfold Provider.fieldValue Json.asked
  split
  · cases stored with
    | num n => cases n <;> simp [FieldValue.holds, Json.same, Json.isComparable]
    | _ => simp [FieldValue.holds, Json.same, Json.isComparable]
  · simp only [Json.isComparable, if_true, htext]
  · next n =>
    by_cases hn : n < Int.pow 2 63
    · simp only [hn, if_true, Json.isComparable, decide_true]
      cases stored with
      | num m => cases m <;> simp [FieldValue.holds, Json.same]
      | _ => simp [FieldValue.holds, Json.same]
    · simp only [hn, if_false, Json.isComparable, decide_false, Bool.false_eq_true, htext]
  · next hbool hstr hint =>
    have hv : v.isComparable = false := by
      cases v with
      | num m =>
        cases m with
        | int n => exact absurd rfl (hint n)
        | float x => rfl
      | bool b => exact absurd rfl (hbool b)
      | str s => exact absurd rfl (hstr s)
      | _ => rfl
    simp only [hv, Bool.false_eq_true, if_false, htext]

/-! ## Documents -/

theorem Dict.filter_put {α : Type} (keep : String → Bool) {key : String} (h : keep key = false) (value : α)
    (d : Dict α) :
    (put key value d).filter (fun entry => keep entry.1) = d.filter fun entry => keep entry.1 := by
  induction d with
  | nil => simp [put, h]
  | cons entry d ih =>
    obtain ⟨k, v⟩ := entry
    simp only [put]
    split_ifs with hlt heq
    · simp [h]
    · simp [h, ← heq]
    · simp [List.filter_cons, ih]

/-- What a filter compares in place of the wanted values. -/
def askedFor (wanted : Dict Json) : Dict Json := wanted.map fun entry => (entry.1, entry.2.asked)

namespace Document

/-- The metadata has every key with a value that equals the given one. -/
def equals (wanted : Dict Json) (d : Document) : Bool :=
  wanted.all fun entry => (d.metadata.lookup entry.1).any (·.same entry.2)

theorem equals_iff {wanted : Dict Json} {d : Document} :
    d.equals wanted = true ↔
      ∀ entry ∈ wanted, ∃ stored, d.metadata.lookup entry.1 = some stored ∧ stored.same entry.2 = true := by
  unfold equals
  rw [List.all_eq_true]
  refine forall₂_congr fun entry _ => ?_
  cases d.metadata.lookup entry.1 <;> simp

/-- The metadata without the keys under which an index keeps the id and the text. -/
def ownMetadata (d : Document) : Dict Json :=
  d.metadata.filter fun entry => entry.1 != "content" && entry.1 != "doc_id"

theorem filter_payload (d : Document) :
    d.payload.filter (fun entry => entry.1 != "content" && entry.1 != "doc_id") = d.ownMetadata := by
  unfold payload Provider.pointOf ownMetadata
  dsimp only
  rw [Dict.filter_put (fun key => key != "content" && key != "doc_id") rfl,
    Dict.filter_put (fun key => key != "content" && key != "doc_id") rfl]

theorem lookup_payload (d : Document) {key : String} (hid : key ≠ "doc_id") (hcontent : key ≠ "content") :
    d.payload.lookup key = d.metadata.lookup key := by
  unfold payload Provider.pointOf
  dsimp only
  rw [Dict.lookup_put, if_neg hcontent, Dict.lookup_put, if_neg hid]

/-- A filter lets the documents through that have what is asked for in place of the wanted values. -/
theorem holds_payload (d : Document) {wanted : Dict Json}
    (hkeys : ∀ entry ∈ wanted, entry.1 ≠ "doc_id" ∧ entry.1 ≠ "content") :
    (Provider.filterOf wanted).holds d.payload = d.equals (askedFor wanted) := by
  unfold Filter.holds Provider.filterOf equals askedFor
  rw [List.any_nil, Bool.not_false, Bool.and_true, List.all_map, List.all_map, Bool.eq_iff_iff]
  simp only [List.all_eq_true]
  refine forall₂_congr fun entry hentry => ?_
  change (d.payload.lookup entry.1).any (Provider.fieldValue entry.2).holds = true ↔
    (d.metadata.lookup entry.1).any (·.same entry.2.asked) = true
  rw [d.lookup_payload (hkeys entry hentry).1 (hkeys entry hentry).2, funext (Provider.holds_fieldValue entry.2)]

/-- What a search shows of a document. -/
def shown (d : Document) : String × Option String × Dict Json := (d.id, some d.content, d.ownMetadata)

end Document

/-- What a result shows of its document. -/
def SearchResult.shown (r : SearchResult) : String × Option String × Dict Json := (r.id, r.content, r.metadata)

/-! ## Searches -/

namespace Provider

variable {p : Provider MemoryIndex} {docs : Dict Document}

theorem Stores.exists_search (h : p.Stores docs) {query : String} {v : List Single} {limit : Nat} (hlimit : limit ≠ 0)
    (hv : (p.embedText query).2 = .ok v) (wanted : Dict Json) :
    ∃ (q : Provider MemoryIndex) (entries : Dict Entry), q.Stores docs ∧
      q.index.collections.lookup q.collection = some entries ∧
      (p.search query limit wanted).2 =
        .ok ((Vectors.rank (q.index.hits v (filterOf wanted) entries) limit).map q.resultOf) := by
  obtain ⟨hstores, hexists⟩ := h.embedText query
  unfold Provider.search
  rw [if_neg hlimit]
  generalize p.embedText query = result at hv hstores hexists ⊢
  obtain ⟨q, answer⟩ := result
  obtain rfl : answer = .ok v := hv
  obtain ⟨entries, hentries⟩ := Option.isSome_iff_exists.mp (hexists v rfl)
  refine ⟨q, entries, hstores, hentries, ?_⟩
  simp only [Index.search, MemoryIndex.find, hentries]
  rfl

/-- The results show the documents that the filter lets through. -/
theorem Stores.shown_hits (h : p.Stores docs) {entries : Dict Entry}
    (hentries : p.index.collections.lookup p.collection = some entries) (v : List Single) {wanted : Dict Json}
    (hkeys : ∀ entry ∈ wanted, entry.1 ≠ "doc_id" ∧ entry.1 ≠ "content") :
    (p.index.hits v (filterOf wanted) entries).map (fun hit => (p.resultOf hit).shown) =
      (docs.filter fun e => e.2.equals (askedFor wanted)).map (·.2.shown) := by
  have hshown : ∀ e ∈ docs, (e.1, (e.2.payload.lookup "content").bind Json.str?,
      e.2.payload.filter fun entry => entry.1 != "content" && entry.1 != "doc_id") = e.2.shown := by
    intro e he
    have hcontent : e.2.payload.lookup "content" = some (.str e.2.content) := by
      simp [Document.payload, pointOf, Dict.lookup_put]
    rw [Document.shown, ← h.ids e he, hcontent, e.2.filter_payload]
    rfl
  calc (p.index.hits v (filterOf wanted) entries).map (fun hit => (p.resultOf hit).shown)
      = ((entries.filter fun e => (filterOf wanted).holds e.2.payload).map fun e => (e.1, e.2.payload)).map fun e =>
          (e.1, (e.2.lookup "content").bind Json.str?,
            e.2.filter fun entry => entry.1 != "content" && entry.1 != "doc_id") := by
        rw [MemoryIndex.hits, List.map_map, List.map_map]
        rfl
    _ = ((docs.filter fun e => (filterOf wanted).holds e.2.payload).map fun e => (e.1, e.2.payload)).map fun e =>
          (e.1, (e.2.lookup "content").bind Json.str?,
            e.2.filter fun entry => entry.1 != "content" && entry.1 != "doc_id") := by
        rw [h.payloads_filter hentries fun _ payload => (filterOf wanted).holds payload]
    _ = _ := by
        simp only [Document.holds_payload _ hkeys]
        rw [List.map_map]
        exact List.map_congr_left fun e he => hshown e (List.mem_of_mem_filter he)

/-- With room for all documents, a search gives those with what is asked for in place of the wanted values. -/
theorem Stores.search_perm (h : p.Stores docs) {query : String} {limit : Nat} {wanted : Dict Json}
    (hlimit : docs.length ≤ limit) (hkeys : ∀ entry ∈ wanted, entry.1 ≠ "doc_id" ∧ entry.1 ≠ "content")
    (hquery : limit = 0 ∨ ∃ v, (p.embedText query).2 = .ok v) :
    ∃ results, (p.search query limit wanted).2 = .ok results ∧
      (results.map (·.shown)).Perm
        ((docs.filter fun e => e.2.equals (askedFor wanted)).map (·.2.shown)) := by
  -- with a limit of zero nothing is embedded, and there is nothing to find
  by_cases hzero : limit = 0
  · subst hzero
    rw [List.length_eq_zero_iff.mp (Nat.le_zero.mp hlimit)]
    exact ⟨[], rfl, .nil⟩
  obtain ⟨v, hv⟩ := hquery.resolve_left hzero
  obtain ⟨q, entries, hstores, hentries, hsearch⟩ := h.exists_search hzero hv wanted
  refine ⟨_, hsearch, ?_⟩
  rw [← hstores.shown_hits hentries v hkeys, List.map_map]
  refine List.Perm.map _ ?_
  have hcount : entries.length = docs.length := by
    have hlength := congrArg List.length hstores.payloads
    simpa [MemoryIndex.entriesOf, hentries] using hlength
  have hroom : (q.index.hits v (filterOf wanted) entries).length ≤ limit := by
    rw [MemoryIndex.hits, List.length_map]
    exact (List.length_filter_le _ _).trans (hcount ▸ hlimit)
  rw [Vectors.rank, List.take_of_length_le (by rw [List.length_mergeSort]; exact hroom)]
  exact List.mergeSort_perm _ _

/-- Documents with different ids show which of them were chosen. -/
theorem Stores.perm_shown_iff (h : p.Stores docs) (chosen others : Document → Bool) :
    ((docs.filter fun e => chosen e.2).map (·.2.shown)).Perm ((docs.filter fun e => others e.2).map (·.2.shown)) ↔
      ∀ e ∈ docs, chosen e.2 = others e.2 := by
  have hsame : ∀ {p q : Document → Bool},
      ((docs.filter fun e => p e.2).map (·.2.shown)).Perm ((docs.filter fun e => q e.2).map (·.2.shown)) →
        ∀ e ∈ docs, p e.2 = true → q e.2 = true := by
    intro p q hperm e he hp
    have hmem := hperm.mem_iff.mp (List.mem_map_of_mem (List.mem_filter.mpr ⟨he, hp⟩))
    obtain ⟨e', he', hshown⟩ := List.mem_map.mp hmem
    obtain ⟨he', hq⟩ := List.mem_filter.mp he'
    -- the id tells the document
    have hid : e'.1 = e.1 := by
      rw [← h.ids e' he', ← h.ids e he]
      exact congrArg Prod.fst hshown
    obtain rfl : e' = e := List.inj_on_of_nodup_map h.sorted.nodup he' he hid
    exact hq
  constructor
  · intro hperm e he
    exact Bool.eq_iff_iff.mpr ⟨hsame hperm e he, hsame hperm.symm e he⟩
  · intro hall
    rw [List.filter_congr hall]

end Provider

/-- A value that is compared by its text parts what it is to find from what it finds. -/
theorem Document.equals_asked_iff {docs : Dict Document} {wanted : Dict Json} :
    (∀ e ∈ docs, e.2.equals (askedFor wanted) = e.2.equals wanted) ↔
      (∀ entry ∈ wanted, entry.2.isComparable = true) ∨
        ∀ e ∈ docs, e.2.equals wanted = false ∧
          e.2.equals (askedFor wanted) = false := by
  constructor
  · intro hall
    by_cases hplain : ∀ entry ∈ wanted, entry.2.isComparable = true
    · exact .inl hplain
    · obtain ⟨entry, hentry, hvalue⟩ : ∃ entry ∈ wanted, entry.2.isComparable = false := by simpa using hplain
      -- a stored value would have to equal both the wanted one and its text
      have hnot : ∀ e ∈ docs, e.2.equals wanted = false := by
        intro e he
        rw [Bool.eq_false_iff]
        intro hequals
        obtain ⟨stored, hstored, hsame⟩ := equals_iff.mp hequals entry hentry
        obtain ⟨other, hother, hasked⟩ :=
          equals_iff.mp ((hall e he).trans hequals) (entry.1, entry.2.asked) (List.mem_map_of_mem hentry)
        obtain rfl : other = stored := Option.some.inj (hother.symm.trans hstored)
        rw [Json.not_same_asked hvalue hsame] at hasked
        cases hasked
      exact .inr fun e he => ⟨hnot e he, (hall e he).trans (hnot e he)⟩
  · rintro (hplain | hnone) e he
    · have hwanted : askedFor wanted = wanted := by
        refine (List.map_congr_left fun entry hentry => ?_).trans (List.map_id wanted)
        rw [Json.asked, if_pos (hplain entry hentry)]
        rfl
      rw [hwanted]
    · rw [(hnone e he).1, (hnone e he).2]

/-- A provider over memory has, after any calls, some of the documents that were indexed, and all of them, the last of
each id, if nothing else was asked for and nothing failed. A search with room for all of them and a query that can
be embedded gives exactly those with what is asked for in place of the wanted values. These are the ones with
the wanted values if and only if all of the values are compared as they are, or no document is of either sort. -/
theorem filtered_search_iff {s : EmbeddingSettings} {metric : Vectors.Metric} {model : Model}
    {calls : List ProviderCall} {p : Provider MemoryIndex} {answers : List (Except EmbedError ProviderAnswer)}
    (hcalls : (Provider.ofParts s metric model { metric }).callAll calls = (p, answers)) :
    ∃ docs : Dict Document, p.Stores docs ∧
      (∀ e ∈ docs, ∃ documents, .index documents ∈ calls ∧ e.2 ∈ documents) ∧
      (∀ runs : List (List Document), calls = runs.map .index → (∀ answer ∈ answers, ∃ a, answer = .ok a) →
        docs = Document.putAll runs.flatten []) ∧
      ∀ query limit wanted, docs.length ≤ limit → (∀ entry ∈ wanted, entry.1 ≠ "doc_id" ∧ entry.1 ≠ "content") →
        (limit = 0 ∨ ∃ v, (p.embedText query).2 = .ok v) →
        ∃ results, (p.search query limit wanted).2 = .ok results ∧
          (results.map (·.shown)).Perm
            ((docs.filter fun e => e.2.equals (askedFor wanted)).map (·.2.shown)) ∧
          ((results.map (·.shown)).Perm ((docs.filter fun e => e.2.equals wanted).map (·.2.shown)) ↔
            (∀ entry ∈ wanted, entry.2.isComparable = true) ∨
              ∀ e ∈ docs, e.2.equals wanted = false ∧
                e.2.equals (askedFor wanted) = false) := by
  obtain ⟨docs, hstores, hfrom, hruns⟩ := (Provider.stores_ofParts s metric model).callAll calls
  rw [hcalls] at hstores hruns
  refine ⟨docs, hstores, fun e he => (hfrom e he).resolve_left List.not_mem_nil, hruns, ?_⟩
  intro query limit wanted hlimit hkeys hquery
  obtain ⟨results, hok, hperm⟩ := hstores.search_perm hlimit hkeys hquery
  refine ⟨results, hok, hperm, ?_⟩
  rw [← Document.equals_asked_iff, ← hstores.perm_shown_iff]
  exact ⟨hperm.symm.trans, hperm.trans⟩

/-- A document with a number, one with the text of the number, and one with the text of a flag. -/
def scoredDocuments : List Document :=
  [{ id := "b", content := "y", metadata := [("exported", .bool true), ("score", .str "1.5")] },
    { id := "a", content := "x",
      metadata := [("exported", .bool true), ("score", .num (.float ⟨0x3ff8000000000000⟩))] },
    { id := "c", content := "z", metadata := [("exported", .str "true")] }]

def scoredRun : Provider MemoryIndex × List (Except EmbedError ProviderAnswer) :=
  (Provider.ofParts {} .cosine unevenModel { metric := .cosine }).callAll [.index scoredDocuments]

theorem filtered_search_iff_exported :
    (∀ answer ∈ scoredRun.2, ∃ a, answer = .ok a) ∧
      ∃ results, (scoredRun.1.search "x" 3 [("exported", .bool true)]).2 = .ok results ∧
        (results.map (·.shown)).Perm
          [("a", some "x", [("exported", .bool true), ("score", .num (.float ⟨0x3ff8000000000000⟩))]),
            ("b", some "y", [("exported", .bool true), ("score", .str "1.5")])] := by
  have hall : scoredRun.2.all Except.isOk = true := by decide +kernel
  have hok : ∀ answer ∈ scoredRun.2, ∃ a, answer = .ok a := fun answer hanswer =>
    exists_of_isOk (List.all_eq_true.mp hall answer hanswer)
  have hquery : (scoredRun.1.embedText "x").2.isOk = true := by decide +kernel
  obtain ⟨docs, -, -, hdocs, hsearch⟩ := filtered_search_iff (rfl : _ = (scoredRun.1, scoredRun.2))
  obtain rfl := hdocs [scoredDocuments] rfl hok
  obtain ⟨results, hresults, -, hiff⟩ :=
    hsearch "x" 3 [("exported", .bool true)] (by decide +kernel) (by simp) (.inr (exists_of_isOk hquery))
  exact ⟨hok, results, hresults, hiff.mpr (.inl (by simp [Json.isComparable]))⟩

/-- A search for a number finds its text, and not the number. -/
theorem number_found_as_text :
    (scoredRun.1.search "x" 3 [("score", .num (.float ⟨0x3ff8000000000000⟩))]).2.toOption.map (·.map (·.id)) =
        some ["b"] ∧
      ((Document.putAll scoredDocuments []).filter fun e =>
        e.2.equals [("score", .num (.float ⟨0x3ff8000000000000⟩))]).map (·.1) = ["a"] := by
  decide +kernel

end CodeIndex
