import Mathlib.Data.Prod.Lex
import CodeIndex.Proofs.Graph.Table
import CodeIndex.Vectors.Memory
import CodeIndex.Vectors.Table

/-!
# Points in tables agree with points in memory

A row tells the plain values of a payload and not its text (`kept`). Under one collection a table has the rows
of the entries that the memory has (`Agrees`), every operation keeps that, and a search finds the same points at
the same distances. Hits are ranked by distance and id, so the order in which points are visited does not matter.
-/

namespace CodeIndex.Vectors

/-! ## Ranking -/

/-- Distance and id, compared in this order. -/
def Hit.place (h : Hit) : Int ×ₗ String := toLex (h.distance.totalKey, h.id)

theorem Hit.le_iff (a b : Hit) : a.le b = true ↔ a.place ≤ b.place := by
  simp [Hit.le, place, Prod.Lex.toLex_le_toLex]

theorem Hit.id_eq_of_place {a b : Hit} (h : a.place = b.place) : a.id = b.id :=
  congrArg (fun p => (ofLex p).2) h

theorem pairwise_mergeSort_hit (hits : List Hit) : (hits.mergeSort Hit.le).Pairwise fun a b => a.le b = true := by
  refine List.pairwise_mergeSort (fun a b c => ?_) (fun a b => ?_) hits
  · simp only [Hit.le_iff]
    exact le_trans
  · simp only [Bool.or_eq_true, Hit.le_iff]
    exact le_total _ _

section Rank

variable {hits others : List Hit}

/-- Hits of different ids have one order, which a change of payloads leaves alone. -/
theorem rank_map {f : Hit → Hit} (hf : ∀ h, (f h).place = h.place) (hids : (hits.map (·.id)).Nodup)
    (hperm : others.Perm (hits.map f)) (limit : Nat) : rank others limit = (rank hits limit).map f := by
  have hsorted : ((hits.mergeSort Hit.le).map f).Pairwise fun a b => a.le b = true := by
    refine List.pairwise_map.mpr ((pairwise_mergeSort_hit hits).imp fun {a b} hle => ?_)
    rw [Hit.le_iff] at hle ⊢
    rwa [hf, hf]
  have hboth : (others.mergeSort Hit.le).Perm ((hits.mergeSort Hit.le).map f) :=
    ((List.mergeSort_perm _ _).trans hperm).trans ((List.mergeSort_perm _ _).symm.map f)
  have hequal : others.mergeSort Hit.le = (hits.mergeSort Hit.le).map f := by
    refine hboth.eq_of_pairwise (fun a b ha hb hab hba => ?_) (pairwise_mergeSort_hit others) hsorted
    obtain ⟨a, ha', rfl⟩ := List.mem_map.mp (hboth.mem_iff.mp ha)
    obtain ⟨b, hb', rfl⟩ := List.mem_map.mp hb
    have hplace := le_antisymm ((Hit.le_iff _ _).mp hab) ((Hit.le_iff _ _).mp hba)
    rw [hf, hf] at hplace
    rw [List.inj_on_of_nodup_map hids (List.mem_mergeSort.mp ha') (List.mem_mergeSort.mp hb')
      (Hit.id_eq_of_place hplace)]
  rw [rank, rank, hequal, List.map_take]

theorem rank_perm (hids : (hits.map (·.id)).Nodup) (hperm : others.Perm hits) (limit : Nat) :
    rank others limit = rank hits limit := by
  have hsame := rank_map (f := id) (fun _ => rfl) hids (by simpa using hperm) limit
  simpa using hsame

end Rank

/-! ## Payloads -/

/-- What a row tells of a payload: its plain values, without the text. -/
def kept (p : Payload) : Payload := p.filter fun (k, v) => k != "content" && TableIndex.isPlain v

/-- The values that a row keeps as JSON text. -/
def plainPart (p : Payload) : Payload :=
  p.filter fun (k, v) => !TableIndex.reserved.contains k && TableIndex.isPlain v

/-- A payload that a row can stand for: its id and its file are texts, and so is the symbol if there is one; its
plain values can be read back from their text. -/
structure Tabular (id : String) (p : Payload) : Prop where
  sorted : Dict.Sorted p
  docId : p.lookup "doc_id" = some (.str id)
  file : ∃ s, p.lookup "file_path" = some (.str s)
  symbol : ∀ v, p.lookup "symbol_name" = some v → ∃ s, v = .str s
  readable : Json.parse? (Json.obj (plainPart p)).render = some (.obj (plainPart p))

variable {id : String} {p : Payload}

theorem lookup_kept (hsorted : Dict.Sorted p) (k : String) :
    (kept p).lookup k = (p.lookup k).filter fun v => k != "content" && TableIndex.isPlain v :=
  Dict.lookup_filter hsorted.nodup _ k

theorem lookup_plainPart (hsorted : Dict.Sorted p) (k : String) :
    (plainPart p).lookup k =
      (p.lookup k).filter fun v => !TableIndex.reserved.contains k && TableIndex.isPlain v :=
  Dict.lookup_filter hsorted.nodup _ k

theorem isPlain_str (s : String) : TableIndex.isPlain (.str s) = true := rfl

theorem Tabular.symbol_eq (h : Tabular id p) :
    p.lookup "symbol_name" = ((p.lookup "symbol_name").bind Json.str?).map .str := by
  cases hsymbol : p.lookup "symbol_name" with
  | none => rfl
  | some v =>
    obtain ⟨s, rfl⟩ := h.symbol v hsymbol
    rfl

/-- Outside the columns a row reads the plain values, in its columns the texts of the payload. -/
theorem Tabular.lookup_columns (h : Tabular id p) {file : String} (hfile : p.lookup "file_path" = some (.str file))
    {k : String} (hk : k ≠ "symbol_name") :
    (Dict.put "file_path" (.str file) (Dict.put "doc_id" (.str id) (plainPart p))).lookup k =
      (kept p).lookup k := by
  rw [Dict.lookup_put, Dict.lookup_put, lookup_plainPart h.sorted, lookup_kept h.sorted]
  by_cases hpath : k = "file_path"
  · simp [hpath, hfile, isPlain_str, Option.filter_some]
  by_cases hid : k = "doc_id"
  · simp [hid, h.docId, isPlain_str, Option.filter_some]
  by_cases hcontent : k = "content"
  · simp [hcontent, TableIndex.reserved]
  · have hoff : (k != "content") = true := bne_iff_ne.mpr hcontent
    simp [hpath, hid, hcontent, hk, hoff, TableIndex.reserved]

/-- A row tells what a table keeps of the payload that it was made from. -/
theorem Tabular.payload_rowOf (h : Tabular id p) (collection : String) (vector : List Single) :
    TableIndex.Row.payload (TableIndex.rowOf collection ⟨id, vector, p⟩) = kept p := by
  obtain ⟨file, hfile⟩ := h.file
  have hplain : Dict.Sorted (plainPart p) := h.sorted.sublist List.filter_sublist
  have hkept : Dict.Sorted (kept p) := h.sorted.sublist List.filter_sublist
  have hread : ((Json.parse? (TableIndex.metadataText p)).bind Json.obj?).getD [] = plainPart p := by
    rw [show TableIndex.metadataText p = (Json.obj (plainPart p)).render from rfl, h.readable]
    rfl
  have hsymbol : (kept p).lookup "symbol_name" = ((p.lookup "symbol_name").bind Json.str?).map .str := by
    rw [lookup_kept h.sorted, h.symbol_eq]
    cases (p.lookup "symbol_name").bind Json.str? with
    | none => rfl
    | some s => simp [isPlain_str, Option.filter_some, Json.str?]
  unfold TableIndex.Row.payload TableIndex.rowOf
  simp only [hread, hplain.ofList_eq, hfile, Option.bind_some, Json.str?, Option.getD_some]
  cases hname : (p.lookup "symbol_name").bind Json.str? with
  | none =>
    rw [hname] at hsymbol
    refine ((hplain.put _ _).put _ _).ext hkept fun k => ?_
    by_cases hk : k = "symbol_name"
    · rw [Dict.lookup_put, Dict.lookup_put, lookup_plainPart h.sorted]
      simp [hk, hsymbol, TableIndex.reserved]
    · exact h.lookup_columns hfile hk
  | some name =>
    rw [hname] at hsymbol
    refine (((hplain.put _ _).put _ _).put _ _).ext hkept fun k => ?_
    rw [Dict.lookup_put]
    by_cases hk : k = "symbol_name"
    · simp [hk, hsymbol]
    · rw [if_neg hk]
      exact h.lookup_columns hfile hk

/-! ## Filters -/

theorem FieldValue.isPlain_of_holds {value : FieldValue} {v : Json} (h : value.holds v = true) :
    TableIndex.isPlain v = true := by
  cases value <;> cases v <;> simp_all [FieldValue.holds, TableIndex.isPlain]

theorem Condition.holds_kept {c : Condition} (hsorted : Dict.Sorted p) (hfield : c.field ≠ "content") :
    c.holds (kept p) = c.holds p := by
  rw [Condition.holds, Condition.holds, lookup_kept hsorted]
  cases p.lookup c.field with
  | none => rfl
  | some v =>
    cases hv : c.value.holds v with
    | false => by_cases hplain : TableIndex.isPlain v <;> simp [hplain, hv]
    | true => simp [hfield, FieldValue.isPlain_of_holds hv, hv]

/-- No condition names the text. -/
def Filter.OffText (f : Filter) : Prop :=
  (∀ c ∈ f.must, c.field ≠ "content") ∧ ∀ c ∈ f.mustNot, c.field ≠ "content"

theorem Filter.OffText.holds_kept {f : Filter} (hf : f.OffText) (hsorted : Dict.Sorted p) :
    f.holds (kept p) = f.holds p := by
  unfold Filter.holds
  congr 1
  · rw [Bool.eq_iff_iff, List.all_eq_true, List.all_eq_true]
    exact forall₂_congr fun c hc => by rw [Condition.holds_kept hsorted (hf.1 c hc)]
  · congr 1
    rw [Bool.eq_iff_iff, List.any_eq_true, List.any_eq_true]
    exact exists_congr fun c => and_congr_right fun hc => by rw [Condition.holds_kept hsorted (hf.2 c hc)]

/-! ## Indexes -/

/-- The entries of a collection, none where it is missing. -/
def MemoryIndex.entriesOf (x : MemoryIndex) (collection : String) : Dict Entry :=
  (x.collections.lookup collection).getD []

namespace MemoryIndex

variable {m : MemoryIndex} {collection : String}

theorem entriesOf_of_absent (hnone : m.collections.lookup collection = none) : m.entriesOf collection = [] := by
  rw [entriesOf, hnone]
  rfl

theorem lookup_set (m : MemoryIndex) (collection : String) (entries : Dict Entry) :
    (m.set collection entries).collections.lookup collection = some entries := by
  simp [set, Dict.lookup_put]

theorem entriesOf_set (m : MemoryIndex) (collection : String) (entries : Dict Entry) :
    (m.set collection entries).entriesOf collection = entries := by
  rw [entriesOf, lookup_set]
  rfl

end MemoryIndex

/-- What tells rows apart. -/
def Row.key (r : Row) : String × String := (r.collection, r.id)

/-- The row of an entry. -/
def rowFor (collection id : String) (e : Entry) : Row :=
  TableIndex.rowOf collection ⟨id, e.vector, e.payload⟩

def sameRow (a b : Row) : Bool := b.collection = a.collection && b.id = a.id

theorem sameRow_iff (a b : Row) : sameRow a b = true ↔ a.key = b.key := by
  rw [sameRow, Bool.and_eq_true, decide_eq_true_eq, decide_eq_true_eq, Row.key, Row.key, Prod.mk.injEq,
    @eq_comm _ b.collection, @eq_comm _ b.id]

theorem upsertRow_eq (rows : List Row) (r : Row) :
    TableIndex.upsertRow rows r = Graph.TableGraph.upsert sameRow r rows := rfl

theorem TableIndex.guarded_of_isOpen {α : Type} {x : TableIndex} (h : x.isClosed = false) (kind : ErrorKind)
    (answer : Except Error α) : x.guarded kind answer = answer := by
  rw [guarded, h]
  rfl

/-- A hit as a table tells it. -/
def Hit.kept (h : Hit) : Hit := { h with payload := Vectors.kept h.payload }

/-- Under one collection a table that is open has the rows of the entries in memory, each of which can be told by
a row and has a vector of the one size. -/
structure Agrees (collection : String) (size : Option Nat) (m : MemoryIndex) (t : TableIndex) : Prop where
  metric : t.metric = m.metric
  isOpen : t.isClosed = false
  has : collection ∈ t.collections ↔ (m.collections.lookup collection).isSome
  keyed : Keyed Row.key t.rows
  sorted : Dict.Sorted (m.entriesOf collection)
  rows : ∀ id, t.rows.find? (Row.key · = (collection, id)) =
    ((m.entriesOf collection).lookup id).map (rowFor collection id)
  tabular : ∀ entry ∈ m.entriesOf collection, Tabular entry.1 entry.2.payload
  sized : ∀ entry ∈ m.entriesOf collection, size = some entry.2.vector.length

namespace Agrees

variable {collection : String} {size : Option Nat} {m : MemoryIndex} {t : TableIndex}

theorem empty (collection : String) (metric : Metric) : Agrees collection none { metric } { metric } where
  metric := rfl
  isOpen := rfl
  has := by simp
  keyed := .nil
  sorted := .nil
  rows _ := rfl
  tabular := nofun
  sized := nofun

/-- Before any size is known there are no points. -/
theorem resize (h : Agrees collection none m t) (size : Option Nat) : Agrees collection size m t :=
  { h with sized := fun entry hentry => nomatch h.sized entry hentry }

/-- Of the memory only the collection and the metric matter. -/
theorem of_lookup {m' : MemoryIndex} (h : Agrees collection size m t) (hmetric : m'.metric = m.metric)
    (hlookup : m'.collections.lookup collection = m.collections.lookup collection) :
    Agrees collection size m' t := by
  have hentries : m'.entriesOf collection = m.entriesOf collection := by
    rw [MemoryIndex.entriesOf, hlookup]
    rfl
  exact {
    metric := h.metric.trans hmetric.symm
    isOpen := h.isOpen
    has := by rw [h.has, hlookup]
    keyed := h.keyed
    sorted := hentries ▸ h.sorted
    rows := hentries ▸ h.rows
    tabular := hentries ▸ h.tabular
    sized := hentries ▸ h.sized }

theorem exists_entries (h : Agrees collection size m t) (hhas : collection ∈ t.collections) :
    m.collections.lookup collection = some (m.entriesOf collection) := by
  obtain ⟨entries, hentries⟩ := Option.isSome_iff_exists.mp (h.has.mp hhas)
  rw [MemoryIndex.entriesOf, hentries]
  rfl

/-- The rows of the collection are those of the entries, in another order. -/
theorem rowsOf_perm (h : Agrees collection size m t) :
    (t.rowsOf collection).Perm ((m.entriesOf collection).map fun entry => rowFor collection entry.1 entry.2) := by
  have hrows : (t.rowsOf collection).Nodup := (h.keyed.filter _).nodup
  have hentries : ((m.entriesOf collection).map fun entry => rowFor collection entry.1 entry.2).Nodup :=
    List.pairwise_map.mpr (List.Pairwise.imp (fun hlt heq => ne_of_lt hlt (congrArg Row.id heq)) h.sorted)
  refine (List.perm_ext_iff_of_nodup hrows hentries).mpr fun row => ?_
  have hfind : row ∈ t.rows ∧ row.key = (collection, row.id) ↔
      ((m.entriesOf collection).lookup row.id).map (rowFor collection row.id) = some row := by
    rw [← h.rows, h.keyed.find?_eq_some]
  constructor
  · intro hrow
    obtain ⟨hmem, hcollection⟩ := List.mem_filter.mp hrow
    have hkey : row.key = (collection, row.id) := Prod.ext (of_decide_eq_true hcollection) rfl
    obtain ⟨e, he, heq⟩ := Option.map_eq_some_iff.mp (hfind.mp ⟨hmem, hkey⟩)
    exact List.mem_map.mpr ⟨_, Dict.mem_of_lookup he, heq⟩
  · intro hrow
    obtain ⟨entry, hentry, rfl⟩ := List.mem_map.mp hrow
    have hmem := (hfind.mpr (Option.map_eq_some_iff.mpr ⟨entry.2, Dict.lookup_of_mem h.sorted.nodup hentry, rfl⟩)).1
    exact List.mem_filter.mpr ⟨hmem, decide_eq_true rfl⟩

theorem ensure (h : Agrees collection size m t) {n : Nat} (hn : n < 2 ^ 63) :
    ∃ m' t', Index.ensure m collection n = .ok m' ∧ Index.ensure t collection n = .ok t' ∧
      Agrees collection size m' t' := by
  have hsmall : ¬Nat.pow 2 63 ≤ n := by simpa using hn
  by_cases hhas : collection ∈ t.collections
  · refine ⟨m, t, ?_, ?_, h⟩
    · simp [Index.ensure, Dict.putNew, h.has.mp hhas]
    · simp only [Index.ensure, if_neg hsmall, TableIndex.guarded_of_isOpen h.isOpen]
      simp [hhas]
  · have hnone : m.collections.lookup collection = none := by
      rwa [h.has, Option.not_isSome_iff_eq_none] at hhas
    refine ⟨{ m with collections := Dict.put collection [] m.collections },
      { t with collections := t.collections ++ [collection] }, ?_, ?_, ?_⟩
    · simp [Index.ensure, Dict.putNew, hnone]
    · simp only [Index.ensure, if_neg hsmall, TableIndex.guarded_of_isOpen h.isOpen]
      simp [hhas]
    have hentries : MemoryIndex.entriesOf { m with collections := Dict.put collection [] m.collections } collection =
        m.entriesOf collection := by
      rw [MemoryIndex.entriesOf_of_absent hnone]
      simp [MemoryIndex.entriesOf, Dict.lookup_put]
    exact {
      metric := h.metric
      isOpen := h.isOpen
      has := by simp [Dict.lookup_put]
      keyed := h.keyed
      sorted := hentries ▸ h.sorted
      rows := hentries ▸ h.rows
      tabular := hentries ▸ h.tabular
      sized := hentries ▸ h.sized }

/-- Both have the collection or both miss it. -/
theorem has_cases (h : Agrees collection size m t) :
    (collection ∈ t.collections ∧ Index.has m collection = .ok true ∧ Index.has t collection = .ok true) ∨
      (collection ∉ t.collections ∧ Index.has m collection = .ok false ∧ Index.has t collection = .ok false) := by
  simp only [Index.has, TableIndex.guarded_of_isOpen h.isOpen]
  by_cases hhas : collection ∈ t.collections
  · exact .inl ⟨hhas, by rw [h.has.mp hhas], by simp [hhas]⟩
  · have hnone := hhas
    rw [h.has, Bool.not_eq_true] at hnone
    exact .inr ⟨hhas, by rw [hnone], by simp [hhas]⟩

theorem count_eq (h : Agrees collection size m t) : Index.count t collection = Index.count m collection := by
  have hlength := h.rowsOf_perm.length_eq
  rw [List.length_map] at hlength
  simp only [Index.count, TableIndex.guarded_of_isOpen h.isOpen, hlength]
  unfold MemoryIndex.entriesOf
  cases m.collections.lookup collection <;> rfl

theorem drop (h : Agrees collection size m t) (other : Option Nat) :
    ∃ m' t', Index.drop m collection = .ok m' ∧ Index.drop t collection = .ok t' ∧
      Agrees collection other m' t' := by
  refine ⟨_, _, rfl, TableIndex.guarded_of_isOpen h.isOpen _ _, ?_⟩
  have hnone : (m.collections.filter (·.1 != collection)).lookup collection = none := by
    rw [lookup_eq_find?, find?_filter_key Prod.fst m.collections (· != collection)]
    simp
  have hentries := MemoryIndex.entriesOf_of_absent
    (m := { m with collections := m.collections.filter (·.1 != collection) }) hnone
  exact {
    metric := h.metric
    isOpen := h.isOpen
    has := by simp [hnone]
    keyed := h.keyed.filter _
    sorted := hentries ▸ .nil
    rows := fun id => by
      rw [hentries]
      exact (find?_filter_key Row.key t.rows (fun k => k.1 != collection) (collection, id)).trans (by simp)
    tabular := by simp [hentries]
    sized := by simp [hentries] }

/-- Putting one entry and one row. -/
theorem put (h : Agrees collection size m t) (hhas : collection ∈ t.collections) {id : String} {e : Entry}
    (htabular : Tabular id e.payload) (hsize : size = some e.vector.length) :
    Agrees collection size (m.set collection (Dict.put id e (m.entriesOf collection)))
      { t with rows := TableIndex.upsertRow t.rows (rowFor collection id e) } := by
  have hentries := m.entriesOf_set collection (Dict.put id e (m.entriesOf collection))
  exact {
    metric := h.metric
    isOpen := h.isOpen
    has := by simp [hhas, MemoryIndex.lookup_set]
    keyed := Graph.TableGraph.keyed_upsert sameRow_iff h.keyed _
    sorted := by
      rw [hentries]
      exact h.sorted.put id e
    rows := fun other => by
      rw [hentries, upsertRow_eq, Graph.TableGraph.find?_upsert sameRow_iff, Dict.lookup_put, h.rows]
      by_cases hother : other = id
      · subst hother
        simp [rowFor, TableIndex.rowOf, Row.key]
      · simp [rowFor, TableIndex.rowOf, Row.key, hother, Ne.symm hother]
    tabular := fun entry hentry => by
      rcases Dict.mem_put (hentries ▸ hentry) with rfl | hold
      · exact htabular
      · exact h.tabular entry hold
    sized := fun entry hentry => by
      rcases Dict.mem_put (hentries ▸ hentry) with rfl | hold
      · exact hsize
      · exact h.sized entry hold }

theorem putAll (h : Agrees collection size m t) (hhas : collection ∈ t.collections) {points : List Point}
    (htabular : ∀ p ∈ points, Tabular p.id p.payload) (hsize : ∀ p ∈ points, size = some p.vector.length) :
    Agrees collection size
      (m.set collection (points.foldl (fun es p => Dict.put p.id ⟨p.vector, p.payload⟩ es) (m.entriesOf collection)))
      { t with rows := (points.map (TableIndex.rowOf collection)).foldl TableIndex.upsertRow t.rows } := by
  induction points generalizing m t with
  | nil => exact h.of_lookup rfl ((m.lookup_set _ _).trans (h.exists_entries hhas).symm)
  | cons p points ih =>
    have hfirst := h.put hhas (e := ⟨p.vector, p.payload⟩) (htabular p List.mem_cons_self)
      (hsize p List.mem_cons_self)
    have hrest := ih hfirst hhas (fun q hq => htabular q (List.mem_cons_of_mem p hq))
      fun q hq => hsize q (List.mem_cons_of_mem p hq)
    refine hrest.of_lookup rfl ?_
    rw [MemoryIndex.lookup_set, MemoryIndex.lookup_set, MemoryIndex.entriesOf_set]
    rfl

/-- Both put the points, or both miss the collection. -/
theorem upsert (h : Agrees collection size m t) {points : List Point}
    (htabular : ∀ p ∈ points, Tabular p.id p.payload) (hsize : ∀ p ∈ points, size = some p.vector.length) :
    (∃ e, Index.upsert m collection points = .error e ∧ Index.upsert t collection points = .error e) ∨
      ∃ m' t', Index.upsert m collection points = .ok m' ∧ Index.upsert t collection points = .ok t' ∧
        Agrees collection size m' t' := by
  by_cases hhas : collection ∈ t.collections
  · refine .inr ⟨_, _, ?_, ?_, h.putAll hhas htabular hsize⟩
    · simp only [Index.upsert, MemoryIndex.find, h.exists_entries hhas]
      rfl
    · simp only [Index.upsert, TableIndex.guarded_of_isOpen h.isOpen]
      simp [hhas]
  · have hnone : m.collections.lookup collection = none := by
      rwa [h.has, Option.not_isSome_iff_eq_none] at hhas
    refine .inl ⟨.missing .upsert collection, ?_, ?_⟩
    · simp only [Index.upsert, MemoryIndex.find, hnone]
      rfl
    · simp only [Index.upsert, TableIndex.guarded_of_isOpen h.isOpen]
      simp [hhas]

theorem ids_hits (m : MemoryIndex) (v : List Single) (f : Filter) (entries : Dict Entry) :
    (m.hits v f entries).map (·.id) = (entries.filter fun entry => f.holds entry.2.payload).map (·.1) := by
  rw [MemoryIndex.hits, List.map_map]
  rfl

theorem nodup_ids_hits (h : Agrees collection size m t) (v : List Single) (f : Filter) :
    ((m.hits v f (m.entriesOf collection)).map (·.id)).Nodup := by
  rw [ids_hits]
  exact h.sorted.nodup.sublist (List.filter_sublist.map _)

/-- The octets in a row read back as the vector of the entry. -/
@[simp]
theorem decode_rowFor (collection id : String) (e : Entry) : decode (rowFor collection id e).vector = e.vector :=
  decode_encode e.vector

/-- A filter reads of a row what it reads of the entry. -/
theorem holds_payload (h : Agrees collection size m t) {f : Filter} (hf : f.OffText) {entry : String × Entry}
    (hentry : entry ∈ m.entriesOf collection) :
    f.holds (TableIndex.Row.payload (rowFor collection entry.1 entry.2)) = f.holds entry.2.payload := by
  have htabular := h.tabular entry hentry
  rw [rowFor, htabular.payload_rowOf, hf.holds_kept htabular.sorted]

theorem hits_perm (h : Agrees collection size m t) {f : Filter} (hf : f.OffText) {v : List Single}
    (hv : size = some v.length) :
    (t.hits v f (t.rowsOf collection)).Perm ((m.hits v f (m.entriesOf collection)).map Hit.kept) := by
  refine ((h.rowsOf_perm.filter _).map _).trans (.of_eq ?_)
  rw [List.filter_map, List.map_map, MemoryIndex.hits, List.map_map]
  have hfilter : ∀ entry ∈ m.entriesOf collection,
      (f.holds (TableIndex.Row.payload (rowFor collection entry.1 entry.2)) &&
        decide ((decode (rowFor collection entry.1 entry.2).vector).length = v.length)) =
          f.holds entry.2.payload := by
    intro entry hentry
    have hsize : entry.2.vector.length = v.length := Option.some.inj ((h.sized entry hentry).symm.trans hv)
    rw [h.holds_payload hf hentry, decode_rowFor, hsize]
    simp
  refine (congrArg (List.map _) (List.filter_congr hfilter)).trans (List.map_congr_left fun entry hentry => ?_)
  have htabular := h.tabular entry (List.mem_of_mem_filter hentry)
  simp only [Function.comp_apply, Hit.kept, decode_rowFor, h.metric]
  simp only [rowFor, htabular.payload_rowOf]
  rfl

/-- Both find the same points at the same distances, in the same order. -/
theorem search (h : Agrees collection size m t) {f : Filter} (hf : f.OffText) {v : List Single}
    (hv : size = some v.length) (limit : Nat) :
    Index.search t collection v limit f = (Index.search m collection v limit f).map (·.map Hit.kept) := by
  by_cases hhas : collection ∈ t.collections
  · have hrank := rank_map (f := Hit.kept) (fun _ => rfl) (h.nodup_ids_hits v f) (h.hits_perm hf hv) limit
    simp only [Index.search, TableIndex.guarded_of_isOpen h.isOpen, MemoryIndex.find, h.exists_entries hhas]
    simp only [List.contains_iff_mem.mpr hhas, if_true, hrank]
    rfl
  · have hnone : m.collections.lookup collection = none := by
      rwa [h.has, Option.not_isSome_iff_eq_none] at hhas
    simp only [Index.search, TableIndex.guarded_of_isOpen h.isOpen, MemoryIndex.find, hnone]
    simp [hhas]
    rfl

/-- What is found in memory can be told by rows. -/
theorem tabular_of_mem_search (h : Agrees collection size m t) {v : List Single} {limit : Nat} {f : Filter}
    {hits : List Hit} (hhits : Index.search m collection v limit f = .ok hits) :
    ∀ hit ∈ hits, Tabular hit.id hit.payload := by
  intro hit hhit
  cases hlookup : m.collections.lookup collection with
  | none => simp [Index.search, MemoryIndex.find, hlookup, bind, Except.bind] at hhits
  | some entries =>
    have hentries : m.entriesOf collection = entries := by
      rw [MemoryIndex.entriesOf, hlookup]
      rfl
    simp only [Index.search, MemoryIndex.find, hlookup, bind, Except.bind, pure, Except.pure,
      Except.ok.injEq] at hhits
    subst hhits
    obtain ⟨entry, hentry, rfl⟩ := List.mem_map.mp (List.mem_mergeSort.mp (List.mem_of_mem_take hhit))
    exact h.tabular entry (hentries ▸ List.mem_of_mem_filter hentry)

/-- Removing entries and the rows of their ids. -/
theorem without (h : Agrees collection size m t) (hhas : collection ∈ t.collections) {ids : List String}
    {keep : String × Entry → Bool}
    (hids : ∀ entry ∈ m.entriesOf collection, ids.contains entry.1 = !keep entry) :
    Agrees collection size (m.set collection ((m.entriesOf collection).filter keep)) (t.without collection ids) := by
  have hentries := m.entriesOf_set collection ((m.entriesOf collection).filter keep)
  exact {
    metric := h.metric
    isOpen := h.isOpen
    has := by simp [hhas, MemoryIndex.lookup_set, TableIndex.without]
    keyed := h.keyed.filter _
    sorted := by
      rw [hentries]
      exact h.sorted.sublist List.filter_sublist
    rows := fun id => by
      rw [hentries, Dict.lookup_filter h.sorted.nodup]
      refine (find?_filter_key Row.key t.rows (fun k => !(k.1 = collection && ids.contains k.2))
        (collection, id)).trans ?_
      rw [h.rows]
      cases hlookup : (m.entriesOf collection).lookup id with
      | none => simp
      | some e =>
        have hkeep := hids (id, e) (Dict.mem_of_lookup hlookup)
        simp only [decide_true, Bool.true_and, hkeep, Bool.not_not, Option.filter_some]
        split <;> rfl
    tabular := fun entry hentry => h.tabular entry (List.mem_of_mem_filter (hentries ▸ hentry))
    sized := fun entry hentry => h.sized entry (List.mem_of_mem_filter (hentries ▸ hentry)) }

theorem deleteIds (h : Agrees collection size m t) (hhas : collection ∈ t.collections) {ids : List String}
    (hids : ids ≠ []) :
    ∃ m' t', Index.deleteIds m collection ids = .ok m' ∧ Index.deleteIds t collection ids = .ok t' ∧
      Agrees collection size m' t' := by
  have hsome : ids.isEmpty = false := by simpa using hids
  have hafter : Agrees collection size
      (m.set collection ((m.entriesOf collection).filter fun entry => !ids.contains entry.1))
      (t.without collection ids) := h.without hhas (by simp)
  refine ⟨_, _, ?_, ?_, hafter⟩
  · simp only [Index.deleteIds, hsome, MemoryIndex.find, h.exists_entries hhas]
    rfl
  · simp only [Index.deleteIds, hsome, TableIndex.guarded_of_isOpen h.isOpen]
    rfl

/-- The rows that a filter lets pass are those of the entries that it lets pass. -/
theorem doomed_perm (h : Agrees collection size m t) {f : Filter} (hf : f.OffText) :
    ((t.rowsOf collection).filter fun r => f.holds (TableIndex.Row.payload r)).Perm
      (((m.entriesOf collection).filter fun entry => f.holds entry.2.payload).map fun entry =>
        rowFor collection entry.1 entry.2) := by
  refine (h.rowsOf_perm.filter _).trans (.of_eq ?_)
  rw [List.filter_map]
  exact congrArg (List.map _) (List.filter_congr fun entry hentry => h.holds_payload hf hentry)

theorem contains_doomed (h : Agrees collection size m t) {f : Filter} (hf : f.OffText) {entry : String × Entry}
    (hentry : entry ∈ m.entriesOf collection) :
    (((t.rowsOf collection).filter fun r => f.holds (TableIndex.Row.payload r)).map (·.id)).contains entry.1 =
      f.holds entry.2.payload := by
  rw [Bool.eq_iff_iff, List.contains_iff_mem, ((h.doomed_perm hf).map _).mem_iff, List.map_map, List.mem_map]
  constructor
  · rintro ⟨other, hother, hid⟩
    obtain ⟨hmem, hholds⟩ := List.mem_filter.mp hother
    rwa [← List.inj_on_of_nodup_map h.sorted.nodup hmem hentry hid]
  · exact fun hholds => ⟨entry, List.mem_filter.mpr ⟨hentry, hholds⟩, rfl⟩

/-- Both remove the same points and count them alike. -/
theorem deleteWhere (h : Agrees collection size m t) (hhas : collection ∈ t.collections) {f : Filter}
    (hf : f.OffText) :
    ∃ m' t' n, Index.deleteWhere m collection f = .ok (m', n) ∧ Index.deleteWhere t collection f = .ok (t', n) ∧
      Agrees collection size m' t' := by
  have hparts := List.length_eq_length_filter_add (l := m.entriesOf collection)
    fun entry => f.holds entry.2.payload
  have hcount := (h.doomed_perm hf).length_eq
  rw [List.length_map] at hcount
  have hafter : Agrees collection size
      (m.set collection ((m.entriesOf collection).filter fun entry => !f.holds entry.2.payload))
      (t.without collection
        (((t.rowsOf collection).filter fun r => f.holds (TableIndex.Row.payload r)).map (·.id))) :=
    h.without hhas fun entry hentry => (h.contains_doomed hf hentry).trans (Bool.not_not _).symm
  refine ⟨_, _, (m.entriesOf collection).length -
    ((m.entriesOf collection).filter fun entry => !f.holds entry.2.payload).length, ?_, ?_, hafter⟩
  · simp only [Index.deleteWhere, h.exists_entries hhas]
  · refine (TableIndex.guarded_of_isOpen h.isOpen _ _).trans ?_
    dsimp only
    rw [hcount]
    congr 2
    omega

end Agrees

end CodeIndex.Vectors
