import CodeIndex.Proofs.Chunk.Origin
import CodeIndex.Proofs.Embedding.Batches
import CodeIndex.Workspace.Basic

/-!
# Embedding a tree again

A run that is not forced removes the documents of the files that have chunks now, and no others. What a collection
has after runs over trees (`Embedded`) is told by the chunks of the runs (`storedChunk`). So a run that is not forced
ends as a forced one does exactly if no document is left of a file that has lost its chunks.
-/

namespace CodeIndex

open CodeIndex.Graph (latest mem_of_latest key_of_latest latest_eq_none_iff isSome_latest)
open Vectors (Index Filter Point LawfulIndex upsertEach kept?_upsertEach valid_upsertEach)
open Vectors.LawfulIndex (Kept keep payload kept? Valid kept?_ensure valid_ensure kept?_of_absent kept?_drop valid_drop
  kept?_deleteWhere valid_deleteWhere file_keep)

theorem Graph.latest_map {α β κ : Type} [DecidableEq κ] (key : β → κ) (g : α → β) (rows : List α) (k : κ) :
    latest key (rows.map g) k = (latest (fun row => key (g row)) rows k).map g := by
  rw [latest, ← List.map_reverse, List.find?_map]
  rfl

/-! ## Documents of chunks -/

theorem Dict.lookup_foldl_putNew {entries : List (String × String)} {d : Dict Json} {key : String} {value : Json}
    (h : d.lookup key = some value) :
    (entries.foldl (fun d entry => d.putNew entry.1 (.str entry.2)) d).lookup key = some value := by
  induction entries generalizing d with
  | nil => exact h
  | cons entry entries ih =>
    refine ih ?_
    dsimp only [putNew]
    split
    · exact h
    · next habsent =>
      have hne : key ≠ entry.1 := by
        rintro rfl
        rw [h] at habsent
        exact habsent rfl
      rw [lookup_put, if_neg hne, h]

theorem Chunk.lookup_file_document (c : Chunk) : c.document.lookup "file_path" = some (.str c.path) := by
  unfold document
  refine Dict.lookup_foldl_putNew ?_
  cases c.symbolName <;> cases c.symbolType <;> cases c.parentId <;> simp [Dict.ofList, Dict.lookup_put]

section Operations

variable {σ : Type} [Index σ] [LawfulIndex σ]

/-- What a collection keeps of a document, with the vector that a model gives it. -/
def Document.keptBy (model : Model) (collection : String) (d : Document) : Kept σ :=
  keep collection (Provider.pointOf d ((model.embed d.content).toOption.getD []))

def Chunk.keptBy (model : Model) (collection : String) (c : Chunk) : Kept σ := c.toDocument.keptBy model collection

/-- What is kept goes with the documents of a file. -/
def isOf (file : String) (k : Kept σ) : Bool := Filter.holds { must := [⟨"file_path", .text file⟩] } (payload k)

theorem isOf_keptBy (model : Model) (collection file : String) (c : Chunk) :
    isOf file (c.keptBy model collection : Kept σ) = decide (c.path = file) := by
  have hlookup : (Provider.pointOf c.toDocument ((model.embed c.content).toOption.getD [])).payload.lookup "file_path" =
      some (.str c.path) := by
    simp [Provider.pointOf, Dict.lookup_put, Chunk.toDocument, c.lookup_file_document]
  have hkept : (payload (c.keptBy model collection : Kept σ)).lookup "file_path" = some (.str c.path) := file_keep hlookup
  simp [isOf, Filter.holds, Vectors.Condition.holds, hkept, Vectors.FieldValue.holds, Bool.beq_eq_decide_eq]

namespace Provider

variable {p q : Provider σ} {model : Model} {collection : String} {kept : String → Option (Kept σ)}

/-- A provider for a model and a collection, with what the collection keeps under each id. -/
structure Holds (p : Provider σ) (model : Model) (collection : String) (kept : String → Option (Kept σ)) : Prop where
  model_eq : p.model = model
  collection_eq : p.collection = collection
  valid : Valid p.index
  kept_eq : ∀ id, kept? p.index collection id = kept id

theorem eq_of_lift {α : Type} {r : Except Vectors.Error α} {a : α} (h : lift r = .ok a) : r = .ok a := by
  cases r with
  | error e => cases h
  | ok b =>
    cases h
    rfl

/-- Making sure that the collection is there keeps the documents. -/
theorem Holds.ensure (h : p.Holds model collection kept) {size : Nat} {y : σ}
    (hy : Index.ensure p.index p.collection size = .ok y) (measured : Option Nat) :
    { p with index := y, measured }.Holds model collection kept := by
  rw [h.collection_eq] at hy
  exact { h with
    valid := valid_ensure h.valid hy
    kept_eq := fun id => (kept?_ensure hy id).trans (h.kept_eq id) }

/-- Measuring the dimension keeps the documents. -/
theorem Holds.prepare (h : p.Holds model collection kept) {size : Nat} (hq : p.prepare = (q, .ok size)) :
    q.Holds model collection kept ∧ q.measured = some size := by
  unfold Provider.prepare at hq
  cases hmeasured : p.measured with
  | some n =>
    rw [hmeasured] at hq
    cases hq
    exact ⟨h, hmeasured⟩
  | none =>
    rw [hmeasured] at hq
    cases hmeasure : p.measure with
    | error e =>
      rw [hmeasure] at hq
      cases hq
    | ok answer =>
      rw [hmeasure] at hq
      cases hq
      unfold measure at hmeasure
      obtain ⟨v, -, hmeasure⟩ := exists_of_bind_eq_ok hmeasure
      dsimp only at hmeasure
      split at hmeasure
      · cases hmeasure
      · obtain ⟨y, hy, hmeasure⟩ := exists_of_bind_eq_ok hmeasure
        cases hmeasure
        exact ⟨h.ensure (eq_of_lift hy) _, rfl⟩

theorem Holds.deleteFile (h : p.Holds model collection kept) {file : String} {n : Nat}
    (hq : p.deleteFile file = .ok (q, n)) :
    q.Holds model collection (fun id => (kept id).filter fun k => !isOf file k) ∧ q.measured = p.measured := by
  unfold Provider.deleteFile at hq
  obtain ⟨found, hfound, hq⟩ := exists_of_bind_eq_ok (eq_of_lift hq)
  rw [h.collection_eq] at hfound
  cases found with
  | false =>
    cases hq
    refine ⟨{ h with kept_eq := fun id => ?_ }, rfl⟩
    rw [← h.kept_eq, kept?_of_absent h.valid hfound]
    rfl
  | true =>
    obtain ⟨answer, hanswer, hq⟩ := exists_of_bind_eq_ok hq
    cases hq
    rw [h.collection_eq] at hanswer
    refine ⟨{ h with valid := valid_deleteWhere h.valid hanswer, kept_eq := fun id => ?_ }, rfl⟩
    rw [← h.kept_eq]
    exact kept?_deleteWhere h.valid hanswer id

theorem Holds.dropCollection (h : p.Holds model collection kept) (hq : p.dropCollection = .ok q) :
    q.Holds model collection (fun _ => none) ∧ q.measured = p.measured := by
  unfold Provider.dropCollection at hq
  obtain ⟨found, hfound, hq⟩ := exists_of_bind_eq_ok hq
  rw [h.collection_eq] at hfound
  cases found with
  | false =>
    cases hq
    exact ⟨{ h with kept_eq := kept?_of_absent h.valid hfound }, rfl⟩
  | true =>
    obtain ⟨y, hy, hq⟩ := exists_of_bind_eq_ok hq
    cases hq
    rw [h.collection_eq] at hy
    exact ⟨{ h with valid := valid_drop h.valid hy, kept_eq := kept?_drop hy }, rfl⟩

theorem Holds.clear (h : p.Holds model collection kept) (hq : p.clear = (q, .ok ())) :
    q.Holds model collection (fun _ => none) ∧ q.measured = p.measured := by
  unfold Provider.clear at hq
  cases hdrop : p.dropCollection with
  | error e =>
    rw [hdrop] at hq
    cases hq
  | ok r =>
    rw [hdrop] at hq
    obtain ⟨hr, hmeasured⟩ := h.dropCollection hdrop
    dsimp only at hq
    cases hsize : r.measured with
    | none =>
      rw [hsize] at hq
      cases hq
      exact ⟨hr, hmeasured⟩
    | some n =>
      rw [hsize] at hq
      dsimp only at hq
      cases hensure : Index.ensure r.index r.collection n with
      | error e =>
        rw [hensure] at hq
        cases hq
      | ok y =>
        rw [hensure] at hq
        cases hq
        exact ⟨hr.ensure hensure _, hsize.symm.trans hmeasured⟩

/-- Documents that are stored come before those that were there. -/
theorem Holds.indexDocuments (h : p.Holds model collection kept) {size : Nat} (hready : p.measured = some size)
    {documents : List Document} {count : Nat} (hq : p.indexDocuments documents = (q, .ok count)) :
    q.Holds model collection fun id =>
      ((latest Document.id documents id).map (Document.keptBy model collection)).or (kept id) := by
  obtain ⟨points, y, hpoints, hy, rfl⟩ := exists_of_indexBatches hready hq
  have hall := mapM_eq_map (fun d point => eq_of_pointFor) hpoints
  rw [h.collection_eq] at hy
  refine { h with valid := valid_upsertEach h.valid hy, kept_eq := fun id => ?_ }
  refine (kept?_upsertEach hy id).trans ?_
  rw [h.kept_eq, hall, Graph.latest_map, Option.map_map, h.model_eq]
  rfl

end Provider

/-! ## A run -/

namespace Workspace

variable {p q : Provider σ} {model : Model} {collection : String} {kept : String → Option (Kept σ)}

theorem holds_deleteFiles (h : p.Holds model collection kept) {files : List String}
    (hq : deleteFiles p files = (q, .ok ())) :
    q.Holds model collection (fun id => (kept id).filter fun k => files.all fun file => !isOf file k) ∧
      q.measured = p.measured := by
  induction files generalizing p kept with
  | nil =>
    cases hq
    refine ⟨{ h with kept_eq := fun id => ?_ }, rfl⟩
    rw [h.kept_eq]
    cases kept id <;> rfl
  | cons file rest ih =>
    unfold deleteFiles at hq
    cases hdelete : p.deleteFile file with
    | error e =>
      rw [hdelete] at hq
      cases hq
    | ok answer =>
      rw [hdelete] at hq
      obtain ⟨hdeleted, hmeasured⟩ := h.deleteFile hdelete
      obtain ⟨hrest, hmeasured'⟩ := ih hdeleted hq
      refine ⟨{ hrest with kept_eq := fun id => ?_ }, hmeasured'.trans hmeasured⟩
      rw [hrest.kept_eq, Option.filter_filter]
      simp only [List.all_cons]

/-- What is kept after a run over chunks. -/
def keptAfter (model : Model) (collection : String) (force : Bool) (chunks : List Chunk)
    (kept : String → Option (Kept σ)) (id : String) : Option (Kept σ) :=
  ((latest Chunk.id chunks id).map (Chunk.keptBy model collection)).or
    (if force then none else (kept id).filter fun k => chunks.all fun c => !isOf c.path k)

theorem holds_makeRoom (h : p.Holds model collection kept) {force : Bool} {chunks : List Chunk}
    (hq : makeRoom p force chunks = (q, .ok ())) :
    q.Holds model collection
        (fun id => if force then none else (kept id).filter fun k => chunks.all fun c => !isOf c.path k) ∧
      q.measured = p.measured := by
  unfold makeRoom at hq
  cases force with
  | true =>
    rcases hclear : p.clear with ⟨r, answer⟩
    simp only [hclear, if_true] at hq
    cases answer with
    | error e => cases hq
    | ok _ =>
      cases hq
      exact h.clear hclear
  | false =>
    rcases hdelete : deleteFiles p ((chunks.map (·.path)).mergeSort (· ≤ ·)).eraseDups with ⟨r, answer⟩
    simp only [hdelete, Bool.false_eq_true, if_false] at hq
    cases answer with
    | error e => cases hq
    | ok _ =>
      cases hq
      obtain ⟨hdeleted, hmeasured⟩ := holds_deleteFiles h hdelete
      refine ⟨{ hdeleted with kept_eq := fun id => ?_ }, hmeasured⟩
      rw [hdeleted.kept_eq]
      refine congrArg (Option.filter · (kept id)) (funext fun k => ?_)
      rw [Bool.eq_iff_iff, List.all_eq_true, List.all_eq_true]
      simp

theorem holds_embed (h : p.Holds model collection kept) {force : Bool} {chunks : List Chunk} {count : Nat}
    (hq : embed p force chunks = (q, .ok count)) :
    q.Holds model collection (keptAfter model collection force chunks kept) := by
  unfold embed at hq
  rcases hprepare : p.prepare with ⟨r, answer⟩
  rw [hprepare] at hq
  cases answer with
  | error e => cases hq
  | ok size =>
    obtain ⟨hprepared, hready⟩ := h.prepare hprepare
    dsimp only at hq
    rcases hroom : makeRoom r force chunks with ⟨s, answer⟩
    rw [hroom] at hq
    cases answer with
    | error f => cases hq
    | ok _ =>
      obtain ⟨hmade, hmeasured⟩ := holds_makeRoom hprepared hroom
      dsimp only at hq
      rcases hindex : s.indexDocuments (chunks.map Chunk.toDocument) with ⟨u, answer⟩
      rw [hindex] at hq
      cases answer with
      | error e => cases hq
      | ok n =>
        cases hq
        have hindexed := hmade.indexDocuments (hmeasured.trans hready) hindex
        refine { hindexed with kept_eq := fun id => ?_ }
        rw [hindexed.kept_eq, Graph.latest_map, Option.map_map]
        rfl

end Workspace

/-! ## Runs over trees -/

/-- The chunk whose document a collection has under an id after runs, the latest first: that of the latest run with
the id, if no run since then has chunks of its file and none was forced. -/
def storedChunk : List (Bool × List Chunk) → String → Option Chunk
  | [], _ => none
  | (force, chunks) :: earlier, id =>
    (latest Chunk.id chunks id).or
      (if force then none else (storedChunk earlier id).filter fun old => chunks.all (·.path ≠ old.path))

/-- The chunks of the runs since the last one that was forced, and of that one. -/
def sinceForced : List (Bool × List Chunk) → List (List Chunk)
  | [] => []
  | (force, chunks) :: earlier => chunks :: if force then [] else sinceForced earlier

/-- The indexes that successful runs over trees leave, from a collection without documents, for one workspace, one
model and one collection. The runs are listed with the chunks of their trees, the latest first. -/
inductive Embedded (w : Workspace) (t : Tools) (model : Model) (collection : String) :
    List (Bool × List Chunk) → σ → Prop where
  | start {x : σ} (hvalid : Valid x) (hempty : ∀ id, kept? x collection id = none) : Embedded w t model collection [] x
  | run {runs : List (Bool × List Chunk)} {p q : Provider σ} {h : Host} {force : Bool} {chunks : List Chunk}
      {count : Nat} (hbefore : Embedded w t model collection runs p.index) (hmodel : p.model = model)
      (hcollection : p.collection = collection) (hchunks : w.chunks t h = .ok chunks)
      (hembed : Workspace.embed p force chunks = (q, .ok count)) :
      Embedded w t model collection ((force, chunks) :: runs) q.index

/-- What is kept after a run is told by the chunks, if it was before. -/
theorem keptAfter_stored (model : Model) (collection : String) (runs : List (Bool × List Chunk)) (force : Bool)
    (chunks : List Chunk) (id : String) :
    Workspace.keptAfter model collection force chunks
        (fun id => (storedChunk runs id).map (Chunk.keptBy model collection : Chunk → Kept σ)) id =
      (storedChunk ((force, chunks) :: runs) id).map (Chunk.keptBy model collection) := by
  rw [Workspace.keptAfter, storedChunk, Option.map_or]
  cases force with
  | true => rfl
  | false =>
    simp only [Bool.false_eq_true, if_false, Option.filter_map, Function.comp_def, isOf_keptBy, ne_eq, eq_comm,
      decide_not]

theorem Embedded.kept {w : Workspace} {t : Tools} {model : Model} {collection : String}
    {runs : List (Bool × List Chunk)} {x : σ} (h : Embedded w t model collection runs x) :
    Valid x ∧ ∀ id, kept? x collection id = (storedChunk runs id).map (Chunk.keptBy model collection) := by
  induction h with
  | start hvalid hempty => exact ⟨hvalid, hempty⟩
  | run hbefore hmodel hcollection hchunks hembed ih =>
    have hafter := Workspace.holds_embed ⟨hmodel, hcollection, ih.1, ih.2⟩ hembed
    exact ⟨hafter.valid, fun id => (hafter.kept_eq id).trans (keptAfter_stored model collection _ _ _ id)⟩

theorem Embedded.isBelow {w : Workspace} {t : Tools} {model : Model} {collection : String}
    {runs : List (Bool × List Chunk)} {x : σ} (h : Embedded w t model collection runs x) :
    ∀ chunks ∈ sinceForced runs, ∀ c ∈ chunks, IsBelow c.path c.id := by
  induction h with
  | start => exact List.forall_mem_nil _
  | @run runs p q host force chunks count _ _ _ hchunks _ ih =>
    rw [sinceForced, List.forall_mem_cons]
    refine ⟨below_of_chunkCodebase hchunks, ?_⟩
    cases force with
    | true => exact List.forall_mem_nil _
    | false => exact ih

end Operations

/-! ## What is left -/

theorem mem_of_storedChunk {runs : List (Bool × List Chunk)} {id : String} {old : Chunk}
    (h : storedChunk runs id = some old) : old.id = id ∧ ∃ chunks ∈ sinceForced runs, old ∈ chunks := by
  induction runs with
  | nil => cases h
  | cons run earlier ih =>
    obtain ⟨force, chunks⟩ := run
    rw [storedChunk] at h
    cases hlatest : latest Chunk.id chunks id with
    | some c =>
      rw [hlatest, Option.some_or] at h
      cases h
      exact ⟨key_of_latest hlatest, chunks, List.mem_cons_self, mem_of_latest hlatest⟩
    | none =>
      rw [hlatest, Option.none_or] at h
      cases force with
      | true => cases h
      | false =>
        obtain ⟨hid, others, hothers, hmem⟩ := ih (Option.filter_eq_some_iff.mp h).1
        exact ⟨hid, others, List.mem_cons_of_mem chunks hothers, hmem⟩

/-- Chunks with one id are of one file. -/
def IdsTellFiles (lists : List (List Chunk)) : Prop :=
  ∀ cs ∈ lists, ∀ ds ∈ lists, ∀ c ∈ cs, ∀ d ∈ ds, c.id = d.id → c.path = d.path

theorem IdsTellFiles.tail {chunks : List Chunk} {lists : List (List Chunk)} (h : IdsTellFiles (chunks :: lists)) :
    IdsTellFiles lists :=
  fun cs hcs ds hds => h cs (List.mem_cons_of_mem chunks hcs) ds (List.mem_cons_of_mem chunks hds)

/-- A chunk of the latest run has a document of its file. -/
theorem exists_storedChunk_latest {force : Bool} {chunks : List Chunk} (earlier : List (Bool × List Chunk))
    (hids : IdsTellFiles [chunks]) {c : Chunk} (hc : c ∈ chunks) :
    ∃ old, storedChunk ((force, chunks) :: earlier) old.id = some old ∧ old.path = c.path := by
  have hsome : (latest Chunk.id chunks c.id).isSome := isSome_latest hc
  obtain ⟨old, hold⟩ := Option.isSome_iff_exists.mp hsome
  have hid : old.id = c.id := key_of_latest hold
  refine ⟨old, ?_, hids _ List.mem_cons_self _ List.mem_cons_self _ (mem_of_latest hold) _ hc hid⟩
  rw [storedChunk, hid, hold, Option.some_or]

theorem storedChunk_forced (chunks : List Chunk) (earlier : List (Bool × List Chunk)) (id : String) :
    storedChunk ((true, chunks) :: earlier) id = latest Chunk.id chunks id := by
  rw [storedChunk, if_pos rfl, Option.or_none]

/-- A document stays over a run that has neither its id nor its file. -/
theorem storedChunk_unforced {chunks : List Chunk} {earlier : List (Bool × List Chunk)} {old : Chunk}
    (hold : storedChunk earlier old.id = some old) (hid : ∀ d ∈ chunks, d.id ≠ old.id)
    (hpath : ∀ d ∈ chunks, d.path ≠ old.path) : storedChunk ((false, chunks) :: earlier) old.id = some old := by
  have hnone : latest Chunk.id chunks old.id = none := latest_eq_none_iff.mpr hid
  have hleft : chunks.all (·.path ≠ old.path) = true := by simpa using hpath
  rw [storedChunk, hnone, Option.none_or, hold]
  simp only [Bool.false_eq_true, if_false, Option.filter_some, hleft, if_true]

/-- Where ids tell files apart, every file with chunks since the last forced run has a document. -/
theorem exists_storedChunk {runs : List (Bool × List Chunk)} (hids : IdsTellFiles (sinceForced runs))
    {chunks : List Chunk} (hchunks : chunks ∈ sinceForced runs) {c : Chunk} (hc : c ∈ chunks) :
    ∃ old, storedChunk runs old.id = some old ∧ old.path = c.path := by
  induction runs generalizing chunks c with
  | nil => cases hchunks
  | cons run earlier ih =>
    obtain ⟨force, latestChunks⟩ := run
    have hown : IdsTellFiles [latestChunks] := by
      intro cs hcs ds hds
      obtain rfl := List.mem_singleton.mp hcs
      obtain rfl := List.mem_singleton.mp hds
      exact hids _ List.mem_cons_self _ List.mem_cons_self
    rcases List.mem_cons.mp hchunks with rfl | hearlier
    · exact exists_storedChunk_latest earlier hown hc
    · cases force with
      | true => cases hearlier
      | false =>
        obtain ⟨old, hold, hpath⟩ := ih hids.tail hearlier hc
        by_cases hreplaced : ∃ d ∈ latestChunks, d.path = old.path
        · obtain ⟨d, hd, hdpath⟩ := hreplaced
          obtain ⟨new, hnew, hnewpath⟩ := exists_storedChunk_latest earlier hown hd
          exact ⟨new, hnew, hnewpath.trans (hdpath.trans hpath)⟩
        · obtain ⟨-, others, hothers, hmem⟩ := mem_of_storedChunk hold
          have hother : ∀ d ∈ latestChunks, d.path ≠ old.path := fun d hd heq => hreplaced ⟨d, hd, heq⟩
          have hnew : ∀ d ∈ latestChunks, d.id ≠ old.id := fun d hd hid =>
            hother d hd (hids _ List.mem_cons_self _ (List.mem_cons_of_mem _ hothers) d hd old hmem hid)
          exact ⟨old, storedChunk_unforced hold hnew hother, hpath⟩

/-- A run that is not forced stores what a forced one does exactly if every document that was there has its id or its
file among the chunks. -/
theorem storedChunk_unforced_iff {κ : Type} (g : Chunk → κ) (runs : List (Bool × List Chunk)) (chunks : List Chunk) :
    (∀ id, (storedChunk ((false, chunks) :: runs) id).map g = (storedChunk ((true, chunks) :: runs) id).map g) ↔
      ∀ old, storedChunk runs old.id = some old → ∃ d ∈ chunks, d.id = old.id ∨ d.path = old.path := by
  simp only [storedChunk_forced]
  constructor
  · intro hsame old hold
    by_contra hgone
    have hid : ∀ d ∈ chunks, d.id ≠ old.id := fun d hd heq => hgone ⟨d, hd, .inl heq⟩
    have hpath : ∀ d ∈ chunks, d.path ≠ old.path := fun d hd heq => hgone ⟨d, hd, .inr heq⟩
    have hboth := hsame old.id
    rw [storedChunk_unforced hold hid hpath, latest_eq_none_iff.mpr hid] at hboth
    cases hboth
  · intro hsettled id
    rw [storedChunk]
    cases hlatest : latest Chunk.id chunks id with
    | some c => rfl
    | none =>
      cases hstored : storedChunk runs id with
      | none => rfl
      | some old =>
        obtain ⟨rfl, -⟩ := mem_of_storedChunk hstored
        obtain ⟨d, hd, hid | hpath⟩ := hsettled old hstored
        · exact absurd hid (latest_eq_none_iff.mp hlatest d hd)
        · have hgone : ¬chunks.all (·.path ≠ old.path) = true := by simpa using ⟨d, hd, hpath⟩
          rw [Option.filter_some, if_neg hgone]
          rfl

theorem settled_iff_files {runs : List (Bool × List Chunk)} {chunks : List Chunk}
    (hids : IdsTellFiles (chunks :: sinceForced runs)) :
    (∀ old, storedChunk runs old.id = some old → ∃ d ∈ chunks, d.id = old.id ∨ d.path = old.path) ↔
      ∀ cs ∈ sinceForced runs, ∀ old ∈ cs, ∃ d ∈ chunks, d.path = old.path := by
  constructor
  · intro hsettled cs hcs c hc
    obtain ⟨old, hold, hpath⟩ := exists_storedChunk hids.tail hcs hc
    obtain ⟨-, others, hothers, hmem⟩ := mem_of_storedChunk hold
    obtain ⟨d, hd, hid | hdpath⟩ := hsettled old hold
    · have hsame := hids chunks List.mem_cons_self others (List.mem_cons_of_mem chunks hothers) d hd old hmem hid
      exact ⟨d, hd, hsame.trans hpath⟩
    · exact ⟨d, hd, hdpath.trans hpath⟩
  · intro hfiles old hold
    obtain ⟨-, cs, hcs, hmem⟩ := mem_of_storedChunk hold
    obtain ⟨d, hd, hpath⟩ := hfiles cs hcs old hmem
    exact ⟨d, hd, .inr hpath⟩

/-- A run that is not forced keeps, beside what a forced one over the same tree leaves, the documents of files that
have no chunks any more. Both end alike exactly if there is no such document; where paths have no colon, exactly if
every file with chunks since the last forced run has chunks now. -/
theorem unforced_as_forced_iff {σ : Type} [Index σ] [LawfulIndex σ] {w : Workspace} {t : Tools} {p q r : Provider σ}
    {runs : List (Bool × List Chunk)} (hbefore : Embedded w t p.model p.collection runs p.index) {h : Host}
    {chunks : List Chunk} (hchunks : w.chunks t h = .ok chunks) {count count' : Nat}
    (hunforced : Workspace.embed p false chunks = (q, .ok count))
    (hforced : Workspace.embed p true chunks = (r, .ok count')) :
    (∀ id, kept? q.index p.collection id = (kept? r.index p.collection id).or
        (((storedChunk runs id).filter fun old => chunks.all (·.path ≠ old.path)).map
          (Chunk.keptBy p.model p.collection))) ∧
      ((∀ id, kept? q.index p.collection id = kept? r.index p.collection id) ↔
        ∀ old, storedChunk runs old.id = some old → ∃ d ∈ chunks, d.id = old.id ∨ d.path = old.path) ∧
      ((∀ cs ∈ chunks :: sinceForced runs, ∀ c ∈ cs, ':' ∉ c.path.toList) →
        ((∀ id, kept? q.index p.collection id = kept? r.index p.collection id) ↔
          ∀ cs ∈ sinceForced runs, ∀ old ∈ cs, ∃ d ∈ chunks, d.path = old.path)) := by
  have hq := (Embedded.run hbefore rfl rfl hchunks hunforced).kept.2
  have hr := (Embedded.run hbefore rfl rfl hchunks hforced).kept.2
  have hsame : (∀ id, kept? q.index p.collection id = kept? r.index p.collection id) ↔
      ∀ old, storedChunk runs old.id = some old → ∃ d ∈ chunks, d.id = old.id ∨ d.path = old.path := by
    simp only [hq, hr]
    exact storedChunk_unforced_iff _ runs chunks
  refine ⟨fun id => ?_, hsame, fun hcolon => hsame.trans (settled_iff_files fun cs hcs ds hds c hc d hd hid => ?_)⟩
  · rw [hq, hr, storedChunk, storedChunk, Option.map_or, Option.map_or]
    simp
  · have hbelow : ∀ cs ∈ chunks :: sinceForced runs, ∀ c ∈ cs, IsBelow c.path c.id :=
      List.forall_mem_cons.mpr ⟨below_of_chunkCodebase hchunks, hbefore.isBelow⟩
    exact (hbelow cs hcs c hc).path_eq (hid ▸ hbelow ds hds d hd) (hcolon cs hcs c hc) (hcolon ds hds d hd)

/-! ## Two trees -/

/-- The order of the skipped directories does not matter. -/
theorem IgnorePolicy.walk_withSkipped (extra : List String) (d : Disk) (root : String) :
    (withSkipped extra).walk d root = walk ⟨defaultSkipped ++ extra⟩ d root := by
  have hsegment : (withSkipped extra).ignoresSegment = ignoresSegment ⟨defaultSkipped ++ extra⟩ := by
    funext segment
    have hcontains : (withSkipped extra).skipped.contains segment = (defaultSkipped ++ extra).contains segment := by
      rw [Bool.eq_iff_iff, List.contains_iff_mem, List.contains_iff_mem, withSkipped, List.mem_eraseDups,
        List.mem_mergeSort]
    rw [ignoresSegment, ignoresSegment, hcontains]
  unfold walk reaches
  rw [hsegment]

def noteWorkspace : Workspace := { root := "", place := "", settings := { chunking := { fileSummary := false } } }

def noteTools : Tools := { grammars := { parse := fun _ _ => none }, send := fun _ => .error .notInitialized }

/-- A tree with one text. -/
def noteTree (octets : List UInt8) : Host := { disk := { files := [("a.txt", ⟨octets, 0, none⟩)] } }

/-- The window over a text of few lines. -/
def noteChunk (content : String) (lines : Nat) : Chunk :=
  { id := s!"a.txt:window:0:L1-L{lines}", content, kind := .window, path := "a.txt", lineEnd := lines
    metadata := [("chunk_index", "0"), ("chunking", "sliding_window"), ("language", "text")] }

theorem walk_noteTree (octets : List UInt8) :
    noteWorkspace.settings.ignorePolicy.walk (noteTree octets).disk "" = [("a.txt", ⟨octets, 0, none⟩)] := by
  have hreached : IgnorePolicy.reaches ⟨IgnorePolicy.defaultSkipped ++ []⟩ (noteTree octets).disk "" "a.txt" = true := rfl
  have hfiles : ((noteTree octets).disk.files.filter fun file =>
      IgnorePolicy.reaches ⟨IgnorePolicy.defaultSkipped ++ []⟩ (noteTree octets).disk "" file.1) =
      [("a.txt", ⟨octets, 0, none⟩)] := List.filter_eq_self.mpr (List.forall_mem_singleton.mpr hreached)
  refine (IgnorePolicy.walk_withSkipped [] _ _).trans ((IgnorePolicy.walk_of_directory rfl).trans ?_)
  exact (congrArg (List.mergeSort · _) hfiles).trans (List.mergeSort_singleton _)

theorem chunks_noteTree {octets : List UInt8} {content : String} (hread : readText? ⟨octets, 0, none⟩ = some content)
    {chunks : List Chunk}
    (hchunks : (chunkFile .builtin noteTools.grammars noteWorkspace.settings.chunking "a.txt" none
      (((noteTree octets).read "a.txt").toOption.bind firstLine?) content).toOption = some chunks) :
    noteWorkspace.chunks noteTools (noteTree octets) = .ok chunks := by
  have hpath : Path.relative "" "a.txt" = "a.txt" := by decide +kernel
  rw [Workspace.chunks, chunkCodebase, show noteWorkspace.root = "" from rfl, walk_noteTree]
  simp only [List.filterMap_cons, List.filterMap_nil, hread, Option.map_some, List.mapM_cons, List.mapM_nil, hpath,
    eq_ok_of_toOption hchunks]
  simp [bind, Except.bind, pure, Except.pure]

/-- A provider over an index, as a new process has it. -/
def noteProvider (index : Vectors.TableIndex) : Provider Vectors.TableIndex :=
  .ofParts { vectorStore := "sqlite" } .cosine
    { type := "constant", name := "constant", dimension := 1, embed := fun _ => .ok [.one] } index

/-- What a run over one line leaves. -/
def notedIndex : Vectors.TableIndex :=
  (Workspace.embed (noteProvider { metric := .cosine }) false [noteChunk "x\n" 1]).1.index

theorem embedded_notedIndex :
    Embedded noteWorkspace noteTools (noteProvider notedIndex).model (noteProvider notedIndex).collection
      [(false, [noteChunk "x\n" 1])] notedIndex := by
  have hread : readText? ⟨[120, 10], 0, none⟩ = some "x\n" := by decide +kernel
  have hchunks : noteWorkspace.chunks noteTools (noteTree [120, 10]) = .ok [noteChunk "x\n" 1] :=
    chunks_noteTree hread (by decide +kernel)
  have hcount : (Workspace.embed (noteProvider { metric := .cosine }) false [noteChunk "x\n" 1]).2 = .ok 1 :=
    eq_ok_of_toOption (by decide +kernel)
  have hempty : Embedded noteWorkspace noteTools (noteProvider notedIndex).model (noteProvider notedIndex).collection
      [] (noteProvider { metric := .cosine }).index := .start ⟨.nil, List.forall_mem_nil _⟩ fun _ => rfl
  exact .run hempty rfl rfl hchunks (Prod.ext rfl hcount)

/-- A second line changes the id of the window, and the document of the old window goes. -/
theorem unforced_as_forced_iff_second_line :
    let p := noteProvider notedIndex
    let chunks := [noteChunk "x\ny\n" 2]
    let q := (Workspace.embed p false chunks).1
    let r := (Workspace.embed p true chunks).1
    Embedded noteWorkspace noteTools p.model p.collection [(false, [noteChunk "x\n" 1])] p.index ∧
      noteWorkspace.chunks noteTools (noteTree [120, 10, 121, 10]) = .ok chunks ∧
      Workspace.embed p false chunks = (q, .ok 1) ∧ Workspace.embed p true chunks = (r, .ok 1) ∧
      ∀ id, kept? q.index p.collection id = kept? r.index p.collection id := by
  intro p chunks q r
  have hread : readText? ⟨[120, 10, 121, 10], 0, none⟩ = some "x\ny\n" := by decide +kernel
  have hchunks : noteWorkspace.chunks noteTools (noteTree [120, 10, 121, 10]) = .ok chunks :=
    chunks_noteTree hread (by decide +kernel)
  have hunforced : Workspace.embed p false chunks = (q, .ok 1) :=
    Prod.ext rfl (eq_ok_of_toOption (by decide +kernel))
  have hforced : Workspace.embed p true chunks = (r, .ok 1) :=
    Prod.ext rfl (eq_ok_of_toOption (by decide +kernel))
  obtain ⟨-, -, hfiles⟩ := unforced_as_forced_iff embedded_notedIndex hchunks hunforced hforced
  exact ⟨embedded_notedIndex, hchunks, hunforced, hforced, (hfiles (by decide +kernel)).mpr (by decide +kernel)⟩

/-- A file that is deleted keeps its document, unless the run is forced. -/
theorem deleted_file_keeps_document :
    let p := noteProvider notedIndex
    let q := (Workspace.embed p false []).1
    let r := (Workspace.embed p true []).1
    Embedded noteWorkspace noteTools p.model p.collection [(false, [noteChunk "x\n" 1])] p.index ∧
      noteWorkspace.chunks noteTools {} = .ok [] ∧
      Workspace.embed p false [] = (q, .ok 0) ∧ Workspace.embed p true [] = (r, .ok 0) ∧
      (kept? q.index p.collection "a.txt:window:0:L1-L1").isSome = true ∧
      kept? r.index p.collection "a.txt:window:0:L1-L1" = none := by
  intro p q r
  have hwalk : noteWorkspace.settings.ignorePolicy.walk ({} : Host).disk "" = [] := List.mergeSort_nil
  have hchunks : noteWorkspace.chunks noteTools {} = .ok [] := by
    rw [Workspace.chunks, chunkCodebase, show noteWorkspace.root = "" from rfl, hwalk]
    rfl
  have hunforced : Workspace.embed p false [] = (q, .ok 0) := Prod.ext rfl (eq_ok_of_toOption (by decide +kernel))
  have hforced : Workspace.embed p true [] = (r, .ok 0) := Prod.ext rfl (eq_ok_of_toOption (by decide +kernel))
  exact ⟨embedded_notedIndex, hchunks, hunforced, hforced, by decide +kernel, by decide +kernel⟩

end CodeIndex
