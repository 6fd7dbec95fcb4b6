import CodeIndex.Embedding.Provider
import CodeIndex.Proofs.Embedding.Calls
import CodeIndex.Proofs.Except
import CodeIndex.Proofs.Vectors.Lawful

/-!
# Documents in batches

Documents stored in batches are stored as if they were put one by one, up to the batch of the first document that
cannot be embedded. Full batches before it are stored (`indexBatches_stored`), and the run goes on from there with
the batch that fails (`batches_append`, `indexBatches_append`).
-/

namespace CodeIndex

open CodeIndex.Graph (latest)
open Vectors (Index Point LawfulIndex Writable upsertEach upsertEach_eq upsertEach_append kept?_upsertEach)
open Vectors.LawfulIndex (keep kept?)

namespace Provider

variable {σ : Type} {p : Provider σ} {size : Nat}

/-- The point of a document, if it can be embedded with a vector of the size. -/
def pointFor (p : Provider σ) (size : Nat) (d : Document) : Except EmbedError Point :=
  (p.embedSized size d.content).map (pointOf d)

theorem eq_of_pointFor {size : Nat} {d : Document} {point : Point} (h : p.pointFor size d = .ok point) :
    point = pointOf d ((p.model.embed d.content).toOption.getD []) := by
  unfold pointFor embedSized at h
  cases hembed : p.model.embed d.content with
  | error e =>
    rw [hembed] at h
    cases h
  | ok v =>
    rw [hembed] at h
    simp only [bind, Except.bind, sized] at h
    split at h
    · cases h
      rfl
    · cases h

theorem mapM_pointFor (p : Provider σ) (size : Nat) (batch : List Document) :
    batch.mapM (p.pointFor size) =
      ((batch.map (·.content)).mapM (p.embedSized size)).map (List.zipWith pointOf batch) := by
  induction batch with
  | nil => rfl
  | cons d rest ih =>
    rw [List.map_cons, List.mapM_cons, List.mapM_cons, ih, pointFor]
    cases p.embedSized size d.content with
    | error e => rfl
    | ok v =>
      cases (rest.map (·.content)).mapM (p.embedSized size) <;> rfl

theorem exists_vectors {batch : List Document} {points : List Point}
    (h : batch.mapM (p.pointFor size) = .ok points) :
    ∃ vectors, (batch.map (·.content)).mapM (p.embedSized size) = .ok vectors ∧
      points = List.zipWith pointOf batch vectors := by
  rw [mapM_pointFor] at h
  cases hvectors : (batch.map (·.content)).mapM (p.embedSized size) with
  | error e =>
    rw [hvectors] at h
    cases h
  | ok vectors =>
    rw [hvectors] at h
    cases h
    exact ⟨vectors, rfl, rfl⟩

variable [Index σ]

/-- However many calls are under way, the vectors are those of the texts one after the other. -/
theorem embedBatch_eq (hready : p.measured = some size) (texts : List String) :
    p.embedBatch texts = (p, texts.mapM (p.embedSized size)) := by
  have hprepare : p.prepare = (p, .ok size) := by
    rw [prepare, hready]
  rw [embedBatch, hprepare]
  cases texts with
  | nil => rfl
  | cons text rest =>
    simp only [List.isEmpty_cons, Bool.false_eq_true, if_false, Calls.collect_eq_mapM]

/-! ## One batch -/

theorem indexBatch_of_points (hready : p.measured = some size) {batch : List Document} {points : List Point}
    (hpoints : batch.mapM (p.pointFor size) = .ok points) {y : σ}
    (hy : Index.upsert p.index p.collection points = .ok y) :
    p.indexBatch batch = ({ p with index := y }, .ok ()) := by
  obtain ⟨vectors, hvectors, rfl⟩ := exists_vectors hpoints
  rw [indexBatch, embedBatch_eq hready, hvectors]
  simp only [hy]

theorem indexBatch_of_error (hready : p.measured = some size) {batch : List Document} {e : EmbedError}
    (herror : batch.mapM (p.pointFor size) = .error e) : p.indexBatch batch = (p, .error e) := by
  rw [mapM_pointFor] at herror
  rw [indexBatch, embedBatch_eq hready]
  cases hvectors : (batch.map (·.content)).mapM (p.embedSized size) with
  | ok vectors =>
    rw [hvectors] at herror
    cases herror
  | error e' =>
    rw [hvectors] at herror
    cases herror
    rfl

theorem exists_of_indexBatch (hready : p.measured = some size) {batch : List Document} {q : Provider σ}
    (h : p.indexBatch batch = (q, .ok ())) :
    ∃ points y, batch.mapM (p.pointFor size) = .ok points ∧ Index.upsert p.index p.collection points = .ok y ∧
      q = { p with index := y } := by
  cases hpoints : batch.mapM (p.pointFor size) with
  | error e =>
    rw [indexBatch_of_error hready hpoints] at h
    cases h
  | ok points =>
    obtain ⟨vectors, hvectors, rfl⟩ := exists_vectors hpoints
    rw [indexBatch, embedBatch_eq hready, hvectors] at h
    dsimp only at h
    cases hy : Index.upsert p.index p.collection (List.zipWith pointOf batch vectors) with
    | error e =>
      rw [hy] at h
      cases h
    | ok y =>
      rw [hy] at h
      cases h
      exact ⟨_, y, rfl, hy, rfl⟩

/-! ## Batch after batch -/

theorem indexBatches_append {q : Provider σ} {done count : Nat} {batches : List (List Document)}
    (h : p.indexBatches done batches = (q, .ok count)) (more : List (List Document)) :
    p.indexBatches done (batches ++ more) = q.indexBatches count more := by
  induction batches generalizing p done with
  | nil =>
    cases h
    rfl
  | cons batch rest ih =>
    rw [indexBatches] at h
    rw [List.cons_append, indexBatches]
    rcases hbatch : p.indexBatch batch with ⟨p', answer⟩
    rw [hbatch] at h
    cases answer with
    | error e => cases h
    | ok _ => exact ih h

/-- Batches part a list where a batch ends. -/
theorem batches_append {α : Type} {n : Nat} {xs : List α} (hxs : (n + 1) ∣ xs.length) (ys : List α) :
    batches n (xs ++ ys) = batches n xs ++ batches n ys := by
  fun_induction batches n xs with
  | case1 => rfl
  | case2 a rest ih =>
    have hfull : n ≤ rest.length := Nat.le_of_lt_succ (Nat.le_of_dvd (Nat.succ_pos _) hxs)
    have hrest : (n + 1) ∣ (rest.drop n).length := by
      have hlength : (a :: rest).length = (n + 1) + (rest.drop n).length := by
        rw [List.length_cons, List.length_drop]
        omega
      rw [hlength] at hxs
      exact (Nat.dvd_add_right (Nat.dvd_refl _)).mp hxs
    rw [List.cons_append, batches, List.take_append_of_le_length hfull, List.drop_append_of_le_length hfull,
      ih hrest, List.cons_append]

variable [LawfulIndex σ]

/-- The points of a batch that has a document are put one by one. -/
theorem upsertEach_of_batch {d : Document} {batch : List Document} {points : List Point}
    (hpoints : (d :: batch).mapM (p.pointFor size) = .ok points) {y : σ}
    (hy : Index.upsert p.index p.collection points = .ok y) : upsertEach p.collection p.index points = .ok y := by
  obtain ⟨point, more, _, _, rfl⟩ := mapM_cons_eq_ok.mp hpoints
  exact (upsertEach_eq p.collection p.index (List.cons_ne_nil point more)).trans hy

/-- Batches of documents that can all be embedded are stored, as if their points were put one by one. -/
theorem indexBatches_stored (hready : p.measured = some size) (hwritable : Writable p.collection p.index) (n : Nat)
    {documents : List Document} {points : List Point} (hpoints : documents.mapM (p.pointFor size) = .ok points)
    (done : Nat) :
    ∃ y, upsertEach p.collection p.index points = .ok y ∧
      p.indexBatches done (batches n documents) = ({ p with index := y }, .ok (done + documents.length)) := by
  fun_induction batches n documents generalizing p points done with
  | case1 =>
    cases hpoints
    exact ⟨p.index, rfl, rfl⟩
  | case2 d rest ih =>
    rw [← List.take_append_drop n rest, ← List.cons_append] at hpoints
    obtain ⟨first, others, hfirst, hothers, rfl⟩ := mapM_append_eq_ok.mp hpoints
    obtain ⟨y, hy⟩ := hwritable first
    obtain ⟨z, hz, hrun⟩ := ih (p := { p with index := y }) hready (hwritable.upsert hy) hothers
      (done + (d :: rest.take n).length)
    refine ⟨z, (upsertEach_append (upsertEach_of_batch hfirst hy) others).trans hz, ?_⟩
    rw [indexBatches, indexBatch_of_points hready hfirst hy]
    refine hrun.trans ?_
    have hcount : done + (d :: rest.take n).length + (rest.drop n).length = done + (d :: rest).length := by
      simp only [List.length_cons, List.length_take, List.length_drop]
      omega
    rw [hcount]

/-- A run that succeeds has embedded every document and put the points one by one. -/
theorem exists_of_indexBatches (hready : p.measured = some size) {n done count : Nat} {documents : List Document}
    {q : Provider σ} (h : p.indexBatches done (batches n documents) = (q, .ok count)) :
    ∃ points y, documents.mapM (p.pointFor size) = .ok points ∧ upsertEach p.collection p.index points = .ok y ∧
      q = { p with index := y } := by
  fun_induction batches n documents generalizing p done with
  | case1 =>
    cases h
    exact ⟨[], _, rfl, rfl, rfl⟩
  | case2 d rest ih =>
    rw [indexBatches] at h
    rcases hbatch : p.indexBatch (d :: rest.take n) with ⟨p', answer⟩
    rw [hbatch] at h
    cases answer with
    | error e => cases h
    | ok _ =>
      obtain ⟨first, y, hfirst, hy, rfl⟩ := exists_of_indexBatch hready hbatch
      obtain ⟨others, z, hothers, hz, rfl⟩ := ih (p := { p with index := y }) hready h
      refine ⟨first ++ others, z, ?_, ?_, rfl⟩
      · rw [← List.take_append_drop n rest, ← List.cons_append]
        exact mapM_append_eq_ok.mpr ⟨first, others, hfirst, hothers, rfl⟩
      · exact (upsertEach_append (upsertEach_of_batch hfirst hy) others).trans hz

/-- Where a document cannot be embedded, the batches before its own are stored. -/
theorem indexBatches_failed (hready : p.measured = some size) (hwritable : Writable p.collection p.index) (n : Nat)
    {documents : List Document} {i : Nat} {d : Document} {e : EmbedError} {points : List Point}
    (hpoints : (documents.take i).mapM (p.pointFor size) = .ok points) (hd : documents[i]? = some d)
    (he : p.pointFor size d = .error e) (done : Nat) :
    ∃ y, upsertEach p.collection p.index (points.take ((n + 1) * (i / (n + 1)))) = .ok y ∧
      p.indexBatches done (batches n documents) = ({ p with index := y }, .error e) := by
  have hi : i < documents.length := (List.getElem?_eq_some_iff.mp hd).1
  have hrest : i - (n + 1) * (i / (n + 1)) < n + 1 := by
    have hmod : i % (n + 1) < n + 1 := Nat.mod_lt i (Nat.succ_pos n)
    have hsum := Nat.div_add_mod i (n + 1)
    omega
  have hle : (n + 1) * (i / (n + 1)) ≤ i := Nat.mul_div_le i (n + 1)
  generalize hstored : (n + 1) * (i / (n + 1)) = stored at hle hrest ⊢
  -- the documents before the failing one: full batches, and the front of its own batch
  rw [← List.take_append_drop stored (documents.take i), List.take_take, Nat.min_eq_left hle] at hpoints
  obtain ⟨first, others, hfirst, hothers, rfl⟩ := mapM_append_eq_ok.mp hpoints
  have hlength : (documents.take stored).length = stored := List.length_take_of_le (by omega)
  have hfront : (first ++ others).take stored = first :=
    List.take_left' ((length_of_mapM hfirst).trans hlength)
  obtain ⟨y, hy, hrun⟩ := indexBatches_stored hready hwritable n hfirst done
  refine ⟨y, hfront.symm ▸ hy, ?_⟩
  have hsplit : batches n documents = batches n (documents.take stored) ++ batches n (documents.drop stored) := by
    rw [← batches_append, List.take_append_drop]
    exact ⟨i / (n + 1), by rw [hlength, hstored]⟩
  rw [hsplit, indexBatches_append hrun]
  have hbefore : (((documents.drop stored).take (n + 1)).take (i - stored)).mapM (p.pointFor size) = .ok others := by
    rw [List.take_take, Nat.min_eq_left hrest.le, ← List.drop_take]
    exact hothers
  have hplace : ((documents.drop stored).take (n + 1))[i - stored]? = some d := by
    rw [List.getElem?_take_of_lt hrest, List.getElem?_drop, Nat.add_sub_cancel' hle]
    exact hd
  have hbatch := mapM_eq_error hbefore hplace he
  cases hdrop : documents.drop stored with
  | nil =>
    have hover := List.drop_eq_nil_iff.mp hdrop
    omega
  | cons a rest =>
    rw [hdrop, List.take_succ_cons] at hbatch
    rw [batches, indexBatches, indexBatch_of_error (p := { p with index := y }) hready hbatch]

end Provider

/-- Documents are stored in batches as if they were put one by one, the last of equal ids last, whatever the size of
batches, the number of calls under way and the order of their answers. Where a document cannot be embedded, the full
batches before it are stored and its error is the answer. -/
theorem batched_as_one_by_one {σ : Type} [Index σ] [LawfulIndex σ] {p : Provider σ} {size : Nat}
    (hready : p.measured = some size) (hwritable : Writable p.collection p.index) (documents : List Document) :
    (∀ points, documents.mapM (p.pointFor size) = .ok points →
      ∃ y, upsertEach p.collection p.index points = .ok y ∧
        (∀ id, kept? y p.collection id =
          ((latest Point.id points id).map (keep p.collection)).or (kept? p.index p.collection id)) ∧
        ∀ batchSize concurrency early,
          { p with batchSize, concurrency, early }.indexDocuments documents =
            ({ p with batchSize, concurrency, early, index := y }, .ok documents.length)) ∧
      ∀ i d e points, documents[i]? = some d → (documents.take i).mapM (p.pointFor size) = .ok points →
        p.pointFor size d = .error e →
        ∀ batchSize, let b := max batchSize 1
          ∃ y, upsertEach p.collection p.index (points.take (b * (i / b))) = .ok y ∧
            (∀ id, kept? y p.collection id =
              ((latest Point.id (points.take (b * (i / b))) id).map (keep p.collection)).or
                (kept? p.index p.collection id)) ∧
            ∀ concurrency early,
              { p with batchSize, concurrency, early }.indexDocuments documents =
                ({ p with batchSize, concurrency, early, index := y }, .error e) := by
  constructor
  · intro points hpoints
    obtain ⟨y, hy, _⟩ := hwritable.upsertEach points
    refine ⟨y, hy, kept?_upsertEach hy, fun batchSize concurrency early => ?_⟩
    obtain ⟨z, hz, hrun⟩ := Provider.indexBatches_stored (p := { p with batchSize, concurrency, early })
      hready hwritable (batchSize - 1) hpoints 0
    obtain rfl : z = y := Except.ok.inj (hz.symm.trans hy)
    rw [Nat.zero_add] at hrun
    exact hrun
  · intro i d e points hd hpoints he batchSize b
    have hb : batchSize - 1 + 1 = b := by
      simp only [b]
      omega
    obtain ⟨y, hy, _⟩ := hwritable.upsertEach (points.take (b * (i / b)))
    refine ⟨y, hy, kept?_upsertEach hy, fun concurrency early => ?_⟩
    obtain ⟨z, hz, hrun⟩ := Provider.indexBatches_failed (p := { p with batchSize, concurrency, early })
      hready hwritable (batchSize - 1) hpoints hd he 0
    rw [hb] at hz
    obtain rfl : z = y := Except.ok.inj (hz.symm.trans hy)
    exact hrun

/-- A model that gives one text a vector of another length. -/
def unevenModel : Model :=
  { type := "uneven", name := "uneven", dimension := 1
    embed := fun text => .ok (if text = "pair" then [.one, .one] else [.one]) }

/-- Two documents a batch, and three calls under way; the second is always answered before the first. -/
def unevenProvider : Provider Vectors.MemoryIndex :=
  { backend := "memory", collection := "code", metric := .cosine, batchSize := 2, concurrency := 3, model := unevenModel
    index := { metric := .cosine, collections := [("code", [])] }, measured := some 1, early := fun _ i => i = 1 }

/-- The third document has the id of the first, in another batch. -/
def repeatedId : List Document :=
  [{ id := "a", content := "x" }, { id := "b", content := "y" }, { id := "a", content := "z" }]

/-- The fourth document is in the batch of the third. -/
def lastUneven : List Document := repeatedId ++ [{ id := "c", content := "pair" }]

theorem batched_as_one_by_one_repeated_id :
    unevenProvider.measured = some 1 ∧ Writable unevenProvider.collection unevenProvider.index ∧
      (∃ y, unevenProvider.indexDocuments repeatedId = ({ unevenProvider with index := y }, .ok 3) ∧
        kept? y "code" "a" = some (keep "code" (Provider.pointOf { id := "a", content := "z" } [.one]))) ∧
      ∃ y, unevenProvider.indexDocuments lastUneven =
          ({ unevenProvider with index := y }, .error (.dimensionMismatch 1 2)) ∧
        kept? y "code" "a" = some (keep "code" (Provider.pointOf { id := "a", content := "x" } [.one])) ∧
        kept? y "code" "c" = none := by
  have hready : unevenProvider.measured = some 1 := rfl
  have hwritable : Writable unevenProvider.collection unevenProvider.index := Vectors.MemoryIndex.writable rfl
  have hpoints : repeatedId.mapM (unevenProvider.pointFor 1) =
      .ok (repeatedId.map (Provider.pointOf · [.one])) := rfl
  have hfront : (lastUneven.take 3).mapM (unevenProvider.pointFor 1) =
      .ok (repeatedId.map (Provider.pointOf · [.one])) := rfl
  refine ⟨hready, hwritable, ?_, ?_⟩
  · obtain ⟨y, _, hkept, hrun⟩ := (batched_as_one_by_one hready hwritable repeatedId).1 _ hpoints
    exact ⟨y, hrun 2 3 _, (hkept "a").trans rfl⟩
  · obtain ⟨y, _, hkept, hrun⟩ :=
      (batched_as_one_by_one hready hwritable lastUneven).2 3 _ _ _ rfl hfront rfl 2
    exact ⟨y, hrun 3 _, (hkept "a").trans rfl, (hkept "c").trans rfl⟩

end CodeIndex
