import CodeIndex.Proofs.Vectors.Agreement

/-!
# Laws of an index

A collection can be told by what it keeps under each id (`LawfulIndex`): the last of the points put under the id,
unless it was removed since. Points can be put in parts. Memory and tables are such indexes; memory keeps the
payload and a table a row.
-/

namespace CodeIndex

theorem Dict.put_put {α : Type} (key : String) (value old : α) (d : Dict α) :
    Dict.put key value (Dict.put key old d) = Dict.put key value d := by
  induction d with
  | nil => simp [put]
  | cons entry rest ih =>
    by_cases hlt : key < entry.1
    · simp [put, hlt]
    · by_cases heq : key = entry.1
      · simp [put, heq]
      · simp [put, hlt, heq, ih]

namespace Vectors

open CodeIndex.Graph (latest latest_nil latest_cons)

/-- An index whose collections can be told by what they keep under each id. -/
class LawfulIndex (σ : Type) [Index σ] where
  Kept : Type
  /-- What a collection keeps of a point. -/
  keep : (collection : String) → Point → Kept
  payload : Kept → Payload
  kept? : σ → (collection id : String) → Option Kept
  Valid : σ → Prop
  file_keep {collection : String} {p : Point} {file : String}
    (h : p.payload.lookup "file_path" = some (.str file)) :
    (payload (keep collection p)).lookup "file_path" = some (.str file)
  upsert_append (x : σ) (collection : String) (ps qs : List Point) :
    Index.upsert x collection (ps ++ qs) = Index.upsert x collection ps >>= (Index.upsert · collection qs)
  kept?_upsert {x y : σ} {collection : String} {ps : List Point} (h : Index.upsert x collection ps = .ok y)
    (id : String) :
    kept? y collection id = ((latest Point.id ps id).map (keep collection)).or (kept? x collection id)
  valid_upsert {x y : σ} {collection : String} {ps : List Point} (hx : Valid x)
    (h : Index.upsert x collection ps = .ok y) : Valid y
  kept?_ensure {x y : σ} {collection : String} {size : Nat} (h : Index.ensure x collection size = .ok y)
    (id : String) : kept? y collection id = kept? x collection id
  valid_ensure {x y : σ} {collection : String} {size : Nat} (hx : Valid x)
    (h : Index.ensure x collection size = .ok y) : Valid y
  kept?_of_absent {x : σ} {collection : String} (hx : Valid x) (h : Index.has x collection = .ok false)
    (id : String) : kept? x collection id = none
  kept?_drop {x y : σ} {collection : String} (h : Index.drop x collection = .ok y) (id : String) :
    kept? y collection id = none
  valid_drop {x y : σ} {collection : String} (hx : Valid x) (h : Index.drop x collection = .ok y) : Valid y
  kept?_deleteWhere {x y : σ} {collection : String} {f : Filter} {n : Nat} (hx : Valid x)
    (h : Index.deleteWhere x collection f = .ok (y, n)) (id : String) :
    kept? y collection id = (kept? x collection id).filter fun k => !f.holds (payload k)
  valid_deleteWhere {x y : σ} {collection : String} {f : Filter} {n : Nat} (hx : Valid x)
    (h : Index.deleteWhere x collection f = .ok (y, n)) : Valid y

/-! ## Points one by one -/

section Each

variable {σ : Type} [Index σ]

/-- Puts points one by one. -/
def upsertEach (collection : String) (x : σ) (ps : List Point) : Except Error σ :=
  ps.foldlM (fun x p => Index.upsert x collection [p]) x

/-- Any points can be put. -/
def Writable (collection : String) (x : σ) : Prop := ∀ ps, ∃ y, Index.upsert x collection ps = .ok y

variable {collection : String} {x y : σ} {ps : List Point}

theorem upsertEach_append (h : upsertEach collection x ps = .ok y) (qs : List Point) :
    upsertEach collection x (ps ++ qs) = upsertEach collection y qs := by
  rw [upsertEach, List.foldlM_append]
  exact congrArg (· >>= _) h

variable [LawfulIndex σ]

open LawfulIndex (keep kept? Valid upsert_append kept?_upsert valid_upsert)

/-- Putting points at once is putting them one by one. -/
theorem upsertEach_eq (collection : String) (x : σ) (hps : ps ≠ []) :
    upsertEach collection x ps = Index.upsert x collection ps := by
  induction ps generalizing x with
  | nil => exact absurd rfl hps
  | cons p ps ih =>
    rw [upsertEach, List.foldlM_cons]
    cases ps with
    | nil => exact bind_pure _
    | cons q ps =>
      have hrest : ∀ y : σ, upsertEach collection y (q :: ps) = Index.upsert y collection (q :: ps) :=
        fun y => ih y (List.cons_ne_nil q ps)
      refine Eq.trans ?_ (upsert_append x collection [p] (q :: ps)).symm
      exact congrArg (Index.upsert x collection [p] >>= ·) (funext hrest)

theorem Writable.upsert (hx : Writable collection x) (h : Index.upsert x collection ps = .ok y) :
    Writable collection y := by
  intro qs
  obtain ⟨z, hz⟩ := hx (ps ++ qs)
  rw [upsert_append, h] at hz
  exact ⟨z, hz⟩

theorem Writable.upsertEach (hx : Writable collection x) (ps : List Point) :
    ∃ y, upsertEach collection x ps = .ok y ∧ Writable collection y := by
  by_cases hps : ps = []
  · subst hps
    exact ⟨x, rfl, hx⟩
  · obtain ⟨y, hy⟩ := hx ps
    exact ⟨y, (upsertEach_eq collection x hps).trans hy, hx.upsert hy⟩

theorem kept?_upsertEach (h : upsertEach collection x ps = .ok y) (id : String) :
    kept? y collection id = ((latest Point.id ps id).map (keep collection)).or (kept? x collection id) := by
  by_cases hps : ps = []
  · subst hps
    cases h
    rfl
  · exact kept?_upsert ((upsertEach_eq collection x hps).symm.trans h) id

theorem valid_upsertEach (hx : Valid x) (h : upsertEach collection x ps = .ok y) : Valid y := by
  by_cases hps : ps = []
  · subst hps
    cases h
    exact hx
  · exact valid_upsert hx ((upsertEach_eq collection x hps).symm.trans h)

end Each

/-! ## Memory -/

namespace MemoryIndex

variable {x y : MemoryIndex} {collection : String} {ps : List Point}

/-- Entries after points were put. -/
def putAll (ps : List Point) (entries : Dict Entry) : Dict Entry :=
  ps.foldl (fun es p => Dict.put p.id ⟨p.vector, p.payload⟩ es) entries

theorem upsert_eq (x : MemoryIndex) (collection : String) (ps : List Point) :
    Index.upsert x collection ps =
      if (x.collections.lookup collection).isSome then
        .ok (x.set collection (putAll ps (x.entriesOf collection)))
      else .error (.missing .upsert collection) := by
  simp only [Index.upsert, find, entriesOf]
  cases x.collections.lookup collection <;> rfl

theorem eq_of_upsert (h : Index.upsert x collection ps = .ok y) :
    y = x.set collection (putAll ps (x.entriesOf collection)) := by
  rw [upsert_eq] at h
  split at h
  · exact (Except.ok.inj h).symm
  · cases h

theorem eq_of_deleteWhere {f : Filter} {n : Nat} (h : Index.deleteWhere x collection f = .ok (y, n)) :
    (x.entriesOf collection = [] ∧ y = x) ∨
      y = x.set collection ((x.entriesOf collection).filter fun entry => !f.holds entry.2.payload) := by
  simp only [Index.deleteWhere] at h
  cases hlookup : x.collections.lookup collection with
  | none =>
    rw [hlookup] at h
    cases h
    exact .inl ⟨entriesOf_of_absent hlookup, rfl⟩
  | some entries =>
    rw [hlookup] at h
    cases h
    rw [entriesOf, hlookup]
    exact .inr rfl

theorem set_set (x : MemoryIndex) (collection : String) (entries others : Dict Entry) :
    (x.set collection others).set collection entries = x.set collection entries := by
  simp only [set, Dict.put_put]

theorem lookup_without (x : MemoryIndex) (collection other : String) :
    (x.collections.filter (·.1 != collection)).lookup other =
      if other = collection then none else x.collections.lookup other := by
  rw [lookup_eq_find?, find?_filter_key Prod.fst x.collections (· != collection), lookup_eq_find?]
  by_cases h : other = collection <;> simp [h]

theorem lookup_putAll (ps : List Point) (entries : Dict Entry) (id : String) :
    (putAll ps entries).lookup id =
      ((latest Point.id ps id).map fun p => ⟨p.vector, p.payload⟩).or (entries.lookup id) := by
  induction ps generalizing entries with
  | nil => rfl
  | cons p ps ih =>
    refine (ih _).trans ?_
    rw [Dict.lookup_put, latest_cons]
    cases latest Point.id ps id with
    | some q => rfl
    | none => by_cases hid : id = p.id <;> simp [hid, eq_comm]

theorem sorted_putAll {entries : Dict Entry} (h : Dict.Sorted entries) (ps : List Point) :
    Dict.Sorted (putAll ps entries) := by
  induction ps generalizing entries with
  | nil => exact h
  | cons p ps ih => exact ih (h.put p.id _)

/-- A collection that exists takes any points. -/
theorem writable (h : (x.collections.lookup collection).isSome) : Writable collection x := by
  intro ps
  rw [upsert_eq, if_pos h]
  exact ⟨_, rfl⟩

/-- The entries of every collection are in order. -/
def InOrder (x : MemoryIndex) : Prop := ∀ collection, Dict.Sorted (x.entriesOf collection)

theorem InOrder.set (h : x.InOrder) {entries : Dict Entry} (hentries : Dict.Sorted entries) :
    (x.set collection entries).InOrder := by
  intro other
  rw [entriesOf, MemoryIndex.set, Dict.lookup_put]
  by_cases hother : other = collection
  · simpa [hother] using hentries
  · rw [if_neg hother]
    exact h other

instance : LawfulIndex MemoryIndex where
  Kept := Entry
  keep _ p := ⟨p.vector, p.payload⟩
  payload := Entry.payload
  kept? x collection id := (x.entriesOf collection).lookup id
  Valid := InOrder
  file_keep h := h
  upsert_append x collection ps qs := by
    rw [upsert_eq, upsert_eq]
    split
    · simp only [bind, Except.bind, upsert_eq, lookup_set, entriesOf_set, set_set, Option.isSome_some, if_true]
      rw [putAll, putAll, putAll, List.foldl_append]
    · rfl
  kept?_upsert h id := by
    rw [eq_of_upsert h, entriesOf_set, lookup_putAll]
  valid_upsert {x y collection ps} hx h := by
    rw [eq_of_upsert h]
    exact hx.set (sorted_putAll (hx collection) ps)
  kept?_ensure {x y collection size} h id := by
    cases h
    rw [Dict.putNew]
    split
    · rfl
    · next hnone =>
      rw [entriesOf_of_absent (Option.not_isSome_iff_eq_none.mp hnone)]
      simp [entriesOf, Dict.lookup_put]
  valid_ensure {x y collection size} hx h := by
    cases h
    rw [Dict.putNew]
    split
    · exact hx
    · exact hx.set .nil
  kept?_of_absent {x collection} _ h id := by
    have hnone : x.collections.lookup collection = none :=
      Option.isSome_eq_false_iff.mp (Except.ok.inj h) |> Option.isNone_iff_eq_none.mp
    rw [entriesOf_of_absent hnone]
    rfl
  kept?_drop {x y collection} h id := by
    cases h
    rw [entriesOf_of_absent (by rw [lookup_without, if_pos rfl])]
    rfl
  valid_drop {x y collection} hx h := by
    cases h
    intro other
    rw [entriesOf, lookup_without]
    split
    · exact .nil
    · exact hx other
  kept?_deleteWhere {x y collection f n} hx h id := by
    rcases eq_of_deleteWhere h with ⟨hnone, rfl⟩ | rfl
    · rw [hnone]
      rfl
    · rw [entriesOf_set, Dict.lookup_filter (hx collection).nodup]
  valid_deleteWhere {x y collection f n} hx h := by
    rcases eq_of_deleteWhere h with ⟨_, rfl⟩ | rfl
    · exact hx
    · exact hx.set ((hx collection).sublist List.filter_sublist)

end MemoryIndex

/-! ## Tables -/

theorem TableIndex.eq_of_guarded {α : Type} {x : TableIndex} {kind : ErrorKind} {answer : Except Error α} {a : α}
    (h : x.guarded kind answer = .ok a) : answer = .ok a := by
  rw [guarded] at h
  split at h
  · cases h
  · exact h

namespace TableIndex

variable {x y : TableIndex} {collection : String} {ps : List Point}

def putRows (collection : String) (ps : List Point) (rows : List Row) : List Row :=
  (ps.map (rowOf collection)).foldl upsertRow rows

theorem upsert_eq (x : TableIndex) (collection : String) (ps : List Point) :
    Index.upsert x collection ps = x.guarded .upsert (if collection ∈ x.collections then
      .ok { x with rows := putRows collection ps x.rows } else .error (.missing .upsert collection)) := by
  simp only [Index.upsert, List.contains_iff_mem]
  rfl

theorem eq_of_upsert (h : Index.upsert x collection ps = .ok y) :
    collection ∈ x.collections ∧ y = { x with rows := putRows collection ps x.rows } := by
  rw [upsert_eq] at h
  have hopen := eq_of_guarded h
  split at hopen
  · next hmem => exact ⟨hmem, (Except.ok.inj hopen).symm⟩
  · cases hopen

/-- A collection that exists in an open table takes any points. -/
theorem writable (hopen : x.isClosed = false) (h : collection ∈ x.collections) : Writable collection x := by
  intro ps
  rw [upsert_eq, guarded_of_isOpen hopen, if_pos h]
  exact ⟨_, rfl⟩

theorem find?_putRows (collection : String) (ps : List Point) (rows : List Row) (id : String) :
    (putRows collection ps rows).find? (Row.key · = (collection, id)) =
      ((latest Point.id ps id).map (rowOf collection)).or (rows.find? (Row.key · = (collection, id))) := by
  induction ps generalizing rows with
  | nil => rfl
  | cons p ps ih =>
    refine (ih _).trans ?_
    rw [upsertRow_eq, Graph.TableGraph.find?_upsert sameRow_iff, latest_cons]
    cases latest Point.id ps id with
    | some q => rfl
    | none => by_cases hid : p.id = id <;> simp [hid, Row.key, rowOf]

theorem mem_putRows {rows : List Row} {r : Row} (h : r ∈ putRows collection ps rows) :
    r ∈ rows ∨ r.collection = collection := by
  induction ps generalizing rows with
  | nil => exact .inl h
  | cons p ps ih =>
    rcases ih h with hold | hnew
    · rw [upsertRow] at hold
      split at hold
      · obtain ⟨s, hs, rfl⟩ := List.mem_map.mp hold
        split
        · exact .inr rfl
        · exact .inl hs
      · rcases List.mem_append.mp hold with hold | hlast
        · exact .inl hold
        · exact .inr (congrArg Row.collection (List.mem_singleton.mp hlast))
    · exact .inr hnew

theorem keyed_putRows {rows : List Row} (h : Keyed Row.key rows) (ps : List Point) :
    Keyed Row.key (putRows collection ps rows) := by
  induction ps generalizing rows with
  | nil => exact h
  | cons p ps ih => exact ih (Graph.TableGraph.keyed_upsert sameRow_iff h (rowOf collection p))

/-- One row an id, in a collection that exists. -/
structure OneRowAnId (x : TableIndex) : Prop where
  keyed : Keyed Row.key x.rows
  exists_collection : ∀ r ∈ x.rows, r.collection ∈ x.collections

/-- A row goes with the others of its id where it goes itself. -/
theorem OneRowAnId.contains_doomed (h : x.OneRowAnId) {p : Row → Bool} {r : Row} (hmem : r ∈ x.rows)
    (hcollection : r.collection = collection) :
    (((x.rowsOf collection).filter p).map (·.id)).contains r.id = p r := by
  rw [Bool.eq_iff_iff, List.contains_iff_mem, List.mem_map]
  constructor
  · rintro ⟨s, hs, hid⟩
    obtain ⟨hrow, hp⟩ := List.mem_filter.mp hs
    obtain ⟨hsmem, hscollection⟩ := List.mem_filter.mp hrow
    have hkey : s.key = r.key := by
      rw [Row.key, Row.key, hid, of_decide_eq_true hscollection, hcollection]
    have hsame : s = r := by
      have hr := (h.keyed.find?_eq_some (k := r.key)).mpr ⟨hmem, rfl⟩
      have hs := (h.keyed.find?_eq_some (k := r.key)).mpr ⟨hsmem, hkey⟩
      exact Option.some.inj (hs.symm.trans hr)
    rwa [← hsame]
  · intro hp
    exact ⟨r, List.mem_filter.mpr ⟨List.mem_filter.mpr ⟨hmem, decide_eq_true hcollection⟩, hp⟩, rfl⟩

instance : LawfulIndex TableIndex where
  Kept := Row
  keep := rowOf
  payload := Row.payload
  kept? x collection id := x.rows.find? (Row.key · = (collection, id))
  Valid := OneRowAnId
  file_keep {collection p file} h := by
    unfold Row.payload
    cases hsymbol : (rowOf collection p).symbol with
    | none => simp [Dict.lookup_put, rowOf, h, Json.str?]
    | some s => simp [Dict.lookup_put, rowOf, h, Json.str?]
  upsert_append x collection ps qs := by
    simp only [upsert_eq, guarded]
    split
    · rfl
    · split
      · next hopen hmem =>
        simp only [bind, Except.bind, hopen, hmem, if_true, Bool.false_eq_true, if_false]
        rw [putRows, putRows, putRows, List.map_append, List.foldl_append]
      · rfl
  kept?_upsert h id := by
    obtain ⟨_, rfl⟩ := eq_of_upsert h
    exact find?_putRows _ _ _ id
  valid_upsert {x y collection ps} hx h := by
    obtain ⟨hmem, rfl⟩ := eq_of_upsert h
    refine ⟨keyed_putRows hx.keyed ps, fun r hr => ?_⟩
    rcases mem_putRows hr with hold | hnew
    · exact hx.exists_collection r hold
    · rw [hnew]
      exact hmem
  kept?_ensure {x y collection size} h id := by
    simp only [Index.ensure] at h
    split at h
    · cases h
    · cases eq_of_guarded h
      split <;> rfl
  valid_ensure {x y collection size} hx h := by
    simp only [Index.ensure] at h
    split at h
    · cases h
    · cases eq_of_guarded h
      split
      · exact hx
      · exact ⟨hx.keyed, fun r hr => List.mem_append_left _ (hx.exists_collection r hr)⟩
  kept?_of_absent {x collection} hx h id := by
    have habsent : collection ∉ x.collections := by simpa using Except.ok.inj (eq_of_guarded h)
    rw [List.find?_eq_none]
    intro r hr hkey
    have hcollection : r.collection = collection := congrArg Prod.fst (of_decide_eq_true hkey)
    exact habsent (hcollection ▸ hx.exists_collection r hr)
  kept?_drop {x y collection} h id := by
    cases eq_of_guarded h
    exact (find?_filter_key Row.key x.rows (fun k => k.1 != collection) (collection, id)).trans (by simp)
  valid_drop {x y collection} hx h := by
    cases eq_of_guarded h
    refine ⟨hx.keyed.filter _, fun r hr => ?_⟩
    obtain ⟨hmem, hother⟩ := List.mem_filter.mp hr
    exact List.mem_filter.mpr ⟨hx.exists_collection r hmem, hother⟩
  kept?_deleteWhere {x y collection f n} hx h id := by
    cases eq_of_guarded h
    refine (hx.keyed.find?_filter _ (collection, id)).trans ?_
    cases hrow : x.rows.find? (Row.key · = (collection, id)) with
    | none => rfl
    | some r =>
      obtain ⟨hmem, hkey⟩ := hx.keyed.find?_eq_some.mp hrow
      have hcollection : r.collection = collection := congrArg Prod.fst hkey
      simp only [Option.filter_some, hcollection, hx.contains_doomed hmem hcollection, decide_true, Bool.true_and]
  valid_deleteWhere {x y collection f n} hx h := by
    cases eq_of_guarded h
    exact ⟨hx.keyed.filter _, fun r hr => hx.exists_collection r (List.mem_of_mem_filter hr)⟩

end TableIndex

end Vectors

end CodeIndex
