import CodeIndex.Proofs.Candidate
import CodeIndex.SymbolTable.Pass

/-!
# What a pass does to one file

The rows of one path form a `PathRows`, and without their numbers a `FileEntry`. Each write of a pass changes
the rows of its own path only, so a pass acts on each path by itself: `exists_updated_of_only` for a file that is
there, `entry_index_of_notMem` for a path that is not.
-/

namespace CodeIndex

/-! ## Rows of a file name it -/

theorem mem_of_mem_firstsFrom [BEq κ] {key : α → κ} {a : α} {seen : List κ} {xs : List α}
    (h : a ∈ firstsFrom key seen xs) : a ∈ xs := by
  induction xs generalizing seen with
  | nil => cases h
  | cons x rest ih =>
    rw [firstsFrom] at h
    split at h
    · exact List.mem_cons_of_mem x (ih h)
    · rcases List.mem_cons.mp h with rfl | h
      · exact List.mem_cons_self
      · exact List.mem_cons_of_mem x (ih h)

theorem Parsed.file_of_mem_symbols {p : Parsed} {s : Symbol} (h : s ∈ p.symbols) : s.file = p.file := by
  have hs := mem_of_mem_firstsFrom (List.mem_mergeSort.mp h)
  obtain ⟨rule, -, hs⟩ := List.mem_flatMap.mp hs
  obtain ⟨m, -, hs⟩ := List.mem_filterMap.mp hs
  unfold symbolOf at hs
  obtain ⟨named, -, hs⟩ := Option.bind_eq_some_iff.mp hs
  dsimp only at hs
  split at hs
  · cases hs
  · cases hs; rfl

theorem file_of_mem_extract {r : Registry} {g : Grammars} {path language text : String} {s : Symbol}
    (h : s ∈ (extract r g path language text).symbols) : s.file = path := by
  unfold extract at h
  split at h
  · cases h
  · split at h
    · cases h
    · split at h
      · cases h
      · exact Parsed.file_of_mem_symbols h

theorem LineReading.file_of_mem_symbolsFrom {declares : List Char → Option Declaration} {file : String}
    {n : Nat} {openClass : Option OpenClass} {lines : List (List Char)} {s : Symbol}
    (h : s ∈ symbolsFrom declares file n openClass lines) : s.file = file := by
  induction lines generalizing n openClass with
  | nil => cases h
  | cons line rest ih =>
    rw [symbolsFrom] at h
    split at h
    · exact ih h
    · rcases List.mem_cons.mp h with rfl | h
      · rfl
      · exact ih h

namespace FileContents

theorem mem_of_mem_addedFrom {taken : List (String × Nat)} {declared : List Symbol} {s : Symbol}
    (h : s ∈ addedFrom taken declared) : s ∈ declared := by
  induction declared generalizing taken with
  | nil => cases h
  | cons d rest ih =>
    rw [addedFrom] at h
    split at h
    · exact List.mem_cons_of_mem d (ih h)
    · rcases List.mem_cons.mp h with rfl | h
      · exact List.mem_cons_self
      · exact List.mem_cons_of_mem d (ih h)

theorem mem_of_mem_merged {structural declared : List Symbol} {syntaxError : Option Nat}
    {sh : Symbol × Recognition} (h : sh ∈ merged structural syntaxError declared) :
    sh.1 ∈ structural ∨ sh.1 ∈ declared := by
  rcases List.mem_append.mp (List.mem_mergeSort.mp h) with h | h
  · obtain ⟨s, hs, rfl⟩ := List.mem_map.mp h
    exact .inl hs
  · obtain ⟨s, hs, rfl⟩ := List.mem_map.mp h
    split at hs
    · exact .inr (mem_of_mem_addedFrom hs)
    · cases hs

theorem file_of_mem_read {r : Registry} {g : Grammars} {path language text : String} {row : SymbolRow}
    (h : row ∈ (read r g path language text).symbols) : row.file = path := by
  obtain ⟨sh, hsh, rfl⟩ := List.mem_map.mp h
  have hfile : sh.1.file = path := by
    rcases mem_of_mem_merged hsh with hs | hs
    · split at hs
      · exact file_of_mem_extract hs
      · cases hs
    · exact LineReading.file_of_mem_symbolsFrom hs
  exact hfile

end FileContents

/-! ## Entries -/

/-- The rows of one path, without their numbers. -/
@[ext]
structure FileEntry where
  files : List FileRow := []
  symbols : List SymbolRow := []
  imports : List ImportRow := []
  deriving DecidableEq, Repr

/-- The rows of one path with their numbers. -/
@[ext]
structure PathRows where
  files : List FileRow := []
  symbols : List (Nat × SymbolRow) := []
  imports : List (Nat × ImportRow) := []
  deriving DecidableEq, Repr

/-- The same rows without their numbers. -/
def PathRows.plain (r : PathRows) : FileEntry where
  files := r.files
  symbols := r.symbols.map (·.2)
  imports := r.imports.map (·.2)

namespace FileEntry

/-- The rows that the contents of a file call for. -/
def ofText (rd : Reader) (c : Candidate) (text : String) : FileEntry :=
  let contents := FileContents.read rd.registry rd.grammars c.path c.language text
  { files := [{
      path := c.path, language := c.language, size := c.file.octets.length
      lines := SymbolTable.lineCount text, mtime := c.mtime, contentHash := Blake3.shortHash c.file.octets
      symbolCount := contents.symbols.length, importCount := contents.imports.length, type := .ofPath c.path }]
    symbols := contents.symbols
    imports := contents.imports.map (⟨c.path, ·⟩) }

/-- The same rows with another time. -/
def dated (e : FileEntry) (mtime : Double) : FileEntry :=
  { e with files := e.files.map ({ · with mtime }) }

/-- The rows of two states of a file differ in the time at most. -/
theorem ofText_dated {rd : Reader} {c c' : Candidate} (hpath : c'.path = c.path)
    (hoctets : c'.file.octets = c.file.octets) (hlanguage : c'.language = c.language) (text : String) :
    (ofText rd c' text).dated c.mtime = .ofText rd c text := by
  simp only [ofText, dated, hpath, hoctets, hlanguage, List.map_cons, List.map_nil]

end FileEntry

namespace SymbolTable

variable {rd : Reader} {force : Bool} {t : SymbolTable} {c : Candidate} {files : List Candidate}
  {path : String}

def entry (t : SymbolTable) (path : String) : FileEntry where
  files := t.files.filter (·.path = path)
  symbols := (t.symbols.map (·.2)).filter (·.file = path)
  imports := (t.imports.map (·.2)).filter (·.file = path)

@[simp]
theorem entry_empty (path : String) : empty.entry path = {} := rfl

theorem file?_eq_head? (t : SymbolTable) (path : String) : t.file? path = (t.entry path).files.head? := by
  rw [entry, List.head?_filter]
  rfl

theorem map_numbered (start : Nat) (rows : List α) : (numbered start rows).map (·.2) = rows := by
  rw [numbered, List.map_map]
  exact List.zipIdx_map_fst 0 rows

/-- Rows that are added get numbers from the next one on. -/
theorem bounds_of_mem_numbered {α : Type} {start : Nat} {rows : List α} {row : Nat × α}
    (h : row ∈ numbered start rows) : start ≤ row.1 ∧ row.1 < start + rows.length ∧ row.2 ∈ rows := by
  have hmem : row.2 ∈ rows := by
    rw [← map_numbered start rows]
    exact List.mem_map_of_mem h
  obtain ⟨⟨x, i⟩, hx, rfl⟩ := List.mem_map.mp h
  obtain ⟨-, hi, -⟩ := List.mem_zipIdx hx
  exact ⟨Nat.le_add_right start i, by dsimp only; omega, hmem⟩

/-! ## Rows with their numbers -/

def rowsAt (t : SymbolTable) (path : String) : PathRows where
  files := t.files.filter (·.path = path)
  symbols := t.symbols.filter (·.2.file = path)
  imports := t.imports.filter (·.2.file = path)

theorem plain_rowsAt (t : SymbolTable) (path : String) : (t.rowsAt path).plain = t.entry path := by
  simp [PathRows.plain, rowsAt, entry, List.filter_map, Function.comp_def]

theorem filter_filter_key (key : α → String) (rows : List α) (p : String) :
    (rows.filter (key · != p)).filter (key · = path) = if path = p then [] else rows.filter (key · = path) := by
  rw [List.filter_filter]
  split
  · next h => simp [h]
  · next h =>
    refine List.filter_congr fun row _ => ?_
    by_cases hrow : key row = path <;> simp [hrow, h]

theorem rowsAt_drop (t : SymbolTable) (path p : String) :
    (t.drop p).rowsAt path = if path = p then {} else t.rowsAt path := by
  simp only [rowsAt, drop, filter_filter_key FileRow.path, filter_filter_key fun s : Nat × SymbolRow => s.2.file,
    filter_filter_key fun i : Nat × ImportRow => i.2.file]
  split <;> rfl

theorem filter_eq_ite {key : α → String} {rows : List α} {q : String} (h : ∀ row ∈ rows, key row = q) :
    rows.filter (key · = path) = if path = q then rows else [] := by
  split
  · next hq => exact List.filter_eq_self.mpr fun row hrow => by simp [h row hrow, hq]
  · next hq => exact List.filter_eq_nil_iff.mpr fun row hrow => by simp [h row hrow, Ne.symm hq]

theorem rowsAt_insert {f : FileRow} {symbols : List SymbolRow} (hsyms : ∀ s ∈ symbols, s.file = f.path)
    (imports : List String) (t : SymbolTable) :
    (t.insert f symbols imports).rowsAt path =
      if path = f.path then
        { files := (t.rowsAt path).files ++ [f]
          symbols := (t.rowsAt path).symbols ++ numbered t.nextSymbol symbols
          imports := (t.rowsAt path).imports ++ numbered t.nextImport (imports.map (⟨f.path, ·⟩)) }
      else t.rowsAt path := by
  have hfile : ∀ row ∈ [f], row.path = f.path := by simp
  have hsymbols : ∀ row ∈ numbered t.nextSymbol symbols, row.2.file = f.path := fun row hrow =>
    hsyms row.2 (bounds_of_mem_numbered hrow).2.2
  have himports : ∀ row ∈ numbered t.nextImport (imports.map (ImportRow.mk f.path)), row.2.file = f.path := by
    intro row hrow
    obtain ⟨name, -, hname⟩ := List.mem_map.mp (bounds_of_mem_numbered hrow).2.2
    rw [← hname]
  simp only [rowsAt, insert, List.filter_append, filter_eq_ite hfile, filter_eq_ite hsymbols,
    filter_eq_ite himports]
  split <;> simp

theorem rowsAt_touch (t : SymbolTable) (path p : String) (mtime : Double) :
    (t.touch p mtime).rowsAt path = if path = p then
      { t.rowsAt path with files := (t.rowsAt path).files.map ({ · with mtime }) } else t.rowsAt path := by
  have hpath : ∀ f : FileRow, (if f.path = p then { f with mtime } else f).path = f.path := by
    intro f
    split <;> rfl
  simp only [rowsAt, touch, List.filter_map, Function.comp_def, hpath]
  split
  · next h =>
    subst h
    refine congrArg (PathRows.mk · _ _) (List.map_congr_left fun f hf => ?_)
    rw [if_pos (by simpa using (List.mem_filter.mp hf).2)]
  · next h =>
    refine congrArg (PathRows.mk · _ _) ((List.map_congr_left fun f hf => ?_).trans (List.map_id _))
    have hf : f.path = path := by simpa using (List.mem_filter.mp hf).2
    rw [if_neg (by rw [hf]; exact h)]
    rfl

theorem entry_drop (t : SymbolTable) (path p : String) :
    (t.drop p).entry path = if path = p then {} else t.entry path := by
  rw [← plain_rowsAt, rowsAt_drop]
  split
  · rfl
  · exact plain_rowsAt t path

theorem entry_insert {f : FileRow} {symbols : List SymbolRow} (hsyms : ∀ s ∈ symbols, s.file = f.path)
    (imports : List String) (t : SymbolTable) :
    (t.insert f symbols imports).entry path =
      if path = f.path then
        { files := (t.entry path).files ++ [f], symbols := (t.entry path).symbols ++ symbols
          imports := (t.entry path).imports ++ imports.map (⟨f.path, ·⟩) }
      else t.entry path := by
  rw [← plain_rowsAt, rowsAt_insert hsyms, ← plain_rowsAt]
  split
  · simp only [PathRows.plain, List.map_append, map_numbered]
  · rfl

theorem entry_touch (t : SymbolTable) (path p : String) (mtime : Double) :
    (t.touch p mtime).entry path = if path = p then (t.entry path).dated mtime else t.entry path := by
  rw [← plain_rowsAt, rowsAt_touch, ← plain_rowsAt]
  split <;> rfl

/-- Storing a file replaces its entry by that of its contents. -/
theorem entry_store {text : String} (t : SymbolTable) :
    (t.store c text (FileContents.read rd.registry rd.grammars c.path c.language text)).entry path =
      if path = c.path then .ofText rd c text else t.entry path := by
  rw [store, entry_insert fun s hs => FileContents.file_of_mem_read hs, entry_drop]
  split
  · next h => simp [FileEntry.ofText]
  · next h => rfl

/-! ## One file -/

theorem isUnchanged_iff {f : FileRow} :
    isUnchanged c f = true ↔ ∃ octets, c.file.read = .ok octets ∧ f.contentHash = Blake3.shortHash octets := by
  unfold isUnchanged
  cases c.file.read <;> simp [Except.toOption]

/-- A file has to be read: a pass is forced, or its row has neither its time nor its contents. -/
def Stale (force : Bool) (known : Option FileRow) (c : Candidate) : Prop :=
  force = true ∨ ∀ f ∈ known, c.mtime.le f.mtime = false ∧ isUnchanged c f = false

theorem stale_none (force : Bool) (c : Candidate) : Stale force none c := by
  simp [Stale]

/-- What bringing a file up to date can do. -/
inductive Updated (rd : Reader) (force : Bool) (known : Option FileRow) (c : Candidate) (t : SymbolTable) :
    SymbolTable × Outcome → Prop
  | unmoved {f : FileRow} (unforced : force = false) (row : known = some f) (time : c.mtime.le f.mtime = true) :
    Updated rd force known c t (t, .skipped)
  | dated {f : FileRow} (unforced : force = false) (row : known = some f) (time : c.mtime.le f.mtime = false)
      (same : isUnchanged c f = true) :
    Updated rd force known c t (t.touch c.path c.mtime, .skipped)
  | failed {e : FileError} (stale : Stale force known c) (unreadable : c.text = .error e) :
    Updated rd force known c t (t, .failed e)
  | stored {text : String} (stale : Stale force known c) (readable : c.text = .ok text) :
    Updated rd force known c t (t.store c text
      (FileContents.read rd.registry rd.grammars c.path c.language text), .indexed
        (FileContents.read rd.registry rd.grammars c.path c.language text).symbols.length
        (FileContents.read rd.registry rd.grammars c.path c.language text).parseError)

theorem indexFile_updated (rd : Reader) (force : Bool) (known : Option FileRow) (c : Candidate)
    (t : SymbolTable) : Updated rd force known c t (indexFile rd force known c t) := by
  have hread (hskip : (!force && known.any (c.mtime.le ·.mtime)) = false)
      (hsame : (!force && known.any (isUnchanged c)) = false)
      (hstale : Stale force known c) : Updated rd force known c t (indexFile rd force known c t) := by
    unfold indexFile
    simp only [hskip, hsame, Bool.false_eq_true, if_false]
    cases htext : c.text with
    | error e => exact .failed hstale htext
    | ok text => exact .stored hstale htext
  cases force with
  | true => exact hread rfl rfl (.inl rfl)
  | false =>
    cases known with
    | none => exact hread rfl rfl (stale_none false c)
    | some f =>
      cases hmtime : c.mtime.le f.mtime with
      | true =>
        rw [show indexFile rd false (some f) c t = (t, .skipped) by simp [indexFile, hmtime]]
        exact .unmoved rfl rfl hmtime
      | false =>
        cases hsame : isUnchanged c f with
        | true =>
          rw [show indexFile rd false (some f) c t = (t.touch c.path c.mtime, .skipped) by
            simp [indexFile, hmtime, hsame]]
          exact .dated rfl rfl hmtime hsame
        | false =>
          refine hread (by simp [hmtime]) (by simp [hsame]) (.inr fun g hg => ?_)
          obtain rfl := Option.some.inj hg
          exact ⟨hmtime, hsame⟩

theorem Updated.rowsAt_of_ne {known : Option FileRow} {result : SymbolTable × Outcome}
    (h : Updated rd force known c t result) (hne : path ≠ c.path) : result.1.rowsAt path = t.rowsAt path := by
  cases h with
  | unmoved => rfl
  | dated => exact (rowsAt_touch _ _ _ _).trans (if_neg hne)
  | failed => rfl
  | stored =>
    rw [store, rowsAt_insert fun s hs => FileContents.file_of_mem_read hs]
    exact (if_neg hne).trans ((rowsAt_drop _ _ _).trans (if_neg hne))

/-- What a table comes to goes on with its numbers. -/
structure Continues (t t' : SymbolTable) : Prop where
  symbols : t.nextSymbol ≤ t'.nextSymbol
  imports : t.nextImport ≤ t'.nextImport

theorem Continues.refl (t : SymbolTable) : t.Continues t := ⟨Nat.le_refl _, Nat.le_refl _⟩

theorem Continues.trans {t' t'' : SymbolTable} (h : t.Continues t') (h' : t'.Continues t'') : t.Continues t'' :=
  ⟨Nat.le_trans h.symbols h'.symbols, Nat.le_trans h.imports h'.imports⟩

theorem Updated.continues {known : Option FileRow} {result : SymbolTable × Outcome}
    (h : Updated rd force known c t result) : t.Continues result.1 := by
  cases h with
  | unmoved => exact .refl t
  | dated => exact ⟨Nat.le_refl _, Nat.le_refl _⟩
  | failed => exact .refl t
  | stored => exact ⟨Nat.le_add_right _ _, Nat.le_add_right _ _⟩

/-! ## A whole pass -/

/-- The path whose rows a write changes. -/
def Write.target : Write → String
  | .drop path => path
  | .file c => c.path

/-- A write leaves the rows of other paths alone. -/
theorem rowsAt_write_of_ne {before : SymbolTable} {w : Write} (h : w.target ≠ path) (s : SymbolTable × PassReport) :
    (write rd force before s w).1.rowsAt path = s.1.rowsAt path := by
  cases w with
  | drop p => exact (rowsAt_drop _ _ _).trans (if_neg (Ne.symm h))
  | file c => exact (indexFile_updated rd force (before.file? c.path) c s.1).rowsAt_of_ne (Ne.symm h)

theorem rowsAt_foldl_of_ne {before : SymbolTable} {ws : List Write} (h : ∀ w ∈ ws, w.target ≠ path)
    (s : SymbolTable × PassReport) :
    (ws.foldl (write rd force before) s).1.rowsAt path = s.1.rowsAt path := by
  induction ws generalizing s with
  | nil => rfl
  | cons w rest ih =>
    rw [List.foldl_cons, ih fun w' hw => h w' (List.mem_cons_of_mem w hw),
      rowsAt_write_of_ne (h w List.mem_cons_self)]

theorem entry_foldl_of_ne {before : SymbolTable} {ws : List Write} (h : ∀ w ∈ ws, w.target ≠ path)
    (s : SymbolTable × PassReport) :
    (ws.foldl (write rd force before) s).1.entry path = s.1.entry path := by
  rw [← plain_rowsAt, rowsAt_foldl_of_ne h, plain_rowsAt]

theorem continues_write {before : SymbolTable} (s : SymbolTable × PassReport) (w : Write) :
    s.1.Continues (write rd force before s w).1 := by
  cases w with
  | drop p => exact ⟨Nat.le_refl _, Nat.le_refl _⟩
  | file c => exact (indexFile_updated rd force (before.file? c.path) c s.1).continues

theorem continues_foldl {before : SymbolTable} (ws : List Write) (s : SymbolTable × PassReport) :
    s.1.Continues (ws.foldl (write rd force before) s).1 := by
  induction ws generalizing s with
  | nil => exact .refl s.1
  | cons w rest ih => exact (continues_write s w).trans (ih _)

/-- Once a path has no entry, dropping it changes nothing. -/
theorem entry_foldl_drop {before : SymbolTable} {paths : List String} (hmem : path ∈ paths)
    (s : SymbolTable × PassReport) :
    ((paths.map .drop).foldl (write rd force before) s).1.entry path = {} := by
  induction paths generalizing s with
  | nil => cases hmem
  | cons p rest ih =>
    rw [List.map_cons, List.foldl_cons]
    by_cases hrest : path ∈ rest
    · exact ih hrest _
    · obtain rfl : path = p := by simpa [hrest] using hmem
      rw [entry_foldl_of_ne]
      · exact (entry_drop _ _ _).trans (if_pos rfl)
      · intro w hw hpath
        obtain ⟨q, hq, rfl⟩ := List.mem_map.mp hw
        exact hrest (hpath ▸ hq)

theorem rowsAt_finish (s : SymbolTable × PassReport) : (finish force s).1.rowsAt path = s.1.rowsAt path := by
  unfold finish
  dsimp only
  split <;> rfl

theorem entry_finish (s : SymbolTable × PassReport) : (finish force s).1.entry path = s.1.entry path := by
  rw [← plain_rowsAt, rowsAt_finish, plain_rowsAt]

theorem mem_vanished :
    path ∈ t.vanished files ↔ (t.entry path).files ≠ [] ∧ ∀ c ∈ files, c.path ≠ path := by
  simp [vanished, entry]

/-- A path without a file loses its rows. -/
theorem entry_index_of_notMem (rd : Reader) (force : Bool) (h : ∀ c ∈ files, c.path ≠ path) :
    (index rd force files t).1.entry path = if (t.entry path).files = [] then t.entry path else {} := by
  have hfiles : ∀ w ∈ files.map Write.file, w.target ≠ path := by
    intro w hw
    obtain ⟨c, hc, rfl⟩ := List.mem_map.mp hw
    exact h c hc
  rw [index, entry_finish, writes, List.foldl_append, entry_foldl_of_ne hfiles]
  split
  · next hnone =>
    refine entry_foldl_of_ne (fun w hw hpath => ?_) _
    obtain ⟨p, hp, rfl⟩ := List.mem_map.mp hw
    obtain rfl : p = path := hpath
    exact (mem_vanished.mp hp).1 hnone
  · next hsome => exact entry_foldl_drop (mem_vanished.mpr ⟨hsome, h⟩) _

theorem PassReport.errors_add (p : PassReport) (c : Candidate) (o : Outcome) : p.errors ⊆ (p.add c o).errors := by
  cases o with
  | skipped => exact List.Subset.refl _
  | indexed => exact List.subset_append_left _ _
  | failed => exact List.subset_append_left _ _

theorem errors_foldl {before : SymbolTable} (ws : List Write) (s : SymbolTable × PassReport) :
    s.2.errors ⊆ (ws.foldl (write rd force before) s).2.errors := by
  induction ws generalizing s with
  | nil => exact List.Subset.refl _
  | cons w rest ih =>
    refine List.Subset.trans ?_ (ih _)
    cases w with
    | drop p => exact List.Subset.refl _
    | file c => exact PassReport.errors_add _ _ _

theorem errors_finish (s : SymbolTable × PassReport) : (finish force s).2.errors = s.2.errors := by
  unfold finish
  dsimp only
  split <;> rfl

/-- The only file that is found under its path is brought up to date once, from the rows that the pass found, and
a failure is reported. -/
theorem exists_updated_of_only (rd : Reader) (force : Bool) (t : SymbolTable)
    (honly : files.filter (·.path = c.path) = [c]) :
    ∃ s result, (s.rowsAt c.path = t.rowsAt c.path ∧ t.Continues s) ∧
      Updated rd force (t.file? c.path) c s result ∧
      (index rd force files t).1.rowsAt c.path = result.1.rowsAt c.path ∧
      ∀ e, result.2 = .failed e → e ∈ (index rd force files t).2.errors := by
  obtain ⟨front, back, rfl, hfront, -, hback⟩ := List.filter_eq_cons_iff.mp honly
  have hafter : ∀ w ∈ back.map Write.file, w.target ≠ c.path := by
    intro w hw hpath
    obtain ⟨d, hd, rfl⟩ := List.mem_map.mp hw
    exact List.filter_eq_nil_iff.mp hback d hd (decide_eq_true hpath)
  -- the writes before the one of the file, none of which is about its path
  generalize hearlier : (t.vanished (front ++ c :: back)).map Write.drop ++ front.map .file = earlier
  have hwrites : t.writes (front ++ c :: back) = earlier ++ .file c :: back.map .file := by
    rw [← hearlier, writes, List.map_append, List.map_cons, List.append_assoc]
  have hothers : ∀ w ∈ earlier, w.target ≠ c.path := by
    intro w hw hpath
    rw [← hearlier] at hw
    rcases List.mem_append.mp hw with hw | hw
    · obtain ⟨p, hp, rfl⟩ := List.mem_map.mp hw
      obtain rfl : p = c.path := hpath
      exact (mem_vanished.mp hp).2 c (List.mem_append_right front List.mem_cons_self) rfl
    · obtain ⟨d, hd, rfl⟩ := List.mem_map.mp hw
      exact hfront d hd (decide_eq_true hpath)
  generalize hs : earlier.foldl (write rd force t) (t, { total := (front ++ c :: back).length }) = s
  refine ⟨s.1, indexFile rd force (t.file? c.path) c s.1, ⟨?_, ?_⟩, indexFile_updated .., ?_, fun e he => ?_⟩
  · rw [← hs, rowsAt_foldl_of_ne hothers]
  · rw [← hs]
    exact continues_foldl earlier (t, { total := (front ++ c :: back).length })
  · rw [index, hwrites, List.foldl_append, hs, List.foldl_cons, rowsAt_finish, rowsAt_foldl_of_ne hafter]
    rfl
  · rw [index, hwrites, List.foldl_append, hs, List.foldl_cons, errors_finish]
    refine errors_foldl _ _ ?_
    change e ∈ (s.2.add c (indexFile rd force (t.file? c.path) c s.1).2).errors
    rw [he]
    exact List.mem_append_right _ (List.mem_singleton_self e)

theorem filter_path_eq_singleton (hfiles : (files.map (·.path)).Nodup) (hc : c ∈ files) :
    files.filter (·.path = c.path) = [c] := by
  obtain ⟨front, back, rfl⟩ := List.append_of_mem hc
  have hpaths := List.nodup_append.mp (by simpa using hfiles)
  refine List.filter_eq_cons_iff.mpr ⟨front, back, rfl, fun d hd => ?_, by simp, ?_⟩
  · simpa using hpaths.2.2 _ (List.mem_map_of_mem hd) _ List.mem_cons_self
  · refine List.filter_eq_nil_iff.mpr fun d hd hpath => ?_
    have hpath : d.path = c.path := by simpa using hpath
    exact (List.nodup_cons.mp hpaths.2.1).1 (hpath ▸ List.mem_map_of_mem hd)

theorem exists_updated_of_mem (rd : Reader) (force : Bool) (t : SymbolTable)
    (hfiles : (files.map (·.path)).Nodup) (hc : c ∈ files) :
    ∃ s result, s.entry c.path = t.entry c.path ∧ Updated rd force (t.file? c.path) c s result ∧
      (index rd force files t).1.entry c.path = result.1.entry c.path ∧
      ∀ e, result.2 = .failed e → e ∈ (index rd force files t).2.errors := by
  obtain ⟨s, result, ⟨hrows, -⟩, hupdated, hresult, herrors⟩ :=
    exists_updated_of_only rd force t (filter_path_eq_singleton hfiles hc)
  exact ⟨s, result, by rw [← plain_rowsAt, hrows, plain_rowsAt], hupdated,
    by rw [← plain_rowsAt, hresult, plain_rowsAt], herrors⟩

end SymbolTable

end CodeIndex
