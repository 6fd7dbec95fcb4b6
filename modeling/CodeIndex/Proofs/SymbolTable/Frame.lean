import CodeIndex.Proofs.SymbolTable.Integrity

/-!
# What a pass does to a file by itself

A pass that is not forced leaves the rows of a file alone, numbers included, as long as its time has not moved
or its contents are the same, and gives one that it reads again nothing but new rows
(`unforced_pass_on_file`). A file that cannot be read or is no text any more is reported and keeps the rows of its old
contents: `failed_file_leaves_nothing_iff` says when none are left.
-/

namespace CodeIndex

namespace FileEntry

theorem ofText_ne_empty (rd : Reader) (c : Candidate) (text : String) : ofText rd c text ≠ {} := fun h =>
  List.cons_ne_nil _ _ (congrArg FileEntry.files h)

theorem dated_eq_empty_iff {e : FileEntry} {mtime : Double} : e.dated mtime = {} ↔ e = {} := by
  simp [dated, FileEntry.ext_iff]

end FileEntry

namespace SymbolTable

variable {rd : Reader} {policy : IgnorePolicy} {root : String} {force : Bool} {t before : SymbolTable}
  {c : Candidate} {path : String}

theorem not_stale_of_le {known : Option FileRow} {f : FileRow} (hunforced : force = false)
    (hrow : known = some f) (htime : c.mtime.le f.mtime = true) : ¬Stale force known c := by
  rintro (hforced | hmoved)
  · rw [hunforced] at hforced
    cases hforced
  · rw [(hmoved f hrow).1] at htime
    cases htime

theorem not_stale_of_same {known : Option FileRow} {f : FileRow} (hunforced : force = false)
    (hrow : known = some f) (hsame : isUnchanged c f = true) : ¬Stale force known c := by
  rintro (hforced | hmoved)
  · rw [hunforced] at hforced
    cases hforced
  · rw [(hmoved f hrow).2] at hsame
    cases hsame

/-! ## Files that fail -/

/-- Bringing a file up to date leaves no rows exactly if there were none and it did not have to be read, or could
not. -/
theorem Updated.entry_eq_empty_iff {known : Option FileRow} {result : SymbolTable × Outcome}
    (h : Updated rd force known c t result) :
    result.1.entry c.path = {} ↔
      t.entry c.path = {} ∧ ∀ text, c.text = .ok text → ¬Stale force known c := by
  cases h with
  | unmoved hunforced hrow htime => exact (and_iff_left fun _ _ => not_stale_of_le hunforced hrow htime).symm
  | dated hunforced hrow _ hsame =>
    rw [entry_touch, if_pos rfl, FileEntry.dated_eq_empty_iff]
    exact (and_iff_left fun _ _ => not_stale_of_same hunforced hrow hsame).symm
  | failed _ hfault =>
    refine (and_iff_left fun text htext => ?_).symm
    rw [hfault] at htext
    cases htext
  | @stored text hstale htext =>
    rw [entry_store, if_pos rfl]
    exact iff_of_false (FileEntry.ofText_ne_empty rd c text) fun hnone => hnone.2 text htext hstale

theorem Updated.rowsAt_of_fault {known : Option FileRow} {result : SymbolTable × Outcome}
    (h : Updated rd force known c t result) (hstale : Stale force known c) {e : FileError}
    (hfault : c.text = .error e) : result.1.rowsAt c.path = t.rowsAt c.path := by
  cases h with
  | unmoved => rfl
  | dated hunforced hrow _ hsame => exact absurd hstale (not_stale_of_same hunforced hrow hsame)
  | failed => rfl
  | stored _ htext =>
    rw [hfault] at htext
    cases htext

theorem entry_foldl_files_eq_empty_iff (files : List Candidate) (s : SymbolTable × PassReport) :
    ((files.map .file).foldl (write rd force before) s).1.entry path = {} ↔
      s.1.entry path = {} ∧ ∀ c ∈ files, c.path = path → ∀ text, c.text = .ok text → ¬Stale force (before.file? path) c := by
  induction files generalizing s with
  | nil => simp
  | cons c rest ih =>
    rw [List.map_cons, List.foldl_cons, ih, List.forall_mem_cons, ← and_assoc]
    refine and_congr_left fun _ => ?_
    by_cases hpath : c.path = path
    · subst hpath
      rw [forall_prop_of_true rfl]
      exact (indexFile_updated rd force (before.file? c.path) c s.1).entry_eq_empty_iff
    · have hother : (Write.file c).target ≠ path := hpath
      rw [← plain_rowsAt, rowsAt_write_of_ne hother, plain_rowsAt]
      exact (and_iff_left fun heq => absurd heq hpath).symm

/-- A path under which a file is found has no rows after a pass exactly if it had none and nothing was read. -/
theorem entry_index_eq_empty_iff {files : List Candidate} (hc : c ∈ files) (hpath : c.path = path) :
    (index rd force files t).1.entry path = {} ↔ t.entry path = {} ∧ ∀ c ∈ files, c.path = path → ∀ text,
      c.text = .ok text → ¬Stale force (t.file? path) c := by
  have hdrops : ∀ w ∈ (t.vanished files).map Write.drop, w.target ≠ path := by
    intro w hw htarget
    obtain ⟨p, hp, rfl⟩ := List.mem_map.mp hw
    exact (mem_vanished.mp hp).2 c hc (hpath.trans htarget.symm)
  rw [index, entry_finish, writes, List.foldl_append, entry_foldl_files_eq_empty_iff, entry_foldl_of_ne hdrops]

/-- What is reported is reported of a file that was found, which had to be read and could not unless its tree is said
to be faulty. -/
theorem exists_file_of_mem_errors {ws : List Write} {s : SymbolTable × PassReport} {e : FileError}
    (h : e ∈ (ws.foldl (write rd force before) s).2.errors) :
    e ∈ s.2.errors ∨ ∃ c, .file c ∈ ws ∧ c.path = e.path ∧ (e.kind ≠ .parseError →
      Stale force (before.file? c.path) c ∧ c.text = .error e) := by
  induction ws generalizing s with
  | nil => exact .inl h
  | cons w rest ih =>
    rcases ih h with hold | ⟨c, hc, hrest⟩
    · cases w with
      | drop p => exact .inl hold
      | file c =>
        change e ∈ (s.2.add c (indexFile rd force (before.file? c.path) c s.1).2).errors at hold
        have hupdated := indexFile_updated rd force (before.file? c.path) c s.1
        generalize indexFile rd force (before.file? c.path) c s.1 = result at hold hupdated
        cases hupdated with
        | unmoved => exact .inl hold
        | dated => exact .inl hold
        | failed hstale hfault =>
          rcases List.mem_append.mp hold with hold | hnew
          · exact .inl hold
          · rw [List.mem_singleton.mp hnew]
            exact .inr ⟨c, List.mem_cons_self, (Candidate.error_of_text hfault).1.symm, fun _ => ⟨hstale, hfault⟩⟩
        | stored =>
          rcases List.mem_append.mp hold with hold | hnew
          · exact .inl hold
          · obtain ⟨message, -, rfl⟩ := List.mem_map.mp hnew
            exact .inr ⟨c, List.mem_cons_self, rfl, fun hkind => absurd rfl hkind⟩
    · exact .inr ⟨c, List.mem_cons_of_mem w hc, hrest⟩

theorem exists_file_of_mem_errors_index {files : List Candidate} {e : FileError}
    (h : e ∈ (index rd force files t).2.errors) : ∃ c ∈ files, c.path = e.path ∧ (e.kind ≠ .parseError →
      Stale force (t.file? c.path) c ∧ c.text = .error e) := by
  rw [index, errors_finish] at h
  rcases exists_file_of_mem_errors h with hnone | ⟨c, hc, hrest⟩
  · cases hnone
  · rcases List.mem_append.mp hc with hdrop | hfile
    · obtain ⟨p, -, hp⟩ := List.mem_map.mp hdrop
      cases hp
    · obtain ⟨c', hc', heq⟩ := List.mem_map.mp hfile
      cases heq
      exact ⟨c, hc', hrest⟩

theorem Coherent.file?_eq_none_iff (h : t.Coherent) : t.file? path = none ↔ t.entry path = {} := by
  rw [file?_eq_head?, List.head?_eq_none_iff]
  exact ⟨(h path).eq_empty, fun hnone => by rw [hnone]⟩

/-- After a pass that reports that a file is no text or cannot be read, there are no rows of its path exactly if there
were none before and no file that was found under the path is text that can be read. The only file of its path keeps
the rows of its old contents. -/
theorem failed_file_leaves_nothing_iff (ht : Reachable rd policy root t) (d : Disk) (force : Bool) {e : FileError}
    (he : e ∈ (index rd force (candidates rd.registry policy d root) t).2.errors) (hkind : e.kind ≠ .parseError) :
    let files := candidates rd.registry policy d root
    let t' := (index rd force files t).1
    (t'.entry e.path = {} ↔ t.entry e.path = {} ∧
      ∀ c ∈ files, c.path = e.path → ∃ fault, c.text = .error fault) ∧
    ((files.filter (·.path = e.path)).length = 1 → t'.rowsAt e.path = t.rowsAt e.path) := by
  intro files t'
  obtain ⟨c, hc, hpath, hfailed⟩ := exists_file_of_mem_errors_index he
  obtain ⟨hstale, hfault⟩ := hfailed hkind
  constructor
  · rw [entry_index_eq_empty_iff hc hpath]
    refine and_congr_right fun hnone => forall₃_congr fun c' _ _ => ?_
    -- without a row, every file has to be read
    rw [ht.coherent.file?_eq_none_iff.mpr hnone]
    cases c'.text with
    | error fault => simp
    | ok text => simp [stale_none]
  · intro hone
    obtain ⟨c', hc'⟩ := List.length_eq_one_iff.mp hone
    have hmem : c ∈ files.filter (·.path = e.path) := List.mem_filter.mpr ⟨hc, decide_eq_true hpath⟩
    rw [hc', List.mem_singleton] at hmem
    rw [← hmem, ← hpath] at hc'
    obtain ⟨s, result, ⟨hrows, -⟩, hupdated, hresult, -⟩ := exists_updated_of_only rd force t hc'
    rw [← hpath]
    exact hresult.trans ((hupdated.rowsAt_of_fault hstale hfault).trans hrows)

/-- Nothing is there of a new file that is no text, found in the place of another. -/
theorem failed_file_leaves_nothing_iff_new :
    let rd : Reader := ⟨.register .empty { name := "sql", displayName := "SQL", extensions := [".sql"] } [] [],
      { parse := fun _ _ => none }⟩
    let t := (index rd false (candidates rd.registry ⟨[]⟩ (({} : Disk).put "b.sql" ⟨[49], 10, none⟩) "") .empty).1
    let pass := index rd false (candidates rd.registry ⟨[]⟩ (({} : Disk).put "a.sql" ⟨[255], 10, none⟩) "") t
    Reachable rd ⟨[]⟩ "" t ∧
      pass.2.errors = [⟨"a.sql", .encoding, "invalid utf-8 sequence of 1 bytes from index 0"⟩] ∧
      pass.1.entry "a.sql" = {} := by
  intro rd t pass
  have ht : Reachable rd ⟨[]⟩ "" t := .pass .empty _ false
  have hearlier : candidates rd.registry ⟨[]⟩ (({} : Disk).put "b.sql" ⟨[49], 10, none⟩) "" =
      [⟨"b.sql", "sql", ⟨[49], 10, none⟩⟩] := by decide +kernel
  have hfound : candidates rd.registry ⟨[]⟩ (({} : Disk).put "a.sql" ⟨[255], 10, none⟩) "" =
      [⟨"a.sql", "sql", ⟨[255], 10, none⟩⟩] := by decide +kernel
  have hnone : t.entry "a.sql" = {} :=
    (entry_index_of_notMem rd false (by rw [hearlier]; decide)).trans (if_pos rfl)
  have herrors : pass.2.errors = [⟨"a.sql", .encoding, "invalid utf-8 sequence of 1 bytes from index 0"⟩] := by
    decide +kernel
  have hpass : pass = index rd false (candidates rd.registry ⟨[]⟩ (({} : Disk).put "a.sql" ⟨[255], 10, none⟩) "") t := rfl
  clear_value pass
  obtain ⟨hiff, -⟩ := @failed_file_leaves_nothing_iff rd ⟨[]⟩ "" t ht (({} : Disk).put "a.sql" ⟨[255], 10, none⟩) false
    ⟨"a.sql", .encoding, "invalid utf-8 sequence of 1 bytes from index 0"⟩
    (by rw [← hpass, herrors]; exact List.mem_singleton_self _) (by decide)
  rw [← hpass] at hiff
  have hfaults : ∀ c ∈ candidates rd.registry ⟨[]⟩ (({} : Disk).put "a.sql" ⟨[255], 10, none⟩) "", c.path = "a.sql" →
      ∃ fault, c.text = .error fault := by
    intro c hc _
    rw [hfound, List.mem_singleton] at hc
    exact ⟨⟨"a.sql", .encoding, "invalid utf-8 sequence of 1 bytes from index 0"⟩, by rw [hc]; decide +kernel⟩
  exact ⟨ht, herrors, hiff.mpr ⟨hnone, hfaults⟩⟩

/-- A file that was indexed and is no text any more keeps its old rows. -/
theorem failed_file_keeps_old_rows :
    let rd : Reader := ⟨.register .empty { name := "sql", displayName := "SQL", extensions := [".sql"] } [] [],
      { parse := fun _ _ => none }⟩
    let written := ({} : Disk).put "a.sql" ⟨"class A:".toUTF8.toList, 10, none⟩
    let t := (index rd false (candidates rd.registry ⟨[]⟩ written "") .empty).1
    let pass := index rd false (candidates rd.registry ⟨[]⟩ (written.put "a.sql" ⟨[255], 11, none⟩) "") t
    Reachable rd ⟨[]⟩ "" t ∧
      pass.2.errors = [⟨"a.sql", .encoding, "invalid utf-8 sequence of 1 bytes from index 0"⟩] ∧
      (pass.1.file? "a.sql").isSome ∧ (pass.1.entry "a.sql").symbols.map (·.name) = ["A"] := by
  intro rd written t pass
  exact ⟨.pass .empty written false, by decide +kernel⟩

/-! ## Numbers -/

/-- The numbers in use lie below the next ones. -/
structure Numbered (t : SymbolTable) : Prop where
  symbols : ∀ s ∈ t.symbols, s.1 < t.nextSymbol
  imports : ∀ i ∈ t.imports, i.1 < t.nextImport

theorem Numbered.drop (h : t.Numbered) (path : String) : (t.drop path).Numbered :=
  ⟨fun s hs => h.symbols s (List.mem_of_mem_filter hs), fun i hi => h.imports i (List.mem_of_mem_filter hi)⟩

theorem Numbered.insert (h : t.Numbered) (f : FileRow) (symbols : List SymbolRow) (imports : List String) :
    (t.insert f symbols imports).Numbered := by
  refine ⟨fun s hs => ?_, fun i hi => ?_⟩
  · rcases List.mem_append.mp hs with hold | hnew
    · exact Nat.lt_add_right _ (h.symbols s hold)
    · exact (bounds_of_mem_numbered hnew).2.1
  · rcases List.mem_append.mp hi with hold | hnew
    · exact Nat.lt_add_right _ (h.imports i hold)
    · simpa [SymbolTable.insert] using (bounds_of_mem_numbered hnew).2.1

theorem Numbered.updated {known : Option FileRow} {result : SymbolTable × Outcome} (h : t.Numbered)
    (hupdated : Updated rd force known c t result) : result.1.Numbered := by
  cases hupdated with
  | unmoved => exact h
  | dated => exact ⟨h.symbols, h.imports⟩
  | failed => exact h
  | stored => exact (h.drop c.path).insert _ _ _

theorem Numbered.write {s : SymbolTable × PassReport} (h : s.1.Numbered) (w : Write) :
    (write rd force before s w).1.Numbered := by
  cases w with
  | drop path => exact h.drop path
  | file c => exact h.updated (indexFile_updated rd force (before.file? c.path) c s.1)

theorem Numbered.finish {s : SymbolTable × PassReport} (h : s.1.Numbered) : (finish force s).1.Numbered := by
  unfold SymbolTable.finish
  dsimp only
  split <;> exact ⟨h.symbols, h.imports⟩

theorem Reachable.numbered (h : Reachable rd policy root t) : t.Numbered := by
  induction h with
  | empty => exact ⟨List.forall_mem_nil _, List.forall_mem_nil _⟩
  | pass _ d force ih =>
    exact Numbered.finish <| List.foldlRecOn (motive := fun s : SymbolTable × PassReport => s.1.Numbered) _ _ ih
      fun s hs w _ => hs.write w
  | clear _ _ => exact ⟨List.forall_mem_nil _, List.forall_mem_nil _⟩

/-- Numbers from the next one on are new. -/
theorem Numbered.symbol_not_mem (h : t.Numbered) {n : Nat} (hn : t.nextSymbol ≤ n) : n ∉ t.symbols.map (·.1) := by
  intro hmem
  obtain ⟨row, hrow, rfl⟩ := List.mem_map.mp hmem
  exact Nat.not_lt.mpr hn (h.symbols row hrow)

theorem Numbered.import_not_mem (h : t.Numbered) {n : Nat} (hn : t.nextImport ≤ n) : n ∉ t.imports.map (·.1) := by
  intro hmem
  obtain ⟨row, hrow, rfl⟩ := List.mem_map.mp hmem
  exact Nat.not_lt.mpr hn (h.imports row hrow)

/-! ## Files that are left alone or read again -/

theorem Coherent.files_rowsAt (h : t.Coherent) {f : FileRow} (hf : t.file? path = some f) :
    (t.rowsAt path).files = [f] := by
  change (t.entry path).files = [f]
  rw [file?_eq_head?] at hf
  rcases h path with hnone | ⟨g, hg, -⟩
  · rw [hnone] at hf
    cases hf
  · rw [hg] at hf ⊢
    cases hf
    rfl

/-- Storing a file numbers the rows of its contents anew. -/
theorem rowsAt_store {text : String} (t : SymbolTable) :
    let contents := FileContents.read rd.registry rd.grammars c.path c.language text
    ((t.store c text contents).rowsAt c.path).symbols = numbered t.nextSymbol contents.symbols ∧
      ((t.store c text contents).rowsAt c.path).imports =
        numbered t.nextImport (contents.imports.map (⟨c.path, ·⟩)) := by
  intro contents
  rw [store, rowsAt_insert fun s hs => FileContents.file_of_mem_read hs, if_pos rfl, rowsAt_drop, if_pos rfl]
  exact ⟨rfl, rfl⟩

section Updated

variable {known : Option FileRow} {f : FileRow} {result : SymbolTable × Outcome}

/-- A time that has not moved hides the contents. -/
theorem Updated.rowsAt_of_le (h : Updated rd false known c t result) (hf : known = some f)
    (htime : c.mtime.le f.mtime = true) : result.1.rowsAt c.path = t.rowsAt c.path := by
  cases h with
  | unmoved => rfl
  | dated _ hrow hlater =>
    rw [hf] at hrow
    cases hrow
    rw [htime] at hlater
    cases hlater
  | failed => rfl
  | stored hstale => exact absurd hstale (not_stale_of_le rfl hf htime)

theorem Updated.rowsAt_of_same (h : Updated rd false known c t result) (hf : known = some f)
    (htime : c.mtime.le f.mtime = false) (hsame : isUnchanged c f = true) : result.1.rowsAt c.path =
      { t.rowsAt c.path with files := (t.rowsAt c.path).files.map ({ · with mtime := c.mtime }) } := by
  cases h with
  | unmoved _ hrow hle =>
    rw [hf] at hrow
    cases hrow
    rw [htime] at hle
    cases hle
  | dated => exact (rowsAt_touch t c.path c.path c.mtime).trans (if_pos rfl)
  | failed hstale => exact absurd hstale (not_stale_of_same rfl hf hsame)
  | stored hstale => exact absurd hstale (not_stale_of_same rfl hf hsame)

/-- A file that has to be read and is text gets the rows of its contents, under numbers from the next ones on. -/
theorem Updated.rowsAt_of_stale (h : Updated rd force known c t result) (hstale : Stale force known c) {text : String}
    (htext : c.text = .ok text) :
    (result.1.rowsAt c.path).plain = .ofText rd c text ∧
      (∀ row ∈ (result.1.rowsAt c.path).symbols, t.nextSymbol ≤ row.1) ∧
      ∀ row ∈ (result.1.rowsAt c.path).imports, t.nextImport ≤ row.1 := by
  cases h with
  | unmoved hunforced hrow hle => exact absurd hstale (not_stale_of_le hunforced hrow hle)
  | dated hunforced hrow _ hsame => exact absurd hstale (not_stale_of_same hunforced hrow hsame)
  | failed _ hfault =>
    rw [htext] at hfault
    cases hfault
  | stored _ htext' =>
    rw [htext, Except.ok.injEq] at htext'
    subst htext'
    obtain ⟨hsymbols, himports⟩ := @rowsAt_store rd c text t
    rw [plain_rowsAt, entry_store, if_pos rfl, hsymbols, himports]
    exact ⟨rfl, fun row hrow => (bounds_of_mem_numbered hrow).1, fun row hrow => (bounds_of_mem_numbered hrow).1⟩

end Updated

/-- What a pass that is not forced does to the only file of its path. With a time that has not moved its rows stay
as they are, with a later time and the same contents only the time of its row changes, and with other contents,
if these are text, it gets their rows under new numbers. -/
theorem unforced_pass_on_file (ht : Reachable rd policy root t) (d : Disk)
    (honly : (candidates rd.registry policy d root).filter (·.path = c.path) = [c]) :
    let t' := (index rd false (candidates rd.registry policy d root) t).1
    (∀ f, t.file? c.path = some f →
      (c.mtime.le f.mtime = true → t'.rowsAt c.path = t.rowsAt c.path) ∧
      (c.mtime.le f.mtime = false → ∀ octets, c.file.read = .ok octets → f.contentHash = Blake3.shortHash octets →
        t'.rowsAt c.path = { t.rowsAt c.path with files := [{ f with mtime := c.mtime }] })) ∧
    ∀ text, c.text = .ok text →
      (∀ f, t.file? c.path = some f →
        c.mtime.le f.mtime = false ∧ f.contentHash ≠ Blake3.shortHash c.file.octets) →
      t'.entry c.path = .ofText rd c text ∧
      (∀ row ∈ (t'.rowsAt c.path).symbols, row.1 ∉ t.symbols.map (·.1)) ∧
      ∀ row ∈ (t'.rowsAt c.path).imports, row.1 ∉ t.imports.map (·.1) := by
  intro t'
  obtain ⟨s, result, ⟨hrows, hcontinues⟩, hupdated, hresult, -⟩ := exists_updated_of_only rd false t honly
  have hresult : t'.rowsAt c.path = result.1.rowsAt c.path := hresult
  refine ⟨fun f hf => ⟨fun htime => ?_, fun htime octets hread hsame => ?_⟩, fun text htext hmoved => ?_⟩
  · rw [hresult, hupdated.rowsAt_of_le hf htime, hrows]
  · rw [hresult, hupdated.rowsAt_of_same hf htime (isUnchanged_iff.mpr ⟨octets, hread, hsame⟩), hrows, ht.coherent.files_rowsAt hf]
    rfl
  · have hstale : Stale false (t.file? c.path) c := .inr fun f hf => by
      obtain ⟨htime, hother⟩ := hmoved f hf
      refine ⟨htime, Bool.eq_false_iff.mpr fun hsame => ?_⟩
      obtain ⟨octets, hread, hsame⟩ := isUnchanged_iff.mp hsame
      exact hother (hsame.trans (by rw [DiskFile.octets_of_read hread]))
    obtain ⟨hentry, hsymbols, himports⟩ := hupdated.rowsAt_of_stale hstale htext
    rw [← plain_rowsAt, hresult]
    refine ⟨hentry, fun row hrow => ?_, fun row hrow => ?_⟩
    · exact ht.numbered.symbol_not_mem (Nat.le_trans hcontinues.symbols (hsymbols row hrow))
    · exact ht.numbered.import_not_mem (Nat.le_trans hcontinues.imports (himports row hrow))

/-- A file is touched, and then other contents come with a later time. -/
theorem unforced_pass_on_file_touched_edited :
    let rd : Reader := ⟨.register .empty { name := "python", displayName := "Python", extensions := [".py"] } [] [],
      { parse := fun _ _ => none }⟩
    let written := ({} : Disk).put "a.py" ⟨"class A:".toUTF8.toList, 10, none⟩
    let touched := written.touch "a.py" 11
    let edited := written.put "a.py" ⟨"class B:".toUTF8.toList, 12, none⟩
    let t := (index rd false (candidates rd.registry ⟨[]⟩ written "") .empty).1
    let t₁ := (index rd false (candidates rd.registry ⟨[]⟩ touched "") t).1
    let t₂ := (index rd false (candidates rd.registry ⟨[]⟩ edited "") t).1
    Reachable rd ⟨[]⟩ "" t ∧ t.symbols.map (fun s => (s.1, s.2.name)) = [(1, "A")] ∧
      ((t₁.rowsAt "a.py").symbols = (t.rowsAt "a.py").symbols ∧ (t₁.rowsAt "a.py").files.map (·.mtime) = [11]) ∧
      t₂.entry "a.py" = .ofText rd ⟨"a.py", "python", ⟨"class B:".toUTF8.toList, 12, none⟩⟩ "class B:" ∧
      ∀ row ∈ (t₂.rowsAt "a.py").symbols, row.1 ∉ t.symbols.map (·.1) := by
  intro rd written touched edited t t₁ t₂
  have ht : Reachable rd ⟨[]⟩ "" t := .pass .empty written false
  have htouched : candidates rd.registry ⟨[]⟩ touched "" =
      [⟨"a.py", "python", ⟨"class A:".toUTF8.toList, 11, none⟩⟩] := by decide +kernel
  have hedited : candidates rd.registry ⟨[]⟩ edited "" =
      [⟨"a.py", "python", ⟨"class B:".toUTF8.toList, 12, none⟩⟩] := by decide +kernel
  have hrow : (t.file? "a.py").map (fun f => (f.mtime, f.contentHash)) =
      some (10, Blake3.shortHash "class A:".toUTF8.toList) := by decide +kernel
  obtain ⟨f, hf, hparts⟩ := Option.map_eq_some_iff.mp hrow
  obtain ⟨hmtime, hhash⟩ := Prod.mk.inj hparts
  have hother : f.contentHash ≠ Blake3.shortHash "class B:".toUTF8.toList := by
    rw [hhash]
    decide +kernel
  obtain ⟨hkept, -⟩ := @unforced_pass_on_file rd ⟨[]⟩ "" t ⟨"a.py", "python", ⟨"class A:".toUTF8.toList, 11, none⟩⟩ ht touched
    (by rw [htouched]; rfl)
  obtain ⟨-, hread⟩ := @unforced_pass_on_file rd ⟨[]⟩ "" t ⟨"a.py", "python", ⟨"class B:".toUTF8.toList, 12, none⟩⟩ ht edited
    (by rw [hedited]; rfl)
  have hdated : t₁.rowsAt "a.py" = { t.rowsAt "a.py" with files := [{ f with mtime := 11 }] } :=
    (hkept f hf).2 (by rw [hmtime]; decide) _ rfl hhash
  obtain ⟨hentry, hnumbers, -⟩ := hread "class B:" (by decide +kernel) fun g hg => by
    rw [hf] at hg
    cases hg
    exact ⟨by rw [hmtime]; decide, hother⟩
  have hsymbols : t.symbols.map (fun s => (s.1, s.2.name)) = [(1, "A")] := by decide +kernel
  rw [hdated]
  exact ⟨ht, hsymbols, ⟨rfl, rfl⟩, hentry, hnumbers⟩

/-- Two files whose paths differ in a slash only share their rows: what a pass reads of the one replaces those of
the other, whose time has not moved. -/
theorem shared_path_loses_rows :
    let rd : Reader := ⟨.register .empty { name := "sql", displayName := "SQL", extensions := [".sql"] } [] [],
      { parse := fun _ _ => none }⟩
    let written := (({} : Disk).put "a/b.sql" ⟨[49], 10, none⟩).put "a\\b.sql" ⟨[50, 50], 10, none⟩
    let edited := (({} : Disk).put "a/b.sql" ⟨[51, 51, 51], 20, none⟩).put "a\\b.sql" ⟨[50, 50], 10, none⟩
    let t := (index rd false (candidates rd.registry ⟨[]⟩ written "") .empty).1
    let files := candidates rd.registry ⟨[]⟩ edited ""
    let t' := (index rd false files t).1
    Reachable rd ⟨[]⟩ "" t ∧ ∃ c ∈ files, c.path = "a/b.sql" ∧
      ((t.rowsAt "a/b.sql").files.all (c.mtime.le ·.mtime) ∧ (t.rowsAt "a/b.sql").files.map (·.size) = [2]) ∧
      (t'.rowsAt "a/b.sql").files.map (·.size) = [3] := by
  intro rd written edited t files t'
  have hwritten : candidates rd.registry ⟨[]⟩ written "" =
      [⟨"a/b.sql", "sql", ⟨[49], 10, none⟩⟩, ⟨"a/b.sql", "sql", ⟨[50, 50], 10, none⟩⟩] := by
    have hwalk : IgnorePolicy.walk ⟨[]⟩ written "" = written.files := by
      rw [IgnorePolicy.walk_of_directory rfl, List.mergeSort_of_pairwise] <;> decide +kernel
    rw [candidates, hwalk]
    decide +kernel
  have hedited : files = [⟨"a/b.sql", "sql", ⟨[51, 51, 51], 20, none⟩⟩, ⟨"a/b.sql", "sql", ⟨[50, 50], 10, none⟩⟩] := by
    have hwalk : IgnorePolicy.walk ⟨[]⟩ edited "" = edited.files := by
      rw [IgnorePolicy.walk_of_directory rfl, List.mergeSort_of_pairwise] <;> decide +kernel
    simp only [files]
    rw [candidates, hwalk]
    decide +kernel
  refine ⟨.pass .empty written false, ⟨"a/b.sql", "sql", ⟨[50, 50], 10, none⟩⟩, ?_, rfl, ?_⟩
  · rw [hedited]
    exact List.mem_cons_of_mem _ List.mem_cons_self
  · simp only [t', t, hwritten, hedited]
    decide +kernel

end SymbolTable

end CodeIndex
