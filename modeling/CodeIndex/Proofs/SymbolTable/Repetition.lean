import CodeIndex.Proofs.SymbolTable.Frame

/-!
# A pass after a pass

Every file that a pass finds is indexed, skipped or failed. What becomes of it hangs on the file and on the row
that the pass found for it, and not on what was written before (`verdict`), so that a report is a sum over the
files. After a pass each text has a row of its time, and a second pass over the same files is left with those
that cannot be read or are no text (`repeated_pass_changes_nothing`).
-/

namespace CodeIndex.SymbolTable

variable {rd : Reader} {force : Bool} {t before : SymbolTable} {c : Candidate} {files : List Candidate}
  {known : Option FileRow}

/-! ## Verdicts -/

/-- What becomes of a file whose row before the pass is `known`. -/
def verdict (rd : Reader) (force : Bool) (known : Option FileRow) (c : Candidate) : Outcome :=
  (indexFile rd force known c .empty).2

theorem indexFile_snd (rd : Reader) (force : Bool) (known : Option FileRow) (c : Candidate) (t : SymbolTable) :
    (indexFile rd force known c t).2 = verdict rd force known c := by
  unfold verdict indexFile
  dsimp only
  split
  · rfl
  · split
    · rfl
    · cases c.text <;> rfl

/-- The error of a file that failed. -/
def Outcome.failures : Outcome → List FileError
  | .skipped => []
  | .indexed _ _ => []
  | .failed e => [e]

namespace PassReport

/-- How many files a report accounts for. -/
def handled (p : PassReport) : Nat := p.indexed + p.skipped + p.failed

/-- A report to which files were added with their outcomes. -/
def addAll (outcome : Candidate → Outcome) (files : List Candidate) (p : PassReport) : PassReport :=
  files.foldl (fun p c => p.add c (outcome c)) p

variable {outcome : Candidate → Outcome}

theorem addAll_cons (c : Candidate) (rest : List Candidate) (p : PassReport) :
    addAll outcome (c :: rest) p = addAll outcome rest (p.add c (outcome c)) := rfl

theorem total_addAll (files : List Candidate) (p : PassReport) : (addAll outcome files p).total = p.total := by
  induction files generalizing p with
  | nil => rfl
  | cons c rest ih =>
    rw [addAll_cons, ih]
    cases outcome c <;> rfl

theorem deleted_addAll (files : List Candidate) (p : PassReport) :
    (addAll outcome files p).deleted = p.deleted := by
  induction files generalizing p with
  | nil => rfl
  | cons c rest ih =>
    rw [addAll_cons, ih]
    cases outcome c <;> rfl

/-- Each file is counted once. -/
theorem handled_addAll (files : List Candidate) (p : PassReport) :
    (addAll outcome files p).handled = p.handled + files.length := by
  induction files generalizing p with
  | nil => rfl
  | cons c rest ih =>
    have hadd : (p.add c (outcome c)).handled = p.handled + 1 := by
      cases outcome c <;> simp only [add, handled] <;> omega
    rw [addAll_cons, ih, hadd, List.length_cons]
    omega

theorem failed_addAll (files : List Candidate) (p : PassReport) :
    (addAll outcome files p).failed = p.failed + (files.flatMap fun c => (outcome c).failures).length := by
  induction files generalizing p with
  | nil => rfl
  | cons c rest ih =>
    rw [addAll_cons, ih, List.flatMap_cons, List.length_append, ← Nat.add_assoc]
    cases outcome c <;> rfl

/-- Of the errors, those that are not about trees are the failures. -/
theorem errors_addAll (files : List Candidate) (p : PassReport)
    (h : ∀ c ∈ files, ∀ e, outcome c = .failed e → e.kind ≠ .parseError) :
    (addAll outcome files p).errors.filter (·.kind ≠ .parseError) =
      p.errors.filter (·.kind ≠ .parseError) ++ files.flatMap fun c => (outcome c).failures := by
  induction files generalizing p with
  | nil => exact (List.append_nil _).symm
  | cons c rest ih =>
    rw [addAll_cons, ih _ fun c' hc' => h c' (List.mem_cons_of_mem c hc'), List.flatMap_cons, ← List.append_assoc]
    congr 1
    have hc := h c List.mem_cons_self
    cases houtcome : outcome c with
    | skipped => exact (List.append_nil _).symm
    | failed e => simp [add, Outcome.failures, hc e houtcome]
    | indexed n parseError => cases parseError <;> simp [add, Outcome.failures]

/-- Without a file that is read, all errors are failures. -/
theorem addAll_of_not_indexed (files : List Candidate) (p : PassReport)
    (h : ∀ c ∈ files, outcome c = .skipped ∨ ∃ e, outcome c = .failed e) :
    (addAll outcome files p).indexed = p.indexed ∧
      (addAll outcome files p).errors = p.errors ++ files.flatMap fun c => (outcome c).failures := by
  induction files generalizing p with
  | nil => exact ⟨rfl, (List.append_nil _).symm⟩
  | cons c rest ih =>
    obtain ⟨hindexed, herrors⟩ := ih (p.add c (outcome c)) fun c' hc' => h c' (List.mem_cons_of_mem c hc')
    rw [addAll_cons, hindexed, herrors, List.flatMap_cons, ← List.append_assoc]
    rcases h c List.mem_cons_self with hskipped | ⟨e, hfailed⟩
    · rw [hskipped]
      exact ⟨rfl, by rw [Outcome.failures, List.append_nil]; rfl⟩
    · rw [hfailed]
      exact ⟨rfl, rfl⟩

end PassReport

/-! ## The report of a pass -/

theorem report_foldl_drop (paths : List String) (s : SymbolTable × PassReport) :
    ((paths.map .drop).foldl (write rd force before) s).2 =
      { s.2 with deleted := s.2.deleted + paths.length } := by
  induction paths generalizing s with
  | nil => rfl
  | cons path rest ih =>
    rw [List.map_cons, List.foldl_cons, ih, List.length_cons, Nat.add_comm rest.length, ← Nat.add_assoc]
    rfl

theorem report_foldl_file (files : List Candidate) (s : SymbolTable × PassReport) :
    ((files.map .file).foldl (write rd force before) s).2 =
      PassReport.addAll (fun c => verdict rd force (before.file? c.path) c) files s.2 := by
  induction files generalizing s with
  | nil => rfl
  | cons c rest ih =>
    rw [List.map_cons, List.foldl_cons, ih, PassReport.addAll_cons, ← indexFile_snd rd force _ c s.1]
    rfl

/-- The report of a pass but for the patterns, which are counted at its end. -/
def tally (rd : Reader) (force : Bool) (files : List Candidate) (t : SymbolTable) : PassReport :=
  .addAll (fun c => verdict rd force (t.file? c.path) c) files
    { total := files.length, deleted := (t.vanished files).length }

theorem report_index (rd : Reader) (force : Bool) (files : List Candidate) (t : SymbolTable) :
    (index rd force files t).2 = { tally rd force files t with patterns := (index rd force files t).2.patterns } := by
  have hwrites : ((t.writes files).foldl (write rd force t) (t, { total := files.length })).2 =
      tally rd force files t := by
    rw [writes, List.foldl_append, report_foldl_file, report_foldl_drop, Nat.zero_add]
    rfl
  rw [← hwrites, index, finish]
  dsimp only
  split <;> rfl

theorem kind_of_verdict_failed {e : FileError} (h : verdict rd force known c = .failed e) :
    e.kind ≠ .parseError := by
  have hupdated := indexFile_updated rd force known c .empty
  rw [verdict] at h
  generalize indexFile rd force known c .empty = result at h hupdated
  cases hupdated with
  | failed _ hfault =>
    cases h
    rcases (Candidate.error_of_text hfault).2 with hkind | hkind <;> simp [hkind]
  | unmoved | dated | stored => cases h

/-- A pass handles every file it finds. -/
theorem handled_index (rd : Reader) (force : Bool) (files : List Candidate) (t : SymbolTable) :
    (index rd force files t).2.indexed + (index rd force files t).2.skipped + (index rd force files t).2.failed =
      files.length := by
  have hhandled : (tally rd force files t).handled = files.length := by
    rw [tally, PassReport.handled_addAll]
    exact Nat.zero_add _
  rw [report_index]
  exact hhandled

theorem total_index (rd : Reader) (force : Bool) (files : List Candidate) (t : SymbolTable) :
    (index rd force files t).2.total = files.length := by
  rw [report_index]
  exact PassReport.total_addAll files _

theorem deleted_index (rd : Reader) (force : Bool) (files : List Candidate) (t : SymbolTable) :
    (index rd force files t).2.deleted = (t.vanished files).length := by
  rw [report_index]
  exact PassReport.deleted_addAll files _

theorem failed_index (rd : Reader) (force : Bool) (files : List Candidate) (t : SymbolTable) :
    (index rd force files t).2.failed =
      (files.flatMap fun c => (verdict rd force (t.file? c.path) c).failures).length := by
  rw [report_index]
  exact (PassReport.failed_addAll files _).trans (Nat.zero_add _)

theorem failures_index (rd : Reader) (force : Bool) (files : List Candidate) (t : SymbolTable) :
    (index rd force files t).2.errors.filter (·.kind ≠ .parseError) =
      files.flatMap fun c => (verdict rd force (t.file? c.path) c).failures := by
  rw [report_index]
  exact PassReport.errors_addAll files _ fun c _ e he => kind_of_verdict_failed he

/-- After a pass there are rows for files that were found only. -/
theorem vanished_index (rd : Reader) (force : Bool) (files : List Candidate) (t : SymbolTable) :
    (index rd force files t).1.vanished files = [] := by
  refine List.eq_nil_iff_forall_not_mem.mpr fun path hpath => ?_
  obtain ⟨hrows, hgone⟩ := mem_vanished.mp hpath
  rw [entry_index_of_notMem rd force hgone] at hrows
  split at hrows
  · next hnone => exact hrows hnone
  · exact hrows rfl

theorem wasIndexed_index (rd : Reader) (force : Bool) (files : List Candidate) (t : SymbolTable) :
    (index rd force files t).1.wasIndexed = true := by
  unfold index finish
  dsimp only
  split <;> rfl

/-! ## Files that were seen -/

theorem indexFile_of_le {f : FileRow} (hrow : known = some f) (htime : c.mtime.le f.mtime = true) (t : SymbolTable) :
    indexFile rd false known c t = (t, .skipped) := by
  simp [indexFile, hrow, htime]

theorem Stale.not_unmoved (h : Stale force known c) : (!force && known.any (c.mtime.le ·.mtime)) = false := by
  rcases h with rfl | h
  · rfl
  · cases known with
    | none => simp
    | some f => simp [(h f rfl).1]

theorem Stale.not_same (h : Stale force known c) : (!force && known.any (isUnchanged c)) = false := by
  rcases h with rfl | h
  · rfl
  · cases known with
    | none => simp
    | some f => simp [(h f rfl).2]

theorem indexFile_of_fault (h : Stale force known c) {e : FileError} (hfault : c.text = .error e)
    (t : SymbolTable) : indexFile rd force known c t = (t, .failed e) := by
  unfold indexFile
  simp only [h.not_unmoved, h.not_same, hfault, Bool.false_eq_true, if_false]

theorem indexFile_of_text (h : Stale force known c) {text : String}
    (htext : c.text = .ok text) (t : SymbolTable) :
    indexFile rd force known c t =
      (t.store c text (FileContents.read rd.registry rd.grammars c.path c.language text),
        .indexed (FileContents.read rd.registry rd.grammars c.path c.language text).symbols.length
          (FileContents.read rd.registry rd.grammars c.path c.language text).parseError) := by
  unfold indexFile
  simp only [h.not_unmoved, h.not_same, htext, Bool.false_eq_true, if_false]

theorem Updated.eq_indexFile {result : SymbolTable × Outcome} (h : Updated rd force known c t result) :
    result = indexFile rd force known c t := by
  cases h with
  | unmoved hunforced hrow htime =>
    subst hunforced
    exact (indexFile_of_le hrow htime t).symm
  | dated hunforced hrow htime hsame => simp [indexFile, hunforced, hrow, htime, hsame]
  | failed hstale hfault => exact (indexFile_of_fault hstale hfault t).symm
  | stored hstale htext => exact (indexFile_of_text hstale htext t).symm

/-- What a pass leaves of a file: a row of its time or a later one, or the row that there was, if it had to be read
and could not. -/
inductive Seen (force : Bool) (known : Option FileRow) (c : Candidate) : Option FileRow → Outcome → Prop
  | row {f : FileRow} {o : Outcome} (time : c.mtime.le f.mtime = true) (fine : o.failures = []) :
    Seen force known c (some f) o
  | fault {e : FileError} (stale : Stale force known c) (unreadable : c.text = .error e) :
    Seen force known c known (.failed e)

theorem Updated.seen {s : SymbolTable} {result : SymbolTable × Outcome}
    (h : Updated rd force (t.file? c.path) c s result) (hentry : s.entry c.path = t.entry c.path) :
    Seen force (t.file? c.path) c (result.1.file? c.path) result.2 := by
  have hrow : s.file? c.path = t.file? c.path := by rw [file?_eq_head?, hentry, file?_eq_head?]
  cases h with
  | unmoved _ hknown htime =>
    rw [hrow, hknown]
    exact .row htime rfl
  | @dated f _ hknown _ _ =>
    have hdated : (s.touch c.path c.mtime).file? c.path = some { f with mtime := c.mtime } := by
      rw [hknown, file?_eq_head?] at hrow
      rw [file?_eq_head?, entry_touch, if_pos rfl, FileEntry.dated, List.head?_map, hrow]
      rfl
    rw [hdated]
    exact .row c.isTime_mtime.le_self rfl
  | failed hstale hfault =>
    rw [hrow]
    exact .fault hstale hfault
  | @stored text _ _ =>
    have hstored : (s.store c text
        (FileContents.read rd.registry rd.grammars c.path c.language text)).file? c.path =
          (FileEntry.ofText rd c text).files.head? := by
      rw [file?_eq_head?, entry_store, if_pos rfl]
    rw [hstored]
    exact .row c.isTime_mtime.le_self rfl

/-- A pass over files with paths of their own sees each of them. -/
theorem seen_of_mem (rd : Reader) (force : Bool) (t : SymbolTable) (hfiles : (files.map (·.path)).Nodup)
    (hc : c ∈ files) : Seen force (t.file? c.path) c ((index rd force files t).1.file? c.path)
      (verdict rd force (t.file? c.path) c) := by
  obtain ⟨s, result, hentry, hupdated, hresult, -⟩ := exists_updated_of_mem rd force t hfiles hc
  have hrow : (index rd force files t).1.file? c.path = result.1.file? c.path := by
    rw [file?_eq_head?, hresult, file?_eq_head?]
  rw [hrow, ← indexFile_snd rd force _ c s, ← hupdated.eq_indexFile]
  exact hupdated.seen hentry

/-! ## The second pass -/

/-- Two tables differ in their rows of files at most. -/
structure SameContents (t t' : SymbolTable) : Prop where
  symbols : t'.symbols = t.symbols
  imports : t'.imports = t.imports
  patterns : t'.patterns = t.patterns

variable {seen : Option FileRow} {o : Outcome}

/-- A file that was seen is not read again. -/
theorem Seen.not_indexed (h : Seen force known c seen o) (rd : Reader) :
    verdict rd false seen c = .skipped ∨ ∃ e, verdict rd false seen c = .failed e := by
  cases h with
  | row htime => exact .inl (congrArg Prod.snd (indexFile_of_le rfl htime .empty))
  | fault _ hfault =>
    have hupdated := indexFile_updated rd false known c .empty
    rw [verdict]
    generalize indexFile rd false known c .empty = result at hupdated
    cases hupdated with
    | unmoved => exact .inl rfl
    | dated => exact .inl rfl
    | failed => exact .inr ⟨_, rfl⟩
    | stored _ htext =>
      rw [hfault] at htext
      cases htext

theorem Seen.sameContents (h : Seen force known c seen o) (rd : Reader) (s : SymbolTable) :
    s.SameContents (indexFile rd false seen c s).1 := by
  have hupdated := indexFile_updated rd false seen c s
  have hverdict := h.not_indexed rd
  rw [← indexFile_snd rd false seen c s] at hverdict
  generalize indexFile rd false seen c s = result at hupdated hverdict
  cases hupdated with
  | unmoved => exact ⟨rfl, rfl, rfl⟩
  | dated => exact ⟨rfl, rfl, rfl⟩
  | failed => exact ⟨rfl, rfl, rfl⟩
  | stored => simp at hverdict

/-- Its rows stay, unless a forced pass failed it and its row has an earlier time and the hash of its contents. -/
theorem Seen.unchanged (h : Seen force known c seen o) (rd : Reader) (s : SymbolTable)
    (hother : force = true → ∀ e, c.text = .error e → ∀ f, known = some f → c.mtime.le f.mtime = false →
      isUnchanged c f = false) : (indexFile rd false seen c s).1 = s := by
  have hupdated := indexFile_updated rd false seen c s
  have hverdict := h.not_indexed rd
  rw [← indexFile_snd rd false seen c s] at hverdict
  generalize indexFile rd false seen c s = result at hupdated hverdict
  cases hupdated with
  | unmoved => rfl
  | failed => rfl
  | stored => simp at hverdict
  | dated _ hrow hlater hsame =>
    cases h with
    | row htime =>
      cases hrow
      rw [htime] at hlater
      cases hlater
    | fault hstale hfault =>
      rcases hstale with hforced | hmoved
      · rw [hother hforced _ hfault _ hrow hlater] at hsame
        cases hsame
      · rw [(hmoved _ hrow).2] at hsame
        cases hsame

/-- It fails only if it failed before. -/
theorem Seen.failures_sublist (h : Seen force known c seen o) (rd : Reader) :
    (verdict rd false seen c).failures.Sublist o.failures := by
  have hupdated := indexFile_updated rd false seen c .empty
  have hverdict := h.not_indexed rd
  rw [verdict] at hverdict ⊢
  generalize indexFile rd false seen c .empty = result at hupdated hverdict
  cases hupdated with
  | unmoved | dated => exact List.nil_sublist _
  | stored => simp at hverdict
  | failed hstale hfault =>
    cases h with
    | row htime => exact absurd hstale (not_stale_of_le rfl rfl htime)
    | fault _ hfault' =>
      rw [hfault] at hfault'
      cases hfault'
      exact List.Sublist.refl _

/-- One that would have been read without force as well meets the same end. -/
theorem Seen.fails_again (h : Seen force known c seen o) (rd : Reader)
    (hread : force = true → ∀ e, c.text = .error e → Stale false known c) :
    (verdict rd false seen c).failures = o.failures := by
  rw [← indexFile_snd rd false seen c .empty]
  cases h with
  | row htime hfine =>
    rw [indexFile_of_le rfl htime]
    exact hfine.symm
  | fault hstale hfault =>
    have hstale' : Stale false known c := by
      rcases hstale with hforced | hmoved
      · exact hread hforced _ hfault
      · exact .inr hmoved
    rw [indexFile_of_fault hstale' hfault]

/-- A pass that drops and reads nothing keeps the table it has come to. -/
theorem index_of_not_indexed (hgone : t.vanished files = []) (hindexed : (index rd false files t).2.indexed = 0) :
    (index rd false files t).1 =
      { ((files.map .file).foldl (write rd false t) (t, { total := files.length })).1 with wasIndexed := true } := by
  have hdeleted := deleted_index rd false files t
  rw [hgone] at hdeleted
  unfold index at hindexed hdeleted ⊢
  rw [writes, hgone, List.map_nil, List.nil_append] at hindexed hdeleted ⊢
  generalize (files.map .file).foldl (write rd false t) (t, { total := files.length }) = s at hindexed hdeleted ⊢
  unfold finish at hindexed hdeleted ⊢
  dsimp only at hindexed hdeleted ⊢
  split at hindexed
  · next h => simp_all
  · next h => rw [if_neg h]

section Second

variable {row : Candidate → Option FileRow} {outcome : Candidate → Outcome}
  (hseen : ∀ c ∈ files, Seen force (row c) c (t.file? c.path) (outcome c))

include hseen

theorem report_of_seen (rd : Reader) :
    (index rd false files t).2.indexed = 0 ∧ (index rd false files t).2.errors =
      files.flatMap fun c => (verdict rd false (t.file? c.path) c).failures := by
  rw [report_index]
  exact PassReport.addAll_of_not_indexed files _ fun c hc => (hseen c hc).not_indexed rd

/-- A pass over files that were seen changes no more than times. -/
theorem sameContents_of_seen (rd : Reader) (hgone : t.vanished files = []) :
    t.SameContents (index rd false files t).1 := by
  rw [index_of_not_indexed hgone (report_of_seen hseen rd).1]
  have hkept : t.SameContents ((files.map .file).foldl (write rd false t) (t, { total := files.length })).1 := by
    refine List.foldlRecOn (motive := fun s : SymbolTable × PassReport => t.SameContents s.1) _ _ ⟨rfl, rfl, rfl⟩
      fun s hs w hw => ?_
    obtain ⟨c, hc, rfl⟩ := List.mem_map.mp hw
    obtain ⟨hsymbols, himports, hpatterns⟩ := (hseen c hc).sameContents rd s.1
    exact ⟨hsymbols.trans hs.symbols, himports.trans hs.imports, hpatterns.trans hs.patterns⟩
  exact ⟨hkept.symbols, hkept.imports, hkept.patterns⟩

/-- A pass over files that were seen changes nothing, if no file that a forced pass failed has a row with an earlier
time and the hash of its contents. -/
theorem index_of_seen (rd : Reader) (hgone : t.vanished files = []) (hindexed : t.wasIndexed = true)
    (hother : force = true → ∀ c ∈ files, ∀ e, c.text = .error e → ∀ f, row c = some f → c.mtime.le f.mtime = false →
      isUnchanged c f = false) : (index rd false files t).1 = t := by
  have hkept : ((files.map .file).foldl (write rd false t) (t, { total := files.length })).1 = t := by
    refine List.foldlRecOn (motive := fun s : SymbolTable × PassReport => s.1 = t) _ _ rfl fun s hs w hw => ?_
    obtain ⟨c, hc, rfl⟩ := List.mem_map.mp hw
    exact ((hseen c hc).unchanged rd s.1 fun hforce => hother hforce c hc).trans hs
  rw [index_of_not_indexed hgone (report_of_seen hseen rd).1, hkept, ← hindexed]

/-- It fails files that failed, in their order. -/
theorem failures_sublist_of_seen (rd : Reader) :
    (files.flatMap fun c => (verdict rd false (t.file? c.path) c).failures).Sublist
      (files.flatMap fun c => (outcome c).failures) := by
  induction files with
  | nil => exact List.Sublist.refl _
  | cons c rest ih =>
    exact ((hseen c List.mem_cons_self).failures_sublist rd).append (ih fun c' hc' => hseen c' (List.mem_cons_of_mem c hc'))

/-- It fails the same files, if those that a forced pass failed would have been read without force as well. -/
theorem failures_of_seen (rd : Reader)
    (hread : force = true → ∀ c ∈ files, ∀ e, c.text = .error e → Stale false (row c) c) :
    (files.flatMap fun c => (verdict rd false (t.file? c.path) c).failures) =
      files.flatMap fun c => (outcome c).failures :=
  List.flatMap_congr fun c hc => (hseen c hc).fails_again rd fun hforce => hread hforce c hc

end Second

/-- Every pass handles all files it finds, and one that is not forced and follows a pass over the same tree drops
none. If each file has a path of its own, it reads none, keeps all but times and fails none but files that failed. It
changes nothing at all, unless a forced pass failed a file whose row has an earlier time and the hash of its contents.
It fails the files that failed and skips the others, if the files that a forced pass failed would have been read without
force as well. -/
theorem repeated_pass_changes_nothing (rd : Reader) (policy : IgnorePolicy) (root : String) (t : SymbolTable)
    (d : Disk) (force : Bool) :
    let files := candidates rd.registry policy d root
    let first := index rd force files t
    let second := index rd false files first.1
    first.2.indexed + first.2.skipped + first.2.failed = first.2.total ∧ second.2.deleted = 0 ∧
    ((files.map (·.path)).Nodup →
      (second.2.indexed = 0 ∧ second.1.symbols = first.1.symbols ∧ second.1.imports = first.1.imports ∧
        second.1.patterns = first.1.patterns ∧
        second.2.errors.Sublist (first.2.errors.filter (·.kind ≠ .parseError))) ∧
      ((force = true → ∀ c ∈ files, ∀ e, c.text = .error e → ∀ f, t.file? c.path = some f →
          c.mtime.le f.mtime = false → isUnchanged c f = false) →
        second.1 = first.1) ∧
      ((force = true → ∀ c ∈ files, ∀ e, c.text = .error e → ∀ f, t.file? c.path = some f →
          c.mtime.le f.mtime = false ∧ isUnchanged c f = false) →
        second.2.errors = first.2.errors.filter (·.kind ≠ .parseError) ∧
          second.2.failed = first.2.failed ∧ second.2.skipped = first.2.indexed + first.2.skipped)) := by
  dsimp only
  generalize candidates rd.registry policy d root = files
  have htotal := handled_index rd force files t
  have htotal' := handled_index rd false files (index rd force files t).1
  refine ⟨htotal.trans (total_index rd force files t).symm, ?_, fun hfiles => ?_⟩
  · rw [deleted_index, vanished_index]
    rfl
  have hgone := vanished_index rd force files t
  have hseen := fun c (hc : c ∈ files) => seen_of_mem rd force t hfiles hc
  obtain ⟨hindexed, herrors⟩ := report_of_seen hseen rd
  obtain ⟨hsymbols, himports, hpatterns⟩ := sameContents_of_seen hseen rd hgone
  refine ⟨⟨hindexed, hsymbols, himports, hpatterns, ?_⟩, fun hother => ?_, fun hread => ?_⟩
  · rw [herrors, failures_index]
    exact failures_sublist_of_seen hseen rd
  · exact index_of_seen hseen rd hgone (wasIndexed_index rd force files t) hother
  · have hfailures := failures_of_seen hseen rd fun hforce c hc e he => .inr (hread hforce c hc e he)
    have hfailed : (index rd false files (index rd force files t).1).2.failed = (index rd force files t).2.failed := by
      rw [failed_index, failed_index, hfailures]
    exact ⟨by rw [herrors, hfailures, failures_index], hfailed, by omega⟩

/-- One of two files has changed into no text when a forced pass comes: the pass after it fails this file as well and
leaves the row of its old contents. -/
theorem repeated_pass_changes_nothing_faulty :
    let rd : Reader := ⟨.register .empty { name := "sql", displayName := "SQL", extensions := [".sql"] } [] [],
      { parse := fun _ _ => none }⟩
    let written := (({} : Disk).put "a.sql" ⟨"class A:".toUTF8.toList, 10, none⟩).put "b.sql" ⟨"class B:".toUTF8.toList, 10, none⟩
    let edited := written.put "b.sql" ⟨[255], 11, none⟩
    let files := candidates rd.registry ⟨[]⟩ edited ""
    let t := (index rd false (candidates rd.registry ⟨[]⟩ written "") .empty).1
    let first := index rd true files t
    let second := index rd false files first.1
    ((files.map (·.path)).Nodup ∧ first.2.errors.map (·.path) = ["b.sql"] ∧ first.1.symbols.map (·.2.name) = ["B", "A"]) ∧
      second.1 = first.1 ∧ second.2.errors.map (·.path) = ["b.sql"] ∧ second.2.skipped = 1 := by
  intro rd written edited files t first second
  have hwritten : candidates rd.registry ⟨[]⟩ written "" =
      [⟨"a.sql", "sql", ⟨"class A:".toUTF8.toList, 10, none⟩⟩, ⟨"b.sql", "sql", ⟨"class B:".toUTF8.toList, 10, none⟩⟩] := by
    have hwalk : IgnorePolicy.walk ⟨[]⟩ written "" = written.files := by
      rw [IgnorePolicy.walk_of_directory rfl, List.mergeSort_of_pairwise] <;> decide +kernel
    rw [candidates, hwalk]
    decide +kernel
  have hfiles : files = [⟨"a.sql", "sql", ⟨"class A:".toUTF8.toList, 10, none⟩⟩, ⟨"b.sql", "sql", ⟨[255], 11, none⟩⟩] := by
    have hwalk : IgnorePolicy.walk ⟨[]⟩ edited "" = edited.files := by
      rw [IgnorePolicy.walk_of_directory rfl, List.mergeSort_of_pairwise] <;> decide +kernel
    simp only [files]
    rw [candidates, hwalk]
    decide +kernel
  have hdistinct : (files.map (·.path)).Nodup := by
    rw [hfiles]
    decide
  have hrow : (t.file? "b.sql").map (fun f => (f.mtime, f.contentHash)) =
      some (10, Blake3.shortHash "class B:".toUTF8.toList) := by
    simp only [t, hwritten]
    decide +kernel
  have hother : Blake3.shortHash "class B:".toUTF8.toList ≠ Blake3.shortHash [255] := by decide +kernel
  have hfirst : (first.2.indexed = 1 ∧ first.2.skipped = 0) ∧ first.2.errors.map (·.path) = ["b.sql"] ∧
      (first.2.errors.filter (·.kind ≠ .parseError)).map (·.path) = ["b.sql"] ∧
      first.1.symbols.map (·.2.name) = ["B", "A"] := by
    simp only [first, t, hwritten, hfiles]
    decide +kernel
  obtain ⟨⟨hindexed, hskipped⟩, herrors, hfailures, hsymbols⟩ := hfirst
  have hread : ∀ c ∈ files, ∀ e, c.text = .error e → ∀ f, t.file? c.path = some f →
      c.mtime.le f.mtime = false ∧ isUnchanged c f = false := by
    intro c hc e hfault f hf
    rw [hfiles] at hc
    rcases List.mem_cons.mp hc with rfl | hc
    · rw [show Candidate.text _ = .ok "class A:" by decide +kernel] at hfault
      cases hfault
    · rw [List.mem_singleton.mp hc] at hf ⊢
      rw [hf] at hrow
      obtain ⟨hmtime, hhash⟩ := Prod.mk.inj (Option.some.inj hrow)
      refine ⟨by rw [hmtime]; decide, Bool.eq_false_iff.mpr fun hsame => ?_⟩
      obtain ⟨octets, hoctets, hsame⟩ := isUnchanged_iff.mp hsame
      cases hoctets
      exact hother (hhash.symm.trans hsame)
  obtain ⟨-, -, hagain⟩ := repeated_pass_changes_nothing rd ⟨[]⟩ "" t edited true
  have hpasses : first = index rd true files t ∧ second = index rd false files first.1 := ⟨rfl, rfl⟩
  clear_value second first
  rw [show candidates rd.registry ⟨[]⟩ edited "" = files from rfl, ← hpasses.1, ← hpasses.2] at hagain
  obtain ⟨-, hsame, hfailsame⟩ := hagain hdistinct
  have htable := hsame fun _ c hc e he f hf _ => (hread c hc e he f hf).2
  obtain ⟨herrors', -, hskipped'⟩ := hfailsame fun _ => hread
  rw [hindexed, hskipped] at hskipped'
  exact ⟨⟨hdistinct, herrors, hsymbols⟩, htable, by rw [herrors', hfailures], hskipped'⟩

/-- Two files whose paths differ in a slash only: each pass reads the one again whose time is later than that of
the row, which is the other's. And a file that is no text any more, at the time that its row has: a forced pass fails
it, and the next one skips it. -/
theorem second_pass_reads_or_skips :
    let rd : Reader := ⟨.register .empty { name := "sql", displayName := "SQL", extensions := [".sql"] } [] [],
      { parse := fun _ _ => none }⟩
    let twice (force : Bool) (files : List Candidate) (t : SymbolTable) :=
      let first := index rd force files t
      (first, index rd false files first.1)
    let shared := (({} : Disk).put "a/b.sql" ⟨[49], 20, none⟩).put "a\\b.sql" ⟨[50], 10, none⟩
    let written := ({} : Disk).put "a.sql" ⟨"class A:".toUTF8.toList, 10, none⟩
    let edited := written.put "a.sql" ⟨[255], 10, none⟩
    let t := (index rd false (candidates rd.registry ⟨[]⟩ written "") .empty).1
    let reads := twice false (candidates rd.registry ⟨[]⟩ shared "") .empty
    let skips := twice true (candidates rd.registry ⟨[]⟩ edited "") t
    (reads.2.2.indexed = 1 ∧ reads.2.1 ≠ reads.1.1) ∧
      (skips.1.2.errors.map (·.path) = ["a.sql"] ∧ skips.2.2.errors = [] ∧ skips.2.2.skipped = 1) := by
  intro rd twice shared written edited t reads skips
  have hfiles : candidates rd.registry ⟨[]⟩ shared "" =
      [⟨"a/b.sql", "sql", ⟨[49], 20, none⟩⟩, ⟨"a/b.sql", "sql", ⟨[50], 10, none⟩⟩] := by
    have hwalk : IgnorePolicy.walk ⟨[]⟩ shared "" = shared.files := by
      rw [IgnorePolicy.walk_of_directory rfl, List.mergeSort_of_pairwise] <;> decide +kernel
    rw [candidates, hwalk]
    decide +kernel
  refine ⟨?_, by decide +kernel⟩
  simp only [reads, hfiles]
  decide +kernel

end CodeIndex.SymbolTable
