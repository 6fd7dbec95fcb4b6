import Mathlib.Data.List.Induction
import CodeIndex.Proofs.SymbolTable.Entry

/-!
# Passes over a changing tree

A table that was kept up to date by passes, forced or not, holds the rows that a new table would hold, as long as a
pass that is not forced finds other contents of a file with a later time than an earlier pass did. `Records` is the
invariant: the rows of a path are those of a file that was found there in some pass.
-/

namespace CodeIndex

namespace SymbolTable

variable {rd : Reader} {force : Bool} {t : SymbolTable} {c : Candidate} {files : List Candidate}
  {path : String} {seen : Candidate → Prop}

/-! ## One pass -/

/-- The rows of each path are those of a file seen there. -/
def Records (rd : Reader) (seen : Candidate → Prop) (t : SymbolTable) : Prop :=
  ∀ path, t.entry path = {} ∨ ∃ c text, seen c ∧ c.path = path ∧ c.text = .ok text ∧
    t.entry path = .ofText rd c text

/-- Of a file seen twice, other contents come with a later time, and neither its language nor its hash
tells different contents apart wrongly. -/
structure Succeeds (earlier later : Candidate) : Prop where
  time : earlier.file.read ≠ later.file.read → earlier.mtime.lt later.mtime = true
  language : earlier.file.read = later.file.read → earlier.language = later.language
  hash : ∀ octets octets', earlier.file.read = .ok octets → later.file.read = .ok octets' →
    Blake3.shortHash octets = Blake3.shortHash octets' → octets = octets'

theorem Records.mono {seen' : Candidate → Prop} (h : t.Records rd seen) (hle : ∀ c, seen c → seen' c) :
    t.Records rd seen' := fun path =>
  (h path).imp_right fun ⟨c, text, hc, hrest⟩ => ⟨c, text, hle c hc, hrest⟩

theorem Records.empty (rd : Reader) (seen : Candidate → Prop) : SymbolTable.empty.Records rd seen :=
  fun path => .inl (entry_empty path)

/-- The row of a path is that of a file seen there. -/
theorem Records.of_file? (h : t.Records rd seen) {f : FileRow} (hf : t.file? path = some f) :
    ∃ c text, seen c ∧ c.path = path ∧ c.text = .ok text ∧ t.entry path = .ofText rd c text ∧
      f.mtime = c.mtime ∧ f.contentHash = Blake3.shortHash c.file.octets := by
  rw [file?_eq_head?] at hf
  rcases h path with hnone | ⟨c, text, hc, hpath, htext, hentry⟩
  · rw [hnone] at hf
    cases hf
  · rw [hentry] at hf
    cases hf
    exact ⟨c, text, hc, hpath, htext, hentry, rfl, rfl⟩

/-- A file that was brought up to date failed, or its rows are those of its present contents. -/
theorem Updated.current {s : SymbolTable} {result : SymbolTable × Outcome}
    (h : Updated rd force (t.file? c.path) c s result) (hs : s.entry c.path = t.entry c.path)
    (ht : t.Records rd seen) (hsucc : force = false → ∀ c', seen c' → c'.path = c.path → Succeeds c' c) :
    (∃ e, c.text = .error e ∧ result.2 = .failed e ∧ result.1.entry c.path = t.entry c.path) ∨
    ∃ c' text, (seen c' ∨ c' = c) ∧ c'.path = c.path ∧ c'.file.read = c.file.read ∧
      c'.language = c.language ∧ c'.text = .ok text ∧ result.1.entry c.path = .ofText rd c' text := by
  cases h with
  | @unmoved f hunforced hrow htime =>
    obtain ⟨c', text, hc', hpath, htext, hentry, hmtime, -⟩ := ht.of_file? hrow
    have hsucc := hsucc hunforced c' hc' hpath
    have hread : c'.file.read = c.file.read := by
      by_contra hne
      rw [hmtime, Double.not_le_of_lt (hsucc.time hne)] at htime
      cases htime
    exact .inr ⟨c', text, .inl hc', hpath, hread, hsucc.language hread, htext, hs.trans hentry⟩
  | @dated f hunforced hrow _ hsame =>
    obtain ⟨c', text, hc', hpath, htext, hentry, -, hhash⟩ := ht.of_file? hrow
    have hsucc := hsucc hunforced c' hc' hpath
    obtain ⟨octets, hoctets, hsame⟩ := isUnchanged_iff.mp hsame
    have hread' := Candidate.read_of_text htext
    have heq := hsucc.hash _ _ hread' hoctets (hhash.symm.trans hsame)
    have hread : c'.file.read = c.file.read := by rw [hread', hoctets, heq]
    refine .inr ⟨c, text, .inr rfl, rfl, rfl, rfl, (Candidate.text_congr hpath hread).symm.trans htext, ?_⟩
    rw [entry_touch, if_pos rfl, hs, hentry]
    exact FileEntry.ofText_dated hpath (heq.trans (DiskFile.octets_of_read hoctets).symm) (hsucc.language hread) text
  | @failed e _ hfault => exact .inl ⟨e, hfault, rfl, hs⟩
  | @stored text _ htext =>
    exact .inr ⟨c, text, .inr rfl, rfl, rfl, rfl, htext, (entry_store _).trans (if_pos rfl)⟩

/-- After a pass, a path under which it found no file has no rows. -/
theorem Records.entry_index_of_notMem (ht : t.Records rd seen) (force : Bool)
    (hpath : ∀ c ∈ files, c.path ≠ path) : (SymbolTable.index rd force files t).1.entry path = {} := by
  rw [SymbolTable.entry_index_of_notMem rd force hpath]
  split
  · next hnone =>
    rcases ht path with h | ⟨c, text, -, -, -, h⟩
    · exact h
    · rw [h] at hnone
      cases hnone
  · rfl

variable (hfiles : (files.map (·.path)).Nodup) (ht : t.Records rd seen)
  (hsucc : force = false → ∀ c', seen c' → ∀ c ∈ files, c'.path = c.path → Succeeds c' c)
include hfiles ht hsucc

/-- After a pass, a file that it found and did not report as failed has the rows of its contents. -/
theorem entry_index_of_mem (hc : c ∈ files) :
    (∃ e, c.text = .error e ∧ e ∈ (index rd force files t).2.errors) ∨
    ∃ text, c.text = .ok text ∧ ((index rd force files t).1.entry c.path).dated c.mtime = .ofText rd c text := by
  obtain ⟨s, result, hs, hupdated, hentry, herrors⟩ := exists_updated_of_mem rd force t hfiles hc
  rcases hupdated.current hs ht fun hunforced c' hc' => hsucc hunforced c' hc' c hc with
    ⟨e, hfault, hfailed, -⟩ | ⟨c', text, -, hpath, hread, hlanguage, htext, hrows⟩
  · exact .inl ⟨e, hfault, herrors e hfailed⟩
  · refine .inr ⟨text, (Candidate.text_congr hpath hread).symm.trans htext, ?_⟩
    have hoctets := DiskFile.octets_of_read (hread.symm.trans (Candidate.read_of_text htext))
    rw [hentry, hrows]
    exact FileEntry.ofText_dated hpath hoctets.symm hlanguage text

theorem Records.index : (index rd force files t).1.Records rd fun c => seen c ∨ c ∈ files := by
  intro path
  by_cases hpath : ∃ c ∈ files, c.path = path
  · obtain ⟨c, hc, rfl⟩ := hpath
    obtain ⟨s, result, hs, hupdated, hentry, -⟩ := exists_updated_of_mem rd force t hfiles hc
    rw [hentry]
    rcases hupdated.current hs ht fun hunforced c' hc' => hsucc hunforced c' hc' c hc with
      ⟨_, -, -, hrows⟩ | ⟨c', text, hc', hpath, -, -, htext, hrows⟩
    · rw [hrows]
      exact (ht.mono fun _ => .inl) c.path
    · refine .inr ⟨c', text, ?_, hpath, htext, hrows⟩
      rcases hc' with h | rfl
      · exact .inl h
      · exact .inr hc
  · exact .inl (ht.entry_index_of_notMem force (by simpa using hpath))

omit hfiles ht hsucc

/-- A new table holds the rows of every file that is text. -/
theorem entry_index_empty (hfiles : (files.map (·.path)).Nodup) (rd : Reader) (force : Bool) (hc : c ∈ files)
    {text : String} (htext : c.text = .ok text) :
    (index rd force files .empty).1.entry c.path = .ofText rd c text := by
  obtain ⟨s, result, -, hupdated, hentry, -⟩ := exists_updated_of_mem rd force .empty hfiles hc
  rw [hentry]
  cases hupdated with
  | unmoved _ hrow => cases hrow
  | dated _ hrow => cases hrow
  | failed _ hfault => rw [htext] at hfault; cases hfault
  | stored _ htext' =>
    rw [htext, Except.ok.injEq] at htext'
    subst htext'
    exact (entry_store _).trans (if_pos rfl)

/-! ## Runs -/

/-- A file is written or gets another time, a file or a directory is removed, or a pass is made. -/
inductive Event where
  | write (path : String) (file : DiskFile)
  | touch (path : String) (mtime : Double)
  | remove (path : String)
  | pass (force : Bool)
  deriving DecidableEq, Repr

/-- What an event makes of a tree. -/
def Event.change (d : Disk) : Event → Disk
  | .write path file => d.put path file
  | .touch path mtime => d.touch path mtime
  | .remove path => d.erase path
  | .pass _ => d

/-- The tree that a pass finds, and whether the pass is forced. -/
def Event.found (d : Disk) : Event → List (Disk × Bool)
  | .pass force => [(d, force)]
  | _ => []

/-- What the passes of a run find. -/
def passes (d : Disk) : List Event → List (Disk × Bool)
  | [] => []
  | e :: rest => e.found d ++ passes (e.change d) rest

/-- A tree with the table that follows it and the report of the last pass. -/
structure Tracked where
  disk : Disk := {}
  table : SymbolTable := .empty
  report : PassReport := {}

def Tracked.step (rd : Reader) (policy : IgnorePolicy) (root : String) (s : Tracked) : Event → Tracked
  | .pass force =>
    let (table, report) := index rd force (candidates rd.registry policy s.disk root) s.table
    { s with table, report }
  | e => { s with disk := e.change s.disk }

/-- A run from an empty tree and an empty table. -/
def Tracked.run (rd : Reader) (policy : IgnorePolicy) (root : String) (events : List Event) : Tracked :=
  events.foldl (step rd policy root) {}

/-- Passes of which those that are not forced find other contents under a path with a later time than an earlier pass
did, that there is nothing to read being contents too. Different files have different relative paths, and different
contents different hashes. -/
structure Disciplined (r : Registry) (policy : IgnorePolicy) (root : String) (ps : List (Disk × Bool)) : Prop where
  times : ps.Pairwise fun earlier later => later.2 = false →
    ∀ c ∈ candidates r policy earlier.1 root, ∀ c' ∈ candidates r policy later.1 root, c.path = c'.path →
      c.file.read ≠ c'.file.read → c.mtime.lt c'.mtime = true
  paths : ∀ x ∈ ps, ∀ y ∈ ps, ∀ p q, (x.1.file? p).isSome → (y.1.file? q).isSome →
    Path.relative root p = Path.relative root q → p = q
  hashes : ∀ x ∈ ps, ∀ y ∈ ps, ∀ c ∈ candidates r policy x.1 root, ∀ c' ∈ candidates r policy y.1 root,
    ∀ octets octets', c.file.read = .ok octets → c'.file.read = .ok octets' →
      Blake3.shortHash octets = Blake3.shortHash octets' → octets = octets'

section Passes

variable {d : Disk} {r : Registry} {policy : IgnorePolicy} {root : String} {front : List (Disk × Bool)}

theorem passes_append (d : Disk) (events more : List Event) :
    passes d (events ++ more) = passes d events ++ passes (events.foldl Event.change d) more := by
  induction events generalizing d with
  | nil => rfl
  | cons e rest ih =>
    rw [List.cons_append, passes, passes, ih, List.append_assoc]
    rfl

theorem keyed_change (h : d.Keyed) (e : Event) : (e.change d).Keyed := by
  cases e with
  | write path file => exact h.put path file
  | touch path mtime => exact h.touch path mtime
  | remove path => exact h.erase path
  | pass _ => exact h

theorem keyed_foldl (h : d.Keyed) (events : List Event) : (events.foldl Event.change d).Keyed :=
  List.foldlRecOn (motive := Disk.Keyed) _ _ h fun _ hd e _ => keyed_change hd e

theorem keyed_passes (h : d.Keyed) (events : List Event) : ∀ x ∈ passes d events, x.1.Keyed := by
  induction events generalizing d with
  | nil => exact List.forall_mem_nil _
  | cons e rest ih =>
    refine List.forall_mem_append.mpr ⟨?_, ih (keyed_change h e)⟩
    cases e with
    | pass force => exact List.forall_mem_singleton.mpr h
    | write | touch | remove => exact List.forall_mem_nil _

theorem Disciplined.init {last : List (Disk × Bool)} (h : Disciplined r policy root (front ++ last)) :
    Disciplined r policy root front where
  times := (List.pairwise_append.mp h.times).1
  paths x hx y hy := h.paths x (List.mem_append_left _ hx) y (List.mem_append_left _ hy)
  hashes x hx y hy := h.hashes x (List.mem_append_left _ hx) y (List.mem_append_left _ hy)

/-- A file that the last of disciplined passes finds without force succeeds what an earlier one found under its
path. -/
theorem Disciplined.succeeds {x : Disk × Bool} {c' : Candidate} (h : Disciplined r policy root (front ++ [(d, false)]))
    (hd : d.Keyed) (hkeyed : ∀ x ∈ front, x.1.Keyed) (hx : x ∈ front) (hc' : c' ∈ candidates r policy x.1 root)
    (hc : c ∈ candidates r policy d root) (hpath : c'.path = c.path) : Succeeds c' c := by
  have hfirst : x ∈ front ++ [(d, false)] := List.mem_append_left _ hx
  have hlast : (d, false) ∈ front ++ [(d, false)] := List.mem_append_right _ (List.mem_singleton_self _)
  refine ⟨?_, fun heq => ?_, h.hashes x hfirst _ hlast c' hc' c hc⟩
  · exact (List.pairwise_append.mp h.times).2.2 x hx _ (List.mem_singleton_self _) rfl c' hc' c hc hpath
  · obtain ⟨p', hfile', hrel', l', hl', hlang'⟩ := exists_file_of_mem_candidates (hkeyed x hx) hc'
    obtain ⟨p, hfile, hrel, l, hl, hlang⟩ := exists_file_of_mem_candidates hd hc
    obtain rfl : p' = p := h.paths x hfirst _ hlast p' p (by rw [hfile']; rfl) (by rw [hfile]; rfl)
      (by rw [← hrel', ← hrel, hpath])
    rw [heq, hl, Option.some.injEq] at hl'
    rw [hlang', hlang, hl']

end Passes

section Run

variable {policy : IgnorePolicy} {root : String} {events : List Event}

/-- Found by one of the passes. -/
def SeenIn (r : Registry) (policy : IgnorePolicy) (root : String) (ps : List (Disk × Bool)) (c : Candidate) : Prop :=
  ∃ x ∈ ps, c ∈ candidates r policy x.1 root

theorem disk_run (rd : Reader) (policy : IgnorePolicy) (root : String) (events : List Event) :
    (Tracked.run rd policy root events).disk = events.foldl Event.change {} := by
  have hstep : ∀ (s : Tracked) e, (s.step rd policy root e).disk = e.change s.disk := by
    intro s e
    cases e <;> rfl
  have hfoldl : ∀ (s : Tracked), (events.foldl (Tracked.step rd policy root) s).disk =
      events.foldl Event.change s.disk := by
    induction events with
    | nil => intro s; rfl
    | cons e rest ih => intro s; rw [List.foldl_cons, ih, hstep, List.foldl_cons]
  exact hfoldl {}

theorem Tracked.run_concat (rd : Reader) (policy : IgnorePolicy) (root : String) (events : List Event)
    (e : Event) : run rd policy root (events ++ [e]) = (run rd policy root events).step rd policy root e := by
  rw [run, List.foldl_append]
  rfl

/-- What a pass at the end of a disciplined run can rely on: its files have different paths, and without force they
succeed those seen. -/
theorem Disciplined.last {r : Registry} (h : Disciplined r policy root (passes {} (events ++ [.pass force]))) :
    let files := candidates r policy (events.foldl Event.change {}) root
    (files.map (·.path)).Nodup ∧
      (force = false → ∀ c', SeenIn r policy root (passes {} events) c' → ∀ c ∈ files, c'.path = c.path →
        Succeeds c' c) := by
  rw [passes_append] at h
  have hd : (events.foldl Event.change {}).Keyed := keyed_foldl Disk.keyed_empty events
  have hlast : (events.foldl Event.change {}, force) ∈
      passes {} events ++ [(events.foldl Event.change {}, force)] :=
    List.mem_append_right _ (List.mem_singleton_self _)
  refine ⟨nodup_candidates hd (h.paths _ hlast _ hlast), ?_⟩
  rintro rfl c' ⟨x, hx, hc'⟩ c hc hpath
  exact h.succeeds hd (keyed_passes Disk.keyed_empty events) hx hc' hc hpath

/-- Along a disciplined run, the rows of each path are those of a file seen there. -/
theorem records_run (rd : Reader) (policy : IgnorePolicy)
    (h : Disciplined rd.registry policy root (passes {} events)) :
    (Tracked.run rd policy root events).table.Records rd (SeenIn rd.registry policy root (passes {} events)) := by
  induction events using List.reverseRecOn with
  | nil => exact Records.empty rd _
  | append_singleton events e ih =>
    rw [Tracked.run_concat]
    have hmono : ∀ c, SeenIn rd.registry policy root (passes {} events) c →
        SeenIn rd.registry policy root (passes {} (events ++ [e])) c := by
      rintro c ⟨x, hx, hc⟩
      rw [passes_append]
      exact ⟨x, List.mem_append_left _ hx, hc⟩
    have ih := ih (passes_append {} events [e] ▸ h).init
    cases e with
    | write path file => exact ih.mono hmono
    | touch path mtime => exact ih.mono hmono
    | remove path => exact ih.mono hmono
    | pass force =>
      obtain ⟨hfiles, hsucc⟩ := h.last
      rw [← disk_run rd policy root] at hfiles hsucc
      refine (Records.index hfiles ih hsucc).mono fun c hc => ?_
      rcases hc with hc | hc
      · exact hmono c hc
      · rw [disk_run] at hc
        rw [passes_append]
        exact ⟨_, List.mem_append_right _ (List.mem_singleton_self _), hc⟩

/-- After the last pass of a disciplined run, every file that the pass found and did not report as failed has
the rows that a new table would hold for it, save the time, and no other path has rows. -/
theorem tracked_table_eq_new (rd : Reader) (policy : IgnorePolicy) (root : String) (events : List Event)
    (force : Bool) (h : Disciplined rd.registry policy root (passes {} (events ++ [.pass force]))) :
    let s := Tracked.run rd policy root (events ++ [.pass force])
    let files := candidates rd.registry policy s.disk root
    let new := (index rd false files .empty).1
    (∀ c ∈ files, (∀ e ∈ s.report.errors, e.path = c.path → e.kind = .parseError) →
      (new.file? c.path).isSome ∧ (s.table.entry c.path).dated c.mtime = new.entry c.path) ∧
    ∀ path, (∀ c ∈ files, c.path ≠ path) → s.table.entry path = {} := by
  obtain ⟨hfiles, hsucc⟩ := h.last
  have hrecords := records_run rd policy (passes_append {} events [.pass force] ▸ h).init
  rw [← disk_run rd policy root] at hfiles hsucc
  rw [Tracked.run_concat]
  intro s files new
  refine ⟨fun c hc hunfailed => ?_, fun path hpath => hrecords.entry_index_of_notMem force hpath⟩
  rcases entry_index_of_mem hfiles hrecords hsucc hc with ⟨e, hfault, he⟩ | ⟨text, htext, hentry⟩
  · obtain ⟨hpath, hkind⟩ := Candidate.error_of_text hfault
    rw [hunfailed e he hpath] at hkind
    simp at hkind
  · have hnew : new.entry c.path = .ofText rd c text := entry_index_empty hfiles rd false hc htext
    rw [file?_eq_head?, hnew]
    exact ⟨rfl, hentry⟩

/-- An edit that sets the time back, and then a time half a second after the one that the first pass found. -/
theorem tracked_table_eq_new_after_edit :
    let rd : Reader := ⟨.register .empty { name := "python", displayName := "Python", extensions := [".py"] } [] [],
      { parse := fun _ _ => none }⟩
    let events : List Event := [.write "a.py" ⟨[120, 10], 10, none⟩, .pass false,
      .write "a.py" ⟨[120, 121, 10], 5, none⟩, .touch "a.py" ⟨0x4025000000000000⟩]
    let s := Tracked.run rd ⟨[]⟩ "" (events ++ [.pass false])
    let new := (index rd false (candidates rd.registry ⟨[]⟩ s.disk "") .empty).1
    Disciplined rd.registry ⟨[]⟩ "" (passes {} (events ++ [.pass false])) ∧ s.report.errors = [] ∧
      (new.file? "a.py").isSome ∧ (s.table.entry "a.py").dated ⟨0x4025000000000000⟩ = new.entry "a.py" ∧
      s.table.entry "b.py" = {} := by
  intro rd events s new
  have hhash : Blake3.shortHash [120, 10] ≠ Blake3.shortHash [120, 121, 10] := by decide +kernel
  -- the trees as what they hold under a path, and what is found in them
  obtain ⟨d₁, d₂, hpasses, h₁, h₂, hfound₁, hfound₂⟩ : ∃ d₁ d₂ : Disk,
      passes {} (events ++ [.pass false]) = [(d₁, false), (d₂, false)] ∧
      (∀ p, d₁.file? p = if p = "a.py" then some ⟨[120, 10], 10, none⟩ else none) ∧
      (∀ p, d₂.file? p = if p = "a.py" then some ⟨[120, 121, 10], ⟨0x4025000000000000⟩, none⟩ else none) ∧
      candidates rd.registry ⟨[]⟩ d₁ "" = [⟨"a.py", "python", ⟨[120, 10], 10, none⟩⟩] ∧
      candidates rd.registry ⟨[]⟩ d₂ "" = [⟨"a.py", "python", ⟨[120, 121, 10], ⟨0x4025000000000000⟩, none⟩⟩] := by
    refine ⟨_, _, rfl, fun p => ?_, fun p => ?_, by decide +kernel, by decide +kernel⟩ <;>
      simp only [Event.change, Disk.file?_put, Disk.file?_touch] <;> split <;> rfl
  have hdisciplined : Disciplined rd.registry ⟨[]⟩ "" (passes {} (events ++ [.pass false])) := by
    rw [hpasses]
    refine ⟨?_, ?_, ?_⟩
    · simp only [List.pairwise_cons, List.mem_singleton, forall_eq, hfound₁, hfound₂, List.not_mem_nil]
      exact ⟨fun _ _ _ => by decide, fun _ h => h.elim, .nil⟩
    · simp only [List.mem_cons]
      grind
    · simp only [List.mem_cons, List.not_mem_nil, or_false]
      rintro x (rfl | rfl) y (rfl | rfl) c hc c' hc' octets octets' hread hread' heq <;>
        simp only [hfound₁, hfound₂, List.mem_singleton] at hc hc' <;> subst hc <;> subst hc' <;>
        cases hread <;> cases hread'
      · rfl
      · exact absurd heq hhash
      · exact absurd heq.symm hhash
      · rfl
  have hfiles : candidates rd.registry ⟨[]⟩ s.disk "" =
      [⟨"a.py", "python", ⟨[120, 121, 10], ⟨0x4025000000000000⟩, none⟩⟩] := by
    rw [disk_run]
    decide +kernel
  have herrors : s.report.errors = [] := by decide +kernel
  have hnew := tracked_table_eq_new rd ⟨[]⟩ "" events false hdisciplined
  have ha := hnew.1 _ (hfiles ▸ List.mem_singleton_self _) (by rw [herrors]; simp)
  exact ⟨hdisciplined, herrors, ha.1, ha.2, hnew.2 "b.py" (by rw [hfiles]; decide)⟩

/-- The trees of a run, the first one included. -/
def trees (d : Disk) : List Event → List Disk
  | [] => [d]
  | e :: rest => d :: trees (e.change d) rest

/-- A time that was set back hides new contents: every write comes with a later time than the file ever had,
but a pass that finds the file at an earlier time than the last one did keeps the old row. -/
theorem touch_back_hides_contents :
    let rd : Reader := ⟨.register .empty { name := "python", displayName := "Python", extensions := [".py"] } [] [],
      { parse := fun _ _ => none }⟩
    let events : List Event := [.write "a.py" ⟨[120, 10], 10, none⟩, .pass false,
      .write "a.py" ⟨[120, 121, 10], 11, none⟩, .touch "a.py" 5, .pass false]
    let s := Tracked.run rd ⟨[]⟩ "" events
    let new := (index rd false (candidates rd.registry ⟨[]⟩ s.disk "") .empty).1
    (∀ i path file, events[i]? = some (.write path file) → ∀ d ∈ (trees {} events).take (i + 1), ∀ f,
      d.file? path = some f → f.mtime.lt file.mtime = true) ∧
      Blake3.shortHash [120, 10] ≠ Blake3.shortHash [120, 121, 10] ∧ s.report.errors = [] ∧
      (s.table.file? "a.py").map (·.size) = some 2 ∧ (new.file? "a.py").map (·.size) = some 3 := by
  refine ⟨?_, by decide +kernel, by decide +kernel, by decide +kernel, by decide +kernel⟩
  rintro (_ | _ | _ | _ | _ | i) path file h d hd f hf
  · cases h
    simp only [Nat.zero_add, trees, List.take_succ_cons, List.take_zero, List.mem_singleton] at hd
    subst hd
    cases hf
  · cases h
  · cases h
    simp only [trees, List.take_succ_cons, List.take_zero, List.mem_cons, List.not_mem_nil, or_false] at hd
    rcases hd with rfl | rfl | rfl
    · cases hf
    · cases hf; decide
    · cases hf; decide
  all_goals cases h

end Run

end SymbolTable

end CodeIndex
