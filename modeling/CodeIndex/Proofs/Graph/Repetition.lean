import CodeIndex.Proofs.Graph.Timed

/-!
# A pass after a pass

The next pass over the same tree finds nothing to do but to fail the same files again
(`repeated_pass_keeps_graph`). Files that failed have no time and are stale each time, so that they are taken
out and looked at anew. This changes nothing (`index_of_lacks`), since nothing is there of them.
-/

namespace CodeIndex.Graph

/-! ## A pass with nothing to do -/

/-- A store that counts no more than pruning removes. -/
class CountingStore (σ : Type) [Store σ] [LawfulStore σ] : Prop where
  pruneCount_eq_zero {s : σ} (h : LawfulStore.Valid s) {kinds : List String}
    (htouched : ∀ id n, (LawfulStore.view s).node? id = some n → n.kind ∈ kinds → (LawfulStore.view s).Touched id) :
    Store.pruneCount kinds s = 0

instance : CountingStore MemoryGraph where
  pruneCount_eq_zero {g} h kinds htouched := by
    have h : g.InOrder := h
    refine List.length_eq_zero_iff.mpr (List.filter_eq_nil_iff.mpr fun entry hentry hpruned => ?_)
    obtain ⟨hkind, hlone⟩ := Bool.and_eq_true_iff.mp hpruned
    have htouches := h.touches_iff.mpr
      (htouched entry.1 entry.2 (h.node?_eq_some.mpr hentry) (List.contains_iff_mem.mp hkind))
    rw [htouches] at hlone
    cases hlone

theorem TableGraph.pruneKind_eq_self {g : TableGraph} (h : g.OneRowAKey) {kind : String}
    (htouched : ∀ id n, g.view.node? id = some n → n.kind = kind → g.view.Touched id) : g.pruneKind kind = g := by
  have hkept : (g.nodes.filter fun n =>
      !(n.kind = kind && !g.edges.any (·.source = n.id) && !g.edges.any (·.target = n.id))) = g.nodes := by
    refine List.filter_eq_self.mpr fun n hn => ?_
    by_cases hkind : n.kind = kind
    · obtain ⟨k, hk, hend⟩ := htouched n.id n (h.node?_eq_some.mpr ⟨hn, rfl⟩) hkind
      obtain ⟨e, he⟩ := Option.isSome_iff_exists.mp hk
      obtain ⟨hmem, rfl⟩ := h.edge?_eq_some.mp he
      rcases hend with hend | hend
      · have hany : g.edges.any (·.source = n.id) = true := List.any_eq_true.mpr ⟨e, hmem, decide_eq_true hend⟩
        simp [hany]
      · have hany : g.edges.any (·.target = n.id) = true := List.any_eq_true.mpr ⟨e, hmem, decide_eq_true hend⟩
        simp [hany]
    · simp [hkind]
  rw [TableGraph.pruneKind, hkept]

instance : CountingStore TableGraph where
  pruneCount_eq_zero {g} h kinds htouched := by
    change g.OneRowAKey at h
    change TableGraph.pruneCount kinds g = 0
    induction kinds with
    | nil => rfl
    | cons kind kinds ih =>
      have hkept := TableGraph.pruneKind_eq_self h fun id n hn hkind => htouched id n hn (hkind ▸ List.mem_cons_self)
      rw [TableGraph.pruneCount, hkept, Nat.sub_self, Nat.zero_add]
      exact ih fun id n hn hkind => htouched id n hn (List.mem_cons_of_mem kind hkind)

/-- Nothing is there of a file. -/
structure View.Lacks (v : View) (file : String) : Prop where
  time : v.time? file = none
  node : ∀ id, ¬v.HasFile file id

theorem View.Lacks.deleteFile {v : View} {file : String} (h : v.Lacks file) : v.deleteFile file = v := by
  ext1
  · funext id
    ext n
    rw [View.node?_deleteFile, and_iff_left_iff_imp]
    exact fun hn heq => h.node id ⟨n, hn, heq⟩
  · funext k
    ext e
    rw [View.edge?_deleteFile, and_iff_left_iff_imp]
    exact fun _ => ⟨h.node k.source, h.node k.target⟩
  · funext f
    change (if f = file then none else v.time? f) = v.time? f
    split
    · next heq => rw [heq, h.time]
    · rfl

theorem View.prune_of_touched {v : View} {kinds : List String}
    (h : ∀ id n, v.node? id = some n → n.kind ∈ kinds → v.Touched id) : v.prune kinds = v := by
  ext1
  · funext id
    ext n
    rw [View.node?_prune, and_iff_left_iff_imp]
    intro hn
    by_cases hkind : n.kind ∈ kinds
    · exact .inr (h id n hn hkind)
    · exact .inl hkind
  · rfl
  · rfl

section Idle

open LawfulStore

variable {σ : Type} [Store σ] [LawfulStore σ] {s : σ} {p : Pass σ} {files : Dict Candidate}

theorem detach_of_lacks (h : Valid s) {file : String} (hlacks : (view s).Lacks file) : detach s file = [] := by
  have hnone : Store.incoming s file = [] := List.eq_nil_iff_forall_not_mem.mpr fun e he =>
    hlacks.node e.target ((mem_incoming h).mp he).2.1
  rw [detach, hnone]
  rfl

/-- Files that fail and of which nothing is there are counted, and that is all. -/
theorem Pass.replace_of_lacks (rd : Reader) (hover : Option HoverSource) {cs : List Candidate} (h : Valid p.store)
    (hcs : ∀ c ∈ cs, (view p.store).Lacks c.path ∧ fault? c ≠ none) :
    let last := cs.foldl (Pass.replace rd hover) (p, [])
    (Valid last.1.store ∧ view last.1.store = view p.store) ∧ last.1.detached = p.detached ∧ last.2 = [] ∧
      last.1.report = p.report.fail (cs.filterMap fault?) := by
  induction cs generalizing p with
  | nil => exact ⟨⟨h, rfl⟩, rfl, rfl, (PassReport.fail_nil _).symm⟩
  | cons c cs ih =>
    obtain ⟨hlacks, hfault⟩ := hcs c List.mem_cons_self
    obtain ⟨e, he⟩ := Option.ne_none_iff_exists'.mp hfault
    have hnext : Pass.replace rd hover (p, []) c = ({ p.remove c.path with report := p.report.fail [e] }, []) := by
      unfold fault? at he
      unfold Pass.replace
      cases htext : c.text with
      | ok text => simp [htext] at he
      | error fault =>
        rw [htext] at he
        cases he
        rfl
    have hview : view (p.remove c.path).store = view p.store := (view_deleteFile h c.path).trans hlacks.deleteFile
    have hdetached : (p.remove c.path).detached = p.detached := by
      change p.detached ++ detach p.store c.path = _
      rw [detach_of_lacks h hlacks, List.append_nil]
    rw [List.foldl_cons, hnext]
    obtain ⟨⟨hvalid, hlast⟩, hkept, hfound, hreport⟩ :=
      @ih { p.remove c.path with report := p.report.fail [e] } (valid_deleteFile h c.path) fun c' hc' => by
        rw [hview]
        exact hcs c' (List.mem_cons_of_mem c hc')
    refine ⟨⟨hvalid, hlast.trans hview⟩, hkept.trans hdetached, hfound, ?_⟩
    rw [hreport, PassReport.fail_fail, List.filterMap_cons, he]
    rfl

theorem index_of_lacks [CountingStore σ] (rd : Reader) (hover : Option HoverSource) (asked : List HoverCall)
    (h : Valid s) (hgone : vanishedFiles s files = [])
    (hcs : ∀ c ∈ staleCandidates s false files, (view s).Lacks c.path ∧ fault? c ≠ none)
    (htouched : ∀ id n, (view s).node? id = some n → n.kind ∈ [moduleKind, externalType] → (view s).Touched id) :
    view (index rd hover false files asked s).store = view s ∧
      (index rd hover false files asked s).report = PassReport.fail ((staleCandidates s false files).filterMap fault?)
        { total := files.length, skipped := files.length - (staleFiles s false files).length } := by
  obtain ⟨⟨hvalid, hview⟩, hdetached, hfound, hreport⟩ :=
    @Pass.replace_of_lacks _ _ _ (.start false files asked s) rd hover (staleCandidates s false files) h hcs
  rw [index_eq, hgone, List.foldl_nil]
  set cleared := (staleCandidates s false files).foldl (Pass.replace rd hover) (.start false files asked s, [])
  have hlinked : linking (staleFiles s false files ++ []) cleared =
      cleared.1.writeResolved ({}, cleared.1.memo) := by
    rw [show cleared = (cleared.1, []) from Prod.ext rfl hfound]
    change cleared.1.writeResolved (reattached _ _ cleared.1.detached _) = _
    rw [hdetached]
    rfl
  rw [hlinked]
  have hview : view cleared.1.store = view s := hview
  have htouched : ∀ id n, (view cleared.1.store).node? id = some n → n.kind ∈ [moduleKind, externalType] →
      (view cleared.1.store).Touched id := by
    rw [hview]
    exact htouched
  refine ⟨?_, ?_⟩
  · refine (view_prune hvalid _).trans (.trans ?_ hview)
    exact View.prune_of_touched htouched
  · have hcount : Store.pruneCount [moduleKind, externalType] cleared.1.store = 0 :=
      CountingStore.pruneCount_eq_zero hvalid htouched
    change ({ cleared.1.report with pruned := Store.pruneCount _ cleared.1.store } : PassReport) = _
    rw [hcount, hreport]
    rfl

end Idle

/-! ## Runs -/

section Run

open LawfulStore

variable {σ : Type} [Store σ] {s : σ}

/-- What passes make of an empty graph, over whatever trees, forced or not, with or without a language server. -/
inductive AfterPasses (σ : Type) [Store σ] : σ → Prop
  | empty : AfterPasses σ Store.empty
  | pass {s : σ} (h : AfterPasses σ s) (rd : Reader) (policy : IgnorePolicy) (root : String) (d : Disk)
    (hover : Option HoverSource) (force : Bool) (asked : List HoverCall) :
    AfterPasses σ (index rd hover force (filesIn rd policy root d) asked s).store

theorem sorted_filesIn (rd : Reader) (policy : IgnorePolicy) (root : String) (d : Disk) :
    Dict.Sorted (filesIn rd policy root d) := Dict.sorted_ofList _

variable [LawfulStore σ]

theorem AfterPasses.timed (h : AfterPasses σ s) : Valid s ∧ (view s).Timed [] := by
  induction h with
  | empty =>
    rw [view_empty]
    exact ⟨valid_empty, View.timed_empty⟩
  | pass _ rd policy root d hover force asked ih =>
    obtain ⟨hvalid, htimed, -⟩ := timed_index (sorted_filesIn rd policy root d) path_of_lookup_filesIn rd hover force
      ih.1 ih.2 asked
    exact ⟨hvalid, htimed⟩

section Again

variable {files : Dict Candidate} (hfiles : Dict.Sorted files)
  (hpath : ∀ {p c}, files.lookup p = some c → Candidate.path c = p) (rd : Reader) (hover : Option HoverSource)
  (force : Bool) (h : Valid s) (hs : (view s).Timed []) (asked : List HoverCall)

include hfiles hpath h hs

theorem vanishedFiles_index : vanishedFiles (index rd hover force files asked s).store files = [] := by
  obtain ⟨hvalid, -⟩ := timed_index hfiles hpath rd hover force h hs asked
  refine List.eq_nil_iff_forall_not_mem.mpr fun p hp => ?_
  obtain ⟨htime, hnone⟩ := (mem_vanishedFiles hvalid).mp hp
  rw [time?_index hfiles hpath rd hover force h hs asked, hnone] at htime
  cases htime

/-- After a pass exactly the files that it failed are stale. -/
theorem isStale_index {p : String} {c : Candidate} (hc : files.lookup p = some c) :
    isStale (index rd hover force files asked s).store false (p, c) =
      (isStale s force (p, c) && (fault? c).isSome) := by
  obtain ⟨hvalid, -⟩ := timed_index hfiles hpath rd hover force h hs asked
  have htime := time?_index hfiles hpath rd hover force h hs asked p
  rw [hc, Option.bind_some] at htime
  rw [isStale, Bool.false_or, mtime?_eq hvalid, htime]
  cases hstale : isStale s force (p, c) with
  | true => cases hfault : fault? c <;> simp [Double.lt]
  | false =>
    obtain ⟨-, hold⟩ := Bool.or_eq_false_iff.mp hstale
    rw [mtime?_eq h] at hold
    simpa using hold

theorem staleCandidates_index : staleCandidates (index rd hover force files asked s).store false files =
    (staleCandidates s force files).filter fun c => (fault? c).isSome := by
  rw [staleCandidates_eq hfiles, staleCandidates_eq hfiles, List.filter_map, List.filter_filter]
  refine congrArg (List.map _) (List.filter_congr fun entry hentry => ?_)
  rw [isStale_index hfiles hpath rd hover force h hs asked (Dict.lookup_of_mem hfiles.nodup hentry), Bool.and_comm]
  rfl

theorem failures_index : (staleCandidates (index rd hover force files asked s).store false files).filterMap fault? =
    (staleCandidates s force files).filterMap fault? := by
  rw [staleCandidates_index hfiles hpath rd hover force h hs asked, List.filterMap_filter]
  refine List.filterMap_congr fun c _ => ?_
  cases fault? c <;> rfl

end Again

/-- Where one path is found only, it is any. -/
theorem eq_of_length_eq_one {files : Dict Candidate} (h : files.length = 1) {p q : String} {c : Candidate}
    (hp : files.lookup p = some c) (hq : (files.lookup q).isSome) : q = p := by
  obtain ⟨entry, rfl⟩ := List.length_eq_one_iff.mp h
  obtain ⟨c', hc'⟩ := Option.isSome_iff_exists.mp hq
  have hp := List.mem_singleton.mp (Dict.mem_of_lookup hp)
  have hq := List.mem_singleton.mp (Dict.mem_of_lookup hc')
  exact congrArg Prod.fst (hq.trans hp.symm)

/-- A pass accounts for all files. Another one over the same tree, which is not forced, reads none, fails the same
files and leaves the graph as it is: all nodes, edges and times. The root is a directory, or else the only file. -/
theorem repeated_pass_keeps_graph [CountingStore σ] (h : AfterPasses σ s) (rd : Reader) (policy : IgnorePolicy)
    (root : String) (d : Disk) (hover hover' : Option HoverSource) (force : Bool) (asked asked' : List HoverCall) :
    let files := filesIn rd policy root d
    let first := index rd hover force files asked s
    let second := index rd hover' false files asked' first.store
    (first.report.total = files.length ∧
      first.report.indexed + first.report.skipped + first.report.failed = first.report.total) ∧
    ((∀ c, files.lookup "" = some c → files.length = 1) →
      view second.store = view first.store ∧
      second.report = { total := first.report.total, skipped := first.report.total - first.report.failed
                        failed := first.report.failed, errors := first.report.errors }) := by
  have hfiles := sorted_filesIn rd policy root d
  have hpath : ∀ {p c}, (filesIn rd policy root d).lookup p = some c → c.path = p := path_of_lookup_filesIn
  obtain ⟨hvalid, htimed⟩ := h.timed
  dsimp only
  generalize filesIn rd policy root d = files at hfiles hpath ⊢
  obtain ⟨htotal, hsum, hfailed, herrors⟩ := report_index rd hover force hfiles asked s
  refine ⟨⟨htotal, hsum⟩, fun hroot => ?_⟩
  obtain ⟨hvalid', -, htouched⟩ := timed_index hfiles hpath rd hover force hvalid htimed asked
  have hcs := staleCandidates_index hfiles hpath rd hover force hvalid htimed asked
  have hgone := vanishedFiles_index hfiles hpath rd hover force hvalid htimed asked
  have hfailures := failures_index hfiles hpath rd hover force hvalid htimed asked
  -- a file that is stale again has failed
  have hlacks : ∀ c ∈ staleCandidates (index rd hover force files asked s).store false files,
      (view (index rd hover force files asked s).store).Lacks c.path ∧ fault? c ≠ none := by
    intro c hc
    rw [hcs] at hc
    obtain ⟨hc, hfault⟩ := List.mem_filter.mp hc
    have hfault : fault? c ≠ none := Option.isSome_iff_ne_none.mp hfault
    obtain ⟨hlookup, hstale⟩ := lookup_of_mem_staleCandidates hfiles hpath hc
    refine ⟨⟨?_, ?_⟩, hfault⟩
    · rw [time?_index hfiles hpath rd hover force hvalid htimed asked, hlookup, Option.bind_some, if_pos hstale,
        if_neg (by simpa using hfault)]
    · refine not_hasFile_index hfiles hpath rd hover force hvalid htimed asked hlookup hstale hfault fun hempty q hq => ?_
      exact eq_of_length_eq_one (hroot c (hempty ▸ hlookup)) hlookup hq
  obtain ⟨hview, hreport⟩ := index_of_lacks rd hover' asked' hvalid' hgone hlacks htouched
  refine ⟨hview, ?_⟩
  have hstale : (staleFiles (index rd hover force files asked s).store false files).length =
      ((staleCandidates s force files).filterMap fault?).length := by
    rw [length_staleFiles hfiles, hcs, List.length_filterMap_eq_countP, List.countP_eq_length_filter]
  rw [hreport, hfailures, hstale, htotal, hfailed, herrors]
  simp [PassReport.fail]

/-- A file that is no text comes beside a class with a base elsewhere. The pass after a forced one fails the file
again and keeps the edge to the base. -/
theorem repeated_pass_keeps_graph_faulty :
    let derived := ({} : Disk).put "b.c" ⟨[66, 32, 65], 10, none⟩
    let earlier := (index classReader none false (filesIn classReader ⟨[]⟩ "" derived) []
      (Store.empty : TableGraph)).store
    let d := (({} : Disk).put "a.c" ⟨[255], 4, none⟩).put "b.c" ⟨[66, 32, 65], 10, none⟩
    let files := filesIn classReader ⟨[]⟩ "" d
    let first := index classReader none true files [] earlier
    let second := index classReader none false files [] first.store
    AfterPasses TableGraph earlier ∧
      (first.report.errors.map (·.path) = ["a.c"] ∧
        first.store.edges.map (·.target) = ["symbol:b.c:B", "external_type:A"]) ∧
      view second.store = view first.store ∧ second.report.errors.map (·.path) = ["a.c"] ∧
      second.report.skipped = 1 ∧ second.report.pruned = 0 := by
  intro derived earlier d files first second
  have hearlier : AfterPasses TableGraph earlier := .pass .empty classReader ⟨[]⟩ "" derived none false []
  have hwalk : IgnorePolicy.walk ⟨[]⟩ d "" = [("a.c", ⟨[255], 4, none⟩), ("b.c", ⟨[66, 32, 65], 10, none⟩)] := by
    rw [IgnorePolicy.walk_of_directory rfl, List.mergeSort_of_pairwise] <;> decide +kernel
  have hfiles : files = [("a.c", ⟨"a.c", "classes", ⟨[255], 4, none⟩⟩), ("b.c", ⟨"b.c", "classes", ⟨[66, 32, 65], 10, none⟩⟩)] := by
    simp only [files, filesIn, candidates]
    rw [hwalk]
    decide +kernel
  have hfirst : first.report.errors.map (·.path) = ["a.c"] ∧ first.store.edges.map (·.target) =
      ["symbol:b.c:B", "external_type:A"] ∧ first.report.total = 2 ∧ first.report.failed = 1 := by
    simp only [first, hfiles]
    decide +kernel
  obtain ⟨herrors, hedges, htotal, hfailed⟩ := hfirst
  obtain ⟨-, hagain⟩ := repeated_pass_keeps_graph hearlier classReader ⟨[]⟩ "" d none none true [] []
  have hpasses : first = index classReader none true files [] earlier ∧
      second = index classReader none false files [] first.store := ⟨rfl, rfl⟩
  clear_value second first
  rw [show filesIn classReader ⟨[]⟩ "" d = files from rfl, ← hpasses.1, ← hpasses.2] at hagain
  obtain ⟨hview, hreport⟩ := hagain (by rw [hfiles]; intro c hc; cases hc)
  rw [hreport]
  exact ⟨hearlier, ⟨herrors, hedges⟩, hview, herrors, by rw [htotal, hfailed], rfl⟩

end Run

end CodeIndex.Graph
