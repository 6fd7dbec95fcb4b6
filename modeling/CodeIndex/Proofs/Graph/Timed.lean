import CodeIndex.Proofs.Graph.Accounts

/-!
# Times and failures

After a pass each file that was read has its time (`time?_index`), and of a file that could not be read nothing is
there (`not_hasFile_index`), whatever the paths look like: `Pass.Timed` follows nodes and times through the phases
of a pass without regard to ids. Modules and external types belong to the empty path, where a file is found
only if it is itself the root of the tree.
-/

namespace CodeIndex.Graph

/-! ## Views -/

namespace View

variable {v : View} {pending : List String} {file : String}

/-- Edges have no weight, and what belongs to a file is there with its time, which for files `pending` is still to
come. -/
structure Timed (v : View) (pending : List String) : Prop where
  weight {k : EdgeKey} {e : Edge} : v.edge? k = some e → e.weight = none
  time {id : String} {n : Node} : v.node? id = some n → n.file = "" ∨ (v.time? n.file).isSome ∨ n.file ∈ pending

theorem timed_empty : empty.Timed [] := by
  constructor <;> simp [empty]

theorem Timed.deleteFile (h : v.Timed pending) (file : String) : (v.deleteFile file).Timed pending where
  weight he := h.weight (edge?_deleteFile.mp he).1
  time {id n} hn := by
    obtain ⟨hn, hfile⟩ := node?_deleteFile.mp hn
    change _ ∨ (if n.file = file then none else v.time? n.file).isSome ∨ _
    rw [if_neg hfile]
    exact h.time hn

theorem Timed.write (h : v.Timed pending) {ns : List Node} {es : List Edge} {later : List String}
    (hns : ∀ n ∈ ns, n.file = "" ∨ n.file ∈ later) (hes : ∀ e ∈ es, e.weight = none) (hlater : pending ⊆ later) :
    ((v.putNodes ns).putEdges es).Timed later where
  weight he := by
    rcases Option.or_eq_some_iff.mp he with hnew | ⟨-, hold⟩
    · exact hes _ (mem_of_latest hnew)
    · exact h.weight hold
  time hn := by
    rcases Option.or_eq_some_iff.mp hn with hnew | ⟨-, hold⟩
    · exact (hns _ (mem_of_latest hnew)).imp_right .inr
    · exact (h.time hold).imp_right (Or.imp_right (@hlater _))

theorem Timed.setTime (h : v.Timed (file :: pending)) (time : Double) : (v.setTime file time).Timed pending where
  weight := h.weight
  time {id n} hn := by
    change _ ∨ (if n.file = file then some time else v.time? n.file).isSome ∨ _
    by_cases hfile : n.file = file
    · exact .inr (.inl (by rw [if_pos hfile]; rfl))
    · rw [if_neg hfile]
      exact (h.time hn).imp_right (Or.imp_right fun hmem => (List.mem_cons.mp hmem).resolve_left hfile)

theorem Timed.prune (h : v.Timed pending) (kinds : List String) : (v.prune kinds).Timed pending where
  weight := h.weight
  time hn := h.time (node?_prune.mp hn).1

theorem hasFile_deleteFile {other id : String} :
    (v.deleteFile other).HasFile file id ↔ v.HasFile file id ∧ file ≠ other := by
  constructor
  · rintro ⟨n, hn, rfl⟩
    obtain ⟨hn, hfile⟩ := node?_deleteFile.mp hn
    exact ⟨⟨n, hn, rfl⟩, hfile⟩
  · rintro ⟨hfile, hne⟩
    exact hfile.deleteFile hne

/-- A file has what it had, or something new. -/
theorem hasFile_write {ns : List Node} {es : List Edge} {id : String}
    (h : ((v.putNodes ns).putEdges es).HasFile file id) : v.HasFile file id ∨ ∃ n ∈ ns, n.file = file := by
  obtain ⟨n, hn, hfile⟩ := h
  rcases Option.or_eq_some_iff.mp hn with hnew | ⟨-, hold⟩
  · exact .inr ⟨n, mem_of_latest hnew, hfile⟩
  · exact .inl ⟨n, hold, hfile⟩

end View

/-! ## The phases of a pass -/

/-- Edges without a weight, and external types. -/
structure Resolved.Plain (r : Resolved) : Prop where
  weight : ∀ e ∈ r.edges, e.weight = none
  file : ∀ n ∈ r.externals, n.file = ""

theorem Resolved.Plain.add {r : Resolved} (h : r.Plain) {e : Edge} (he : e.weight = none) (found : Option String)
    (kind : EdgeKind) (name : String) : (r.add e (endOf found kind name)).Plain := by
  have hend : ∀ target nodes, endOf found kind name = some (target, nodes) → ∀ n ∈ nodes, n.file = "" := by
    intro target nodes hend n hn
    unfold endOf at hend
    split at hend
    · cases hend
      cases hn
    · split at hend
      · cases hend
        rw [List.mem_singleton.mp hn]
        rfl
      · cases hend
  unfold Resolved.add
  split
  · next target nodes hfound =>
    refine ⟨fun e' he' => ?_, fun n hn => ?_⟩
    · rcases List.mem_append.mp he' with hold | hnew
      · exact h.weight e' hold
      · rw [List.mem_singleton.mp hnew]
        exact he
    · exact (List.mem_append.mp hn).elim (h.file n) (hend target nodes hfound n)
  · exact ⟨h.weight, h.file⟩

section Phases

open LawfulStore

variable {σ : Type} [Store σ] {s : σ} {p : Pass σ} {rd : Reader} {hover : Option HoverSource}
  {found : List (Candidate × FileGraph)}

theorem plain_relations (s : σ) (f : FileGraph) (memo : Memo) : (relations s f memo).1.Plain := by
  refine List.foldlRecOn (motive := fun acc : Resolved × Memo => acc.1.Plain) _ _
    ⟨List.forall_mem_nil _, List.forall_mem_nil _⟩ fun acc hacc l _ => ?_
  exact hacc.add rfl _ _ _

theorem plain_reattached {detached : List Detached} (h : ∀ d ∈ detached, d.edge.weight = none) (s : σ)
    (replaced : List String) (memo : Memo) : (reattached s replaced detached memo).1.Plain := by
  refine List.foldlRecOn (motive := fun acc : Resolved × Memo => acc.1.Plain) _ _
    ⟨List.forall_mem_nil _, List.forall_mem_nil _⟩ fun acc hacc d hd => ?_
  unfold reattach
  split
  · exact hacc
  · split
    · exact hacc
    · exact hacc.add (h d hd) _ _ _

/-- Without nodes no edge finds its way back. -/
theorem store_linking_nil (h : ∀ id, Store.node? p.store id = none) (replaced : List String) :
    (linking replaced (p, [])).store = p.store := by
  have hnone : reattached p.store replaced p.detached p.memo = ({}, p.memo) := by
    refine List.foldlRecOn (motive := fun acc : Resolved × Memo => acc = ({}, p.memo)) _ _ rfl fun acc hacc d _ => ?_
    rw [hacc, reattach, h]
  change (p.writeResolved (reattached p.store replaced p.detached p.memo)).store = _
  rw [hnone]
  rfl

variable [LawfulStore σ] {pending : List String}

/-- A pass on its way. -/
structure Pass.Timed (p : Pass σ) (pending : List String) : Prop where
  valid : Valid p.store
  timed : (view p.store).Timed pending
  weights : ∀ d ∈ p.detached, d.edge.weight = none

theorem Pass.Timed.remove (h : p.Timed pending) (file : String) : (p.remove file).Timed pending := by
  have hview : view (p.remove file).store = (view p.store).deleteFile file :=
    view_deleteFile h.valid file
  refine ⟨valid_deleteFile h.valid file, hview ▸ h.timed.deleteFile file, fun d hd => ?_⟩
  rcases List.mem_append.mp hd with hold | hnew
  · exact h.weights d hold
  · obtain ⟨e, he, hnode⟩ := List.mem_filterMap.mp hnew
    obtain ⟨n, -, rfl⟩ := Option.map_eq_some_iff.mp hnode
    exact h.timed.weight ((mem_incoming h.valid).mp he).1

/-- Files that are gone take their nodes and times with them. -/
theorem Pass.Timed.vanish (h : p.Timed pending) (names : List String) :
    (names.foldl Pass.vanish p).Timed pending ∧
      (∀ f, (view (names.foldl Pass.vanish p).store).time? f = if f ∈ names then none else (view p.store).time? f) ∧
      ∀ f id, (view (names.foldl Pass.vanish p).store).HasFile f id → (view p.store).HasFile f id ∧ f ∉ names := by
  induction names generalizing p with
  | nil => exact ⟨h, fun _ => rfl, fun _ _ hfile => ⟨hfile, List.not_mem_nil⟩⟩
  | cons name rest ih =>
    have hremoved := h.remove name
    have hview : view (p.vanish name).store = (view p.store).deleteFile name := view_deleteFile h.valid name
    obtain ⟨hlast, htime, hfiles⟩ := @ih (p.vanish name) ⟨hremoved.valid, hremoved.timed, hremoved.weights⟩
    refine ⟨hlast, fun f => ?_, fun f id hfile => ?_⟩
    · rw [List.foldl_cons, htime, hview]
      change (if f ∈ rest then none else if f = name then none else _) = _
      by_cases hrest : f ∈ rest <;> by_cases hname : f = name <;> simp [hrest, hname]
    · obtain ⟨hfile, hrest⟩ := hfiles f id hfile
      rw [hview, View.hasFile_deleteFile] at hfile
      exact ⟨hfile.1, fun hmem => (List.mem_cons.mp hmem).elim hfile.2 hrest⟩

/-- A file that is replaced has no time, and no nodes unless it is text. -/
theorem Pass.Timed.replace (h : p.Timed (found.map (·.1.path))) (rd : Reader) (hover : Option HoverSource)
    (c : Candidate) :
    let next := Pass.replace rd hover (p, found) c
    next.1.Timed (next.2.map (·.1.path)) ∧
      (∀ f, (view next.1.store).time? f = if f = c.path then none else (view p.store).time? f) ∧
      ∀ f id, (view next.1.store).HasFile f id →
        (view p.store).HasFile f id ∧ f ≠ c.path ∨ fault? c = none ∧ (f = c.path ∨ f = "") := by
  have hremoved := h.remove c.path
  have hview : view (p.remove c.path).store = (view p.store).deleteFile c.path := view_deleteFile h.valid c.path
  unfold Pass.replace
  cases htext : c.text with
  | error fault =>
    refine ⟨⟨hremoved.valid, hremoved.timed, hremoved.weights⟩, fun f => congrArg (·.time? f) hview, fun f id hfile => ?_⟩
    exact .inl (View.hasFile_deleteFile.mp (hview ▸ hfile))
  | ok text =>
    dsimp only
    set f : FileGraph := ⟨c.path, text, _⟩
    have hfile : ∀ n ∈ f.nodes, n.file = "" ∨ n.file = c.path := by
      intro n hn
      rcases FileGraph.mem_nodes.mp hn with rfl | ⟨s, -, rfl⟩ | ⟨i, -, rfl⟩
      · exact .inr rfl
      · exact .inr rfl
      · exact .inl rfl
    have hedges : ∀ e ∈ f.edges, e.weight = none := fun e he => (FileGraph.structural_of_mem he).weight
    obtain ⟨hvalid, hwritten⟩ := apply_nodes_edges hremoved.valid f.nodes hedges
    have hnone : fault? c = none := by rw [fault?, htext]
    refine ⟨⟨hvalid, ?_, hremoved.weights⟩, fun q => ?_, fun q id hq => ?_⟩
    · refine hwritten ▸ hremoved.timed.write (fun n hn => (hfile n hn).imp_right fun heq => ?_) hedges ?_
      · simp [heq]
      · rw [List.map_append]
        exact List.subset_append_left _ _
    · exact (congrArg (·.time? q) hwritten).trans (congrArg (·.time? q) hview)
    · rcases View.hasFile_write (hwritten ▸ hq) with hold | ⟨n, hn, rfl⟩
      · exact .inl (View.hasFile_deleteFile.mp (hview ▸ hold))
      · exact .inr ⟨hnone, (hfile n hn).symm⟩

theorem Pass.Timed.replaceAll (h : p.Timed (found.map (·.1.path))) (rd : Reader) (hover : Option HoverSource)
    (cs : List Candidate) :
    let last := cs.foldl (Pass.replace rd hover) (p, found)
    last.1.Timed (last.2.map (·.1.path)) ∧
      (∀ f, (view last.1.store).time? f = if f ∈ cs.map (·.path) then none else (view p.store).time? f) ∧
      ∀ f id, (view last.1.store).HasFile f id →
        (view p.store).HasFile f id ∧ f ∉ cs.map (·.path) ∨ ∃ c ∈ cs, fault? c = none ∧ (f = c.path ∨ f = "") := by
  induction cs generalizing p found with
  | nil => exact ⟨h, fun _ => rfl, fun _ _ hfile => .inl ⟨hfile, List.not_mem_nil⟩⟩
  | cons c cs ih =>
    obtain ⟨hnext, htime, hfiles⟩ := h.replace rd hover c
    obtain ⟨hlast, htimes, hall⟩ := ih hnext
    refine ⟨hlast, fun f => ?_, fun f id hfile => ?_⟩
    · rw [List.foldl_cons, htimes, htime]
      by_cases hrest : f ∈ cs.map (·.path) <;> by_cases hc : f = c.path <;> simp [hrest, hc]
    · rcases hall f id hfile with ⟨hfile, hrest⟩ | ⟨c', hc', hnew⟩
      · rcases hfiles f id hfile with ⟨hold, hne⟩ | hnew
        · exact .inl ⟨hold, fun hmem => (List.mem_cons.mp hmem).elim hne hrest⟩
        · exact .inr ⟨c, List.mem_cons_self, hnew⟩
      · exact .inr ⟨c', List.mem_cons_of_mem c hc', hnew⟩

/-- Edges and external types leave files and times alone. -/
theorem Pass.Timed.writeResolved (h : p.Timed pending) {r : Resolved × Memo} (hr : r.1.Plain) :
    (p.writeResolved r).Timed pending ∧ (view (p.writeResolved r).store).time? = (view p.store).time? ∧
      ∀ f id, (view (p.writeResolved r).store).HasFile f id → (view p.store).HasFile f id ∨ f = "" := by
  obtain ⟨hvalid, hview⟩ := Pass.view_writeResolved h.valid r.2 hr.weight
  have hview : view (p.writeResolved r).store = ((view p.store).putNodes r.1.externals).putEdges r.1.edges := hview
  rw [hview]
  refine ⟨⟨hvalid, ?_, h.weights⟩, rfl, fun f id hfile => ?_⟩
  · exact hview ▸ h.timed.write (fun n hn => .inl (hr.file n hn)) hr.weight (List.Subset.refl _)
  · refine (View.hasFile_write hfile).imp_right ?_
    rintro ⟨n, hn, rfl⟩
    exact hr.file n hn

/-- Files that are related get their times. -/
theorem Pass.Timed.relateAll (h : p.Timed (found.map (·.1.path))) :
    (found.foldl Pass.relate p).Timed [] ∧
      (∀ f, (view (found.foldl Pass.relate p).store).time? f =
        ((latest (·.1.path) found f).map fun entry => entry.1.mtime).or ((view p.store).time? f)) ∧
      ∀ f id, (view (found.foldl Pass.relate p).store).HasFile f id → (view p.store).HasFile f id ∨ f = "" := by
  induction found generalizing p with
  | nil => exact ⟨h, fun _ => rfl, fun _ _ => .inl⟩
  | cons entry rest ih =>
    obtain ⟨hlinked, htime, hfiles⟩ := h.writeResolved (plain_relations p.store entry.2 p.memo)
    have hview : view (p.relate entry).store =
        (view (p.writeResolved (relations p.store entry.2 p.memo)).store).setTime entry.1.path
          entry.1.mtime := view_setMtime hlinked.valid _ entry.1.isTime_mtime
    have hnext : (p.relate entry).Timed (rest.map (·.1.path)) :=
      ⟨valid_setMtime hlinked.valid _ _, hview ▸ hlinked.timed.setTime _, hlinked.weights⟩
    obtain ⟨hlast, htimes, hall⟩ := ih hnext
    refine ⟨hlast, fun f => ?_, fun f id hfile => ?_⟩
    · rw [List.foldl_cons, htimes, hview, latest_cons]
      change ((latest _ rest f).map _).or (if f = entry.1.path then some _ else _) = _
      rw [htime]
      cases latest (·.1.path) rest f with
      | some _ => rfl
      | none =>
        by_cases hf : f = entry.1.path
        · simp [hf]
        · simp [hf, Ne.symm hf]
    · rcases hall f id hfile with hfile | hempty
      · rw [hview] at hfile
        exact hfiles f id hfile
      · exact .inr hempty

/-- The second half of a pass. -/
theorem Pass.Timed.linking {cleared : Pass σ × List (Candidate × FileGraph)}
    (h : cleared.1.Timed (cleared.2.map (·.1.path))) (replaced : List String) :
    (linking replaced cleared).Timed [] ∧
      (∀ f, (view (linking replaced cleared).store).time? f =
        ((latest (·.1.path) cleared.2 f).map fun entry => entry.1.mtime).or
          ((view cleared.1.store).time? f)) ∧
      ∀ f id, (view (linking replaced cleared).store).HasFile f id → (view cleared.1.store).HasFile f id ∨ f = "" := by
  obtain ⟨hrelated, htimes, hfiles⟩ := h.relateAll
  obtain ⟨hlinked, htime, hall⟩ := hrelated.writeResolved (plain_reattached hrelated.weights
    (cleared.2.foldl Pass.relate cleared.1).store replaced (cleared.2.foldl Pass.relate cleared.1).memo)
  refine ⟨hlinked, fun f => (congrFun htime f).trans (htimes f), fun f id hfile => ?_⟩
  exact (hall f id hfile).elim (hfiles f id) .inr

end Phases

/-! ## What a pass leaves -/

section Whole

open LawfulStore

variable {σ : Type} [Store σ] {s : σ} {force : Bool} {files : Dict Candidate} (hfiles : Dict.Sorted files)
  (hpath : ∀ {p c}, files.lookup p = some c → Candidate.path c = p)

include hfiles hpath

theorem mem_paths_staleCandidates {p : String} :
    p ∈ (staleCandidates s force files).map (·.path) ↔ ∃ c, files.lookup p = some c ∧ isStale s force (p, c) = true := by
  simp only [List.mem_map, mem_staleCandidates hfiles]
  constructor
  · rintro ⟨c, ⟨q, hq, hstale⟩, rfl⟩
    rw [hpath hq]
    exact ⟨c, hq, hstale⟩
  · rintro ⟨c, hc, hstale⟩
    exact ⟨c, ⟨p, hc, hstale⟩, hpath hc⟩

theorem lookup_of_mem_staleCandidates {c : Candidate} (hc : c ∈ staleCandidates s force files) :
    files.lookup c.path = some c ∧ isStale s force (c.path, c) = true := by
  obtain ⟨p, hp, hstale⟩ := (mem_staleCandidates hfiles).mp hc
  rw [hpath hp]
  exact ⟨hp, hstale⟩

/-- The times that the files get which were found. -/
theorem latest_found {found : List (Candidate × FileGraph)}
    (hfound : found.map (·.1) = (staleCandidates s force files).filter fun c => (fault? c).isNone) (p : String) :
    ((latest (·.1.path) found p).map fun entry => entry.1.mtime) = (files.lookup p).bind fun c =>
      if isStale s force (p, c) && (fault? c).isNone then some c.mtime else none := by
  have hread : ∀ {c}, c ∈ found.map (·.1) ↔ files.lookup c.path = some c ∧
      isStale s force (c.path, c) = true ∧ (fault? c).isNone = true := by
    intro c
    rw [hfound, List.mem_filter]
    refine ⟨fun ⟨hc, hnone⟩ => ?_, fun ⟨hc, hstale, hnone⟩ => ?_⟩
    · obtain ⟨hlookup, hstale⟩ := lookup_of_mem_staleCandidates hfiles hpath hc
      exact ⟨hlookup, hstale, hnone⟩
    · exact ⟨(mem_staleCandidates hfiles).mpr ⟨_, hc, hstale⟩, hnone⟩
  cases hlatest : latest (·.1.path) found p with
  | some entry =>
    obtain rfl := key_of_latest hlatest
    obtain ⟨hlookup, hstale, hnone⟩ := hread.mp (List.mem_map_of_mem (mem_of_latest hlatest))
    rw [hlookup, Option.bind_some, if_pos (by rw [hstale, hnone]; rfl)]
    rfl
  | none =>
    cases hlookup : files.lookup p with
    | none => rfl
    | some c =>
      obtain rfl := hpath hlookup
      have hnot : ¬(isStale s force (c.path, c) && (fault? c).isNone) = true := by
        intro hboth
        obtain ⟨hstale, hnone⟩ := (Bool.and_eq_true_iff).mp hboth
        obtain ⟨entry, hentry, heq⟩ := List.mem_map.mp (hread.mpr ⟨hlookup, hstale, hnone⟩)
        exact latest_eq_none_iff.mp hlatest entry hentry (congrArg Candidate.path heq)
      rw [Option.bind_some, if_neg hnot]
      rfl

variable [LawfulStore σ]

/-- The first half of a pass. -/
theorem timed_cleared (rd : Reader) (hover : Option HoverSource) (force : Bool) (h : Valid s)
    (hs : (view s).Timed []) (asked : List HoverCall) :
    let cleared := (staleCandidates s force files).foldl (Pass.replace rd hover)
      ((vanishedFiles s files).foldl Pass.vanish (.start force files asked s), [])
    cleared.1.Timed (cleared.2.map (·.1.path)) ∧
      (cleared.2.map (·.1) = (staleCandidates s force files).filter fun c => (fault? c).isNone) ∧
      (∀ p, (view cleared.1.store).time? p = (files.lookup p).bind fun c =>
        if isStale s force (p, c) then none else (view s).time? p) ∧
      ∀ f id, (view cleared.1.store).HasFile f id →
        (f = "" ∨ (files.lookup f).isSome) ∧ f ∉ (staleCandidates s force files).map (·.path) ∨
          ∃ c ∈ staleCandidates s force files, fault? c = none ∧ (f = c.path ∨ f = "") := by
  intro cleared
  have hstart : (Pass.start force files asked s).Timed [] := ⟨h, hs, List.forall_mem_nil _⟩
  obtain ⟨hvanished, htime, hkept⟩ := hstart.vanish (vanishedFiles s files)
  obtain ⟨hcleared, htimes, hall⟩ := @Pass.Timed.replaceAll _ _ _ [] _ hvanished rd hover (staleCandidates s force files)
  refine ⟨hcleared, ?_, fun p => ?_, fun f id hfile => ?_⟩
  · exact (Pass.report_replace (staleCandidates s force files) _).2
  · rw [htimes, htime]
    simp only [mem_paths_staleCandidates hfiles hpath, mem_vanishedFiles h]
    cases hlookup : files.lookup p with
    | none =>
      cases htimed : (view s).time? p with
      | none => simpa [Pass.start] using htimed
      | some _ => simp
    | some c => simp [Pass.start]
  · refine (hall f id hfile).imp_left fun ⟨hfile, hnew⟩ => ⟨?_, hnew⟩
    obtain ⟨⟨n, hn, rfl⟩, hgone⟩ := hkept f id hfile
    refine (hs.time hn).imp_right fun htimed => ?_
    -- what has a time and no file is gone
    refine Option.isSome_iff_ne_none.mpr fun hnone => hgone ((mem_vanishedFiles h).mpr ⟨?_, hnone⟩)
    exact htimed.resolve_right List.not_mem_nil

variable (rd : Reader) (hover : Option HoverSource) (force : Bool) (h : Valid s) (hs : (view s).Timed [])
  (asked : List HoverCall)

include h hs

/-- A pass leaves a graph in order, where modules and external types are there for an edge. -/
theorem timed_index :
    let t := (index rd hover force files asked s).store
    Valid t ∧ (view t).Timed [] ∧
      ∀ id n, (view t).node? id = some n → n.kind ∈ [moduleKind, externalType] → (view t).Touched id := by
  obtain ⟨hcleared, -⟩ := timed_cleared hfiles hpath rd hover force h hs asked
  obtain ⟨hlinked, -⟩ := hcleared.linking (staleFiles s force files ++ vanishedFiles s files)
  rw [index_eq]
  have hview := view_prune hlinked.valid [moduleKind, externalType]
  refine ⟨valid_prune hlinked.valid _, ?_, fun id n hn hkind => ?_⟩
  · exact hview ▸ hlinked.timed.prune _
  · obtain ⟨-, hkept⟩ := View.node?_prune.mp (hview ▸ hn)
    exact hview.symm ▸ hkept.resolve_left (not_not_intro hkind)

/-- The times after a pass: a file that was read has its own, one that was not the one before, and paths without a
file none. -/
theorem time?_index (p : String) :
    (view (index rd hover force files asked s).store).time? p = (files.lookup p).bind fun c =>
      if isStale s force (p, c) then if (fault? c).isNone then some c.mtime else none
      else (view s).time? p := by
  obtain ⟨hcleared, hfound, htime, -⟩ := timed_cleared hfiles hpath rd hover force h hs asked
  obtain ⟨hlinked, htimes, -⟩ := hcleared.linking (staleFiles s force files ++ vanishedFiles s files)
  rw [index_eq]
  refine (congrArg (·.time? p) (view_prune hlinked.valid [moduleKind, externalType])).trans ((htimes p).trans ?_)
  rw [latest_found hfiles hpath hfound, htime]
  cases files.lookup p with
  | none => rfl
  | some c =>
    simp only [Option.bind_some]
    cases isStale s force (p, c) <;> cases fault? c <;> rfl

section Failed

variable {p : String} {c : Candidate} (hc : files.lookup p = some c) (hstale : isStale s force (p, c) = true)
  (hfault : fault? c ≠ none)

include hc hfault

omit hs h [LawfulStore σ] in
theorem path_ne_of_text {c' : Candidate} (hc' : c' ∈ staleCandidates s force files) (hnone : fault? c' = none) :
    p ≠ c'.path := by
  rintro rfl
  obtain ⟨hlookup, -⟩ := lookup_of_mem_staleCandidates hfiles hpath hc'
  rw [hlookup, Option.some.injEq] at hc
  exact hfault (hc ▸ hnone)

include hstale

/-- Where no other file is found, nothing is there at all. -/
theorem node?_index_of_alone (hempty : p = "") (hone : ∀ q, (files.lookup q).isSome → q = p) (id : String) :
    (view (index rd hover force files asked s).store).node? id = none := by
  obtain ⟨hcleared, hfound, -, hkept⟩ := timed_cleared hfiles hpath rd hover force h hs asked
  have htext : ∀ c' ∈ staleCandidates s force files, fault? c' ≠ none := by
    intro c' hc' hnone
    obtain ⟨hlookup, -⟩ := lookup_of_mem_staleCandidates hfiles hpath hc'
    exact path_ne_of_text hfiles hpath force hc hfault hc' hnone
      (hone c'.path (Option.isSome_of_eq_some hlookup)).symm
  rw [index_eq]
  set cleared := (staleCandidates s force files).foldl (Pass.replace rd hover)
    ((vanishedFiles s files).foldl Pass.vanish (.start force files asked s), [])
  have hnodes : ∀ id, (view cleared.1.store).node? id = none := by
    intro id
    refine Option.eq_none_iff_forall_ne_some.mpr fun n hn => ?_
    rcases hkept n.file id ⟨n, hn, rfl⟩ with ⟨hfile, hother⟩ | ⟨c', hc', hnone, -⟩
    · refine hother ((mem_paths_staleCandidates hfiles hpath).mpr ⟨c, ?_, ?_⟩)
      all_goals rw [hfile.elim (·.trans hempty.symm) (hone n.file)]
      · exact hc
      · exact hstale
    · exact htext c' hc' hnone
  have hnone : cleared.2 = [] := by
    rw [← List.map_eq_nil_iff, hfound, List.filter_eq_nil_iff]
    exact fun c' hc' hnone => htext c' hc' (Option.isNone_iff_eq_none.mp hnone)
  have hlinked : (linking (staleFiles s force files ++ vanishedFiles s files) cleared).store = cleared.1.store := by
    rw [show cleared = (cleared.1, []) from Prod.ext rfl hnone]
    exact store_linking_nil (fun id => (node?_eq hcleared.valid id).trans (hnodes id)) _
  have hview := view_prune hcleared.valid [moduleKind, externalType]
  change (view (Store.prune _ (linking _ cleared).store)).node? id = none
  rw [hlinked, hview]
  simp [View.prune, hnodes]

/-- Nothing is there of a file that failed, which has to be the only one if it has no name of its own. -/
theorem not_hasFile_index (hroot : p = "" → ∀ q, (files.lookup q).isSome → q = p) (id : String) :
    ¬(view (index rd hover force files asked s).store).HasFile p id := by
  rintro ⟨n, hn, hfile⟩
  by_cases hp : p = ""
  · rw [node?_index_of_alone hfiles hpath rd hover force h hs asked hc hstale hfault hp (hroot hp)] at hn
    cases hn
  · obtain ⟨hcleared, hfound, -, hkept⟩ := timed_cleared hfiles hpath rd hover force h hs asked
    obtain ⟨hlinked, -, hall⟩ := hcleared.linking (staleFiles s force files ++ vanishedFiles s files)
    rw [index_eq] at hn
    have hn := (View.node?_prune.mp (view_prune hlinked.valid [moduleKind, externalType] ▸ hn)).1
    rcases hall p id ⟨n, hn, hfile⟩ with hleft | hempty
    · rcases hkept p id hleft with ⟨-, hother⟩ | ⟨c', hc', hnone, heq | hempty⟩
      · exact hother ((mem_paths_staleCandidates hfiles hpath).mpr ⟨c, hc, hstale⟩)
      · exact path_ne_of_text hfiles hpath force hc hfault hc' hnone heq
      · exact hp hempty
    · exact hp hempty

end Failed

end Whole

end CodeIndex.Graph
