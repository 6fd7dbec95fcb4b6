import CodeIndex.Proofs.Graph.Partway

/-!
# Passes that stop

Up to the edges that were set aside, every front of the writes of a pass leaves a graph that is partway between
the one before the pass and the one that the pass has before it prunes (`index_course`). So whatever passes were
made, finished or not, the next one finds the graph orderly (`AfterStops.orderly`).
-/

namespace CodeIndex.Graph

/-- The file that a write takes out of the graph. -/
def Write.removed? : Write → Option String
  | .deleteFile file => some file
  | _ => none

/-- The file that a write marks as indexed. -/
def Write.marked? : Write → Option String
  | .mtime file _ => some file
  | _ => none

def removedBy (ws : List Write) : List String := ws.filterMap Write.removed?

def markedBy (ws : List Write) : List String := ws.filterMap Write.marked?

theorem removedBy_concat (ws : List Write) (x : Write) : removedBy (ws ++ [x]) = removedBy ws ++ x.removed?.toList := by
  rw [removedBy, List.filterMap_append]
  cases hx : x.removed? <;> simp [hx, removedBy]

theorem markedBy_concat (ws : List Write) (x : Write) : markedBy (ws ++ [x]) = markedBy ws ++ x.marked?.toList := by
  rw [markedBy, List.filterMap_append]
  cases hx : x.marked? <;> simp [hx, markedBy]

variable {σ : Type} [Store σ]

/-- What a pass leaves that stops after some of its writes. -/
def stoppedAfter (count : Nat) (ws : List Write) (s : σ) : σ := (ws.take count).foldl Write.apply s

theorem stoppedAfter_of_le {count : Nat} {ws : List Write} (h : ws.length ≤ count) (s : σ) :
    stoppedAfter count ws s = ws.foldl Write.apply s := by
  rw [stoppedAfter, List.take_of_length_le h]

/-! ## Following a pass -/

/-- The store of a pass is what its writes made of `s`, and each front of them leaves what `Q` says. -/
structure Pass.Follows (s : σ) (Q : List Write → σ → Prop) (p : Pass σ) : Prop where
  store : p.store = p.writes.foldl Write.apply s
  front : ∀ count, Q (p.writes.take count) (stoppedAfter count p.writes s)

section Follows

variable {s : σ} {Q : List Write → σ → Prop} {p : Pass σ}

theorem Pass.Follows.now (h : p.Follows s Q) : Q p.writes p.store := by
  have hnow := h.front p.writes.length
  rwa [List.take_length, stoppedAfter_of_le (Nat.le_refl _), ← h.store] at hnow

theorem Pass.Follows.write (h : p.Follows s Q) {x : Write} (hx : Q (p.writes ++ [x]) (x.apply p.store)) :
    (p.write x).Follows s Q := by
  have hstore : (p.write x).store = (p.writes ++ [x]).foldl Write.apply s := by
    rw [List.foldl_append, ← h.store]
    rfl
  refine ⟨hstore, fun count => ?_⟩
  change Q ((p.writes ++ [x]).take count) (((p.writes ++ [x]).take count).foldl Write.apply s)
  by_cases hcount : count ≤ p.writes.length
  · rw [List.take_append_of_le_length hcount]
    exact h.front count
  · have hall : (p.writes ++ [x]).length ≤ count := by
      rw [List.length_append, List.length_singleton]
      omega
    rw [List.take_of_length_le hall, ← hstore]
    exact hx

end Follows

@[simp]
theorem Pass.removedBy_write (p : Pass σ) (x : Write) :
    removedBy (p.write x).writes = removedBy p.writes ++ x.removed?.toList := removedBy_concat p.writes x

@[simp]
theorem Pass.markedBy_write (p : Pass σ) (x : Write) :
    markedBy (p.write x).writes = markedBy p.writes ++ x.marked?.toList := markedBy_concat p.writes x

theorem Pass.removedBy_remove (p : Pass σ) (file : String) :
    removedBy (p.remove file).writes = removedBy p.writes ++ [file] := removedBy_concat _ _

theorem Pass.markedBy_remove (p : Pass σ) (file : String) : markedBy (p.remove file).writes = markedBy p.writes :=
  (markedBy_concat _ _).trans (List.append_nil _)

/-! ## Partway all along -/

section Pass

open LawfulStore

variable [LawfulStore σ] {s : σ} {v w : View} {gone : List String} {p : Pass σ} {file : String}

/-- The store is one on the way from `v` to `w`, as far as the writes go. -/
def Underway (v w : View) (gone : List String) (ws : List Write) (t : σ) : Prop :=
  Valid t ∧ Partway v w gone (removedBy ws) (markedBy ws) (view t)

section Underway

variable {ws : List Write} {t : σ} (h : Underway v w gone ws t)
include h

theorem Underway.deleteFile (hfile : file ∈ gone) (hinner : InnerPath file) (hnew : file ∉ removedBy ws) :
    Underway v w gone (ws ++ [.deleteFile file]) ((Write.deleteFile file).apply t) := by
  refine ⟨valid_deleteFile h.1 file, view_deleteFile h.1 file ▸ ?_⟩
  simpa [removedBy_concat, markedBy_concat, Write.removed?, Write.marked?] using h.2.remove hfile hinner hnew

theorem Underway.nodes {ns : List Node} (hns : Partway v w gone (removedBy ws) (markedBy ws) ((view t).putNodes ns)) :
    Underway v w gone (ws ++ [.nodes ns]) ((Write.nodes ns).apply t) := by
  obtain ⟨hvalid, hview⟩ := apply_nodes h.1 ns
  refine ⟨hvalid, ?_⟩
  rw [hview]
  simpa [removedBy_concat, markedBy_concat, Write.removed?, Write.marked?] using hns

theorem Underway.edges {es : List Edge} (hadmits : ∀ e ∈ es, (view t).Admits e)
    (hes : ∀ e ∈ es, homeOf e.source ∈ removedBy ws ∧ homeOf e.source ∉ markedBy ws ∧ (w.edge? e.key).isSome ∧
      (homeOf e.target ∈ removedBy ws ∨ homeOf e.target ∉ gone)) :
    Underway v w gone (ws ++ [.edges es]) ((Write.edges es).apply t) := by
  obtain ⟨hvalid, hview⟩ := apply_edges h.1 fun e he => (hadmits e he).weight
  refine ⟨hvalid, ?_⟩
  rw [hview]
  simpa [removedBy_concat, markedBy_concat, Write.removed?, Write.marked?] using h.2.putEdges hadmits hes

theorem Underway.mark {time : Double} (hnumber : time.IsTime) (hfile : file ∈ removedBy ws)
    (htime : w.time? file = some time)
    (hnode : ∀ id, homeOf id = file → (view t).node? id = w.node? id)
    (hedge : ∀ k, homeOf k.source = file → (view t).edge? k = w.edge? k) :
    Underway v w gone (ws ++ [.mtime file time]) ((Write.mtime file time).apply t) := by
  refine ⟨valid_setMtime h.1 file _, view_setMtime h.1 file hnumber ▸ ?_⟩
  simpa [removedBy_concat, markedBy_concat, Write.removed?, Write.marked?] using h.2.mark hfile htime hnode hedge

end Underway

theorem Pass.Follows.remove (h : p.Follows s (Underway v w gone)) (hfile : file ∈ gone) (hinner : InnerPath file)
    (hnew : file ∉ removedBy p.writes) : (p.remove file).Follows s (Underway v w gone) := by
  have hnext := h.write (h.now.deleteFile hfile hinner hnew)
  exact ⟨hnext.store, hnext.front⟩

/-- Nodes and then edges between them. -/
theorem Pass.Follows.nodes_edges (h : p.Follows s (Underway v w gone)) {ns : List Node} {es : List Edge}
    (hns : Partway v w gone (removedBy p.writes) (markedBy p.writes) ((view p.store).putNodes ns))
    (hadmits : ∀ e ∈ es, ((view p.store).putNodes ns).Admits e)
    (hes : ∀ e ∈ es, homeOf e.source ∈ removedBy p.writes ∧ homeOf e.source ∉ markedBy p.writes ∧
      (w.edge? e.key).isSome ∧ (homeOf e.target ∈ removedBy p.writes ∨ homeOf e.target ∉ gone)) :
    ((p.write (.nodes ns)).write (.edges es)).Follows s (Underway v w gone) := by
  have hnodes := h.write (h.now.nodes hns)
  have hview : view (p.write (.nodes ns)).store = (view p.store).putNodes ns := (apply_nodes h.now.1 ns).2
  refine hnodes.write (hnodes.now.edges (hview.symm ▸ hadmits) fun e he => ?_)
  simpa [Write.removed?, Write.marked?] using hes e he

theorem Pass.Follows.vanish (h : p.Follows s (Underway v w gone)) {names : List String}
    (hnames : ∀ file ∈ names, file ∈ gone ∧ InnerPath file) (hnodup : (removedBy p.writes ++ names).Nodup) :
    let q := names.foldl Pass.vanish p
    q.Follows s (Underway v w gone) ∧ removedBy q.writes = removedBy p.writes ++ names ∧
      markedBy q.writes = markedBy p.writes := by
  induction names generalizing p with
  | nil => exact ⟨h, (List.append_nil _).symm, rfl⟩
  | cons file rest ih =>
    obtain ⟨hfile, hinner⟩ := hnames file List.mem_cons_self
    have hnew : file ∉ removedBy p.writes := fun hmem =>
      (List.nodup_append.mp hnodup).2.2 _ hmem _ List.mem_cons_self rfl
    have hremoved := h.remove hfile hinner hnew
    have hnext : (p.vanish file).Follows s (Underway v w gone) := ⟨hremoved.store, hremoved.front⟩
    have hwrites : removedBy (p.vanish file).writes = removedBy p.writes ++ [file] := Pass.removedBy_remove p file
    have hmarks : markedBy (p.vanish file).writes = markedBy p.writes := Pass.markedBy_remove p file
    obtain ⟨hlast, hall, hmarked⟩ := ih hnext (fun f hf => hnames f (List.mem_cons_of_mem file hf))
      (by rw [hwrites, List.append_assoc]; exact hnodup)
    exact ⟨hlast, by rw [List.foldl_cons, hall, hwrites, List.append_assoc]; rfl, hmarked.trans hmarks⟩

/-- In `w` the file has what it gives. -/
structure View.Gives (w : View) (f : FileGraph) : Prop where
  node : ∀ id, homeOf id = f.path → w.node? id = latest Node.id f.nodes id
  edge : ∀ e ∈ f.edges, (w.edge? e.key).isSome

theorem Pass.Follows.replace {rd : Reader} {c : Candidate} {found : List (Candidate × FileGraph)}
    (h : p.Follows s (Underway v w gone)) (hfile : c.path ∈ gone)
    (hnew : c.path ∉ removedBy p.writes) (hgives : ∀ f, FileGraph.of? rd c = some f → w.Gives f)
    (hinner : ∀ q ∈ gone, InnerPath q) :
    let q := (Pass.replace rd none (p, found) c).1
    q.Follows s (Underway v w gone) ∧ removedBy q.writes = removedBy p.writes ++ [c.path] ∧
      markedBy q.writes = markedBy p.writes := by
  have hremoved := h.remove hfile (hinner _ hfile) hnew
  have hwrites := Pass.removedBy_remove p c.path
  have hmarks := Pass.markedBy_remove p c.path
  cases htext : c.text with
  | error fault =>
    simp only [Pass.replace, htext]
    exact ⟨⟨hremoved.store, hremoved.front⟩, hwrites, hmarks⟩
  | ok text =>
    obtain ⟨f, hf, hdef⟩ : ∃ f, FileGraph.of? rd c = some f ∧ f = ⟨c.path, text, _⟩ :=
      ⟨_, FileGraph.of?_of_text rd htext, rfl⟩
    have hpath := FileGraph.path_of? hf
    have hf' : ProperPath f.path := hpath ▸ (hinner _ hfile).proper
    have hmem : f.path ∈ removedBy (p.remove c.path).writes := by
      rw [hwrites, hpath]
      exact List.mem_append_right _ (List.mem_singleton_self _)
    have hunmarked : f.path ∉ markedBy (p.remove c.path).writes := by
      rw [hmarks, hpath]
      exact fun hmarked => hnew (h.now.2.mem_removed hmarked).1
    have hnodes := hremoved.now.2.putNodes (fun n hn => FileGraph.atHome_of_mem hf' hn) fun {id n} hn => by
      obtain rfl := key_of_latest hn
      rcases FileGraph.owns_or_nowhere (mem_of_latest hn) with ⟨howns, -⟩ | ⟨hhome, -⟩
      · have hhome : homeOf n.id = f.path := howns.homeOf hf'
        exact .inr ⟨hhome ▸ hmem, ((hgives f hf).node n.id hhome).trans hn⟩
      · exact .inl (FileGraph.outside_of_mem hf' (mem_of_latest hn) hhome)
    -- the edges stay in the file or end at a module
    have hedges := hremoved.nodes_edges hnodes (fun e he => FileGraph.admits_of_mem hf' he _) fun e he => by
      have hstructural := FileGraph.structural_of_mem he
      rw [hstructural.source.homeOf hf']
      refine ⟨hmem, hunmarked, (hgives f hf).edge e he, ?_⟩
      rcases hstructural.target with howns | ⟨i, hmodule⟩
      · exact .inl (howns.homeOf hf' ▸ hmem)
      · refine .inr fun hgone => (hinner _ hgone).proper.ne_nowhere ?_
        rw [hmodule, homeOf_moduleNode]
    simp only [Pass.replace, htext, extractWithHover, ← hdef]
    refine ⟨⟨hedges.store, hedges.front⟩, ?_, ?_⟩
    · simp [Write.removed?, hwrites]
    · simp [Write.marked?, hmarks]

theorem Pass.Follows.replaceAll {rd : Reader} {cs : List Candidate} {found : List (Candidate × FileGraph)}
    (h : p.Follows s (Underway v w gone)) (hcs : ∀ c ∈ cs, c.path ∈ gone ∧
      ∀ f, FileGraph.of? rd c = some f → w.Gives f)
    (hnodup : (removedBy p.writes ++ cs.map (·.path)).Nodup) (hinner : ∀ q ∈ gone, InnerPath q) :
    let q := (cs.foldl (Pass.replace rd none) (p, found)).1
    q.Follows s (Underway v w gone) ∧ removedBy q.writes = removedBy p.writes ++ cs.map (·.path) ∧
      markedBy q.writes = markedBy p.writes := by
  induction cs generalizing p found with
  | nil => exact ⟨h, (List.append_nil _).symm, rfl⟩
  | cons c cs ih =>
    obtain ⟨hfile, hgives⟩ := hcs c List.mem_cons_self
    have hnew : c.path ∉ removedBy p.writes := fun hmem =>
      (List.nodup_append.mp hnodup).2.2 _ hmem _ List.mem_cons_self rfl
    obtain ⟨hnext, hwrites, hmarks⟩ := @Pass.Follows.replace _ _ _ _ _ _ _ _ rd c found h hfile hnew hgives hinner
    obtain ⟨hlast, hall, hmarked⟩ := @ih _ (Pass.replace rd none (p, found) c).2 hnext
      (fun d hd => hcs d (List.mem_cons_of_mem c hd))
      (by rw [hwrites, List.append_assoc]; exact hnodup)
    refine ⟨hlast, ?_, hmarked.trans hmarks⟩
    rw [List.foldl_cons]
    exact hall.trans (by rw [hwrites, List.append_assoc]; rfl)

/-- A file can be related after `p₀` wrote its nodes: in `w` it has the edges of its links beside those in `p₀`. -/
structure Pass.Relatable (p₀ : Pass σ) (w : View) (gone : List String) (entry : Candidate × FileGraph) : Prop where
  path : entry.2.path = entry.1.path
  proper : ProperPath entry.2.path
  mem : entry.1.path ∈ gone
  owns : ∀ id, entry.2.Owns id → ((view p₀.store).node? id).isSome
  edge : ∀ k, homeOf k.source = entry.1.path → w.edge? k =
    (latest Edge.key (entry.2.linkEdges (resolve p₀.store)) k).or ((view p₀.store).edge? k)
  time : w.time? entry.1.path = some entry.1.mtime

theorem Pass.Relatable.source {p₀ : Pass σ} {entry : Candidate × FileGraph} (h : p₀.Relatable w gone entry) {e : Edge}
    (he : e ∈ entry.2.linkEdges (resolve p₀.store)) :
    entry.2.Owns e.source ∧ homeOf e.source = entry.1.path := by
  obtain ⟨l, -, -, howns⟩ := FileGraph.source_of_mem_linkEdges he
  exact ⟨howns, (howns.homeOf h.proper).trans h.path⟩

section Relate

variable {p₀ : Pass σ} {done : List (Candidate × FileGraph)} {entry : Candidate × FileGraph}

/-- Files that were related change nothing for the others. -/
theorem Pass.Relates.edge?_of_apart (h : p₀.Relates p done) {k : EdgeKey}
    (hdone : ∀ other ∈ done, p₀.Relatable w gone other ∧ other.1.path ≠ homeOf k.source) :
    (view p.store).edge? k = (view p₀.store).edge? k := by
  have hnone : latest Edge.key (done.flatMap (·.2.linkEdges (resolve p₀.store))) k = none := by
    refine latest_eq_none_iff.mpr fun e he hkey => ?_
    obtain ⟨other, hother, he⟩ := List.mem_flatMap.mp he
    obtain ⟨hrelatable, hapart⟩ := hdone other hother
    exact hapart ((hrelatable.source he).2.symm.trans (congrArg (fun k => homeOf k.source) hkey))
  rw [h.extended.edge, hnone, Option.none_or]

variable (h₀ : Valid p₀.store) (hnodes : ∀ id, homeOf id ≠ nowhere → (view p₀.store).node? id = w.node? id)
include h₀ hnodes

theorem Pass.Follows.relate (h : p.Follows s (Underway v w gone)) (hrelates : p₀.Relates p done)
    (hall : ∀ q ∈ gone, q ∈ removedBy p.writes) (hentry : p₀.Relatable w gone entry)
    (hdone : ∀ other ∈ done, p₀.Relatable w gone other ∧ other.1.path ≠ entry.1.path)
    (hunmarked : entry.1.path ∉ markedBy p.writes) :
    (p.relate entry).Follows s (Underway v w gone) ∧ removedBy (p.relate entry).writes = removedBy p.writes ∧
      markedBy (p.relate entry).writes = markedBy p.writes ++ [entry.1.path] := by
  have hρ : ∀ name, resolve p.store name = resolve p₀.store name :=
    hrelates.extended.resolve_eq h₀ hrelates.valid
  obtain ⟨hlinks, hsound, -⟩ := relations_spec hρ hrelates.memo entry.2
  set r := relations p.store entry.2 p.memo
  have hknown : ∀ id, (entry.2.Owns id ∨ ∃ name, resolve p₀.store name = some id) → ((view p.store).node? id).isSome :=
    fun id hid => hrelates.extended.isSome <| hid.elim (hentry.owns id) fun hname =>
      hname.elim fun _ hname => isSome_of_resolve h₀ hname
  have hsource : ∀ e ∈ r.1.edges, entry.2.Owns e.source ∧ homeOf e.source = entry.1.path := fun e he =>
    hentry.source (hlinks ▸ he)
  have hsources : ∀ e ∈ r.1.edges, ((view p.store).node? e.source).isSome ∧ homeOf e.source ≠ nowhere := fun e he =>
    ⟨hrelates.extended.isSome (hentry.owns _ (hsource e he).1),
      (hsource e he).2 ▸ hentry.path ▸ hentry.proper.ne_nowhere⟩
  have hedges := h.nodes_edges (h.now.2.putOutside (fun n hn => .inr (hsound.externals n hn)) hsound.atHome)
    (hsound.admits hknown hsources) fun e he => by
      rw [(hsource e he).2]
      refine ⟨hall _ hentry.mem, hunmarked, ?_, (em (homeOf e.target ∈ gone)).imp (hall _) id⟩
      rw [hentry.edge _ (hsource e he).2, Option.isSome_or, Bool.or_eq_true]
      exact .inl (isSome_latest (hlinks ▸ he))
  obtain ⟨-, hextends, -⟩ := Pass.writeResolved_spec hrelates.valid hrelates.extended.wf r.2 hsound hknown hsources
  have hmark := hedges.write (hedges.now.mark entry.1.isTime_mtime
    (by simpa [Write.removed?] using hall _ hentry.mem) hentry.time
    (fun id hid => by
      have hhome : homeOf id ≠ nowhere := hid ▸ hentry.path ▸ hentry.proper.ne_nowhere
      exact (hextends.node (.inr hhome)).trans ((hrelates.extended.node (.inr hhome)).trans (hnodes id hhome)))
    fun k hk => by
      refine (hextends.edge k).trans ?_
      rw [hentry.edge k hk, hlinks, hrelates.edge?_of_apart (hk ▸ hdone)])
  refine ⟨⟨hmark.store, hmark.front⟩, ?_, ?_⟩
  · simp [Pass.relate, Pass.writeResolved, Write.removed?]
  · simp [Pass.relate, Pass.writeResolved, Write.marked?]

theorem Pass.Follows.relateAll {rest : List (Candidate × FileGraph)} (h : p.Follows s (Underway v w gone))
    (hrelates : p₀.Relates p done) (hall : ∀ q ∈ gone, q ∈ removedBy p.writes)
    (hentries : ∀ entry ∈ done ++ rest, p₀.Relatable w gone entry)
    (hnodup : ((done ++ rest).map (·.1.path)).Nodup) (hmarked : markedBy p.writes = done.map (·.1.path)) :
    (rest.foldl Pass.relate p).Follows s (Underway v w gone) ∧
      p₀.Relates (rest.foldl Pass.relate p) (done ++ rest) := by
  induction rest generalizing p done with
  | nil => exact ⟨h, (List.append_nil done).symm ▸ hrelates⟩
  | cons entry rest ih =>
    have hentry := hentries entry (List.mem_append_right _ List.mem_cons_self)
    have hapart : ∀ other ∈ done, other.1.path ≠ entry.1.path := by
      rw [List.map_append, List.nodup_append] at hnodup
      exact fun other hother => hnodup.2.2 _ (List.mem_map_of_mem hother) _ List.mem_cons_self
    have hunmarked : entry.1.path ∉ markedBy p.writes := by
      rw [hmarked, List.mem_map]
      exact fun hother => hother.elim fun other hother => hapart other hother.1 hother.2
    obtain ⟨hnext, hremoved, hmarks⟩ := h.relate h₀ hnodes hrelates hall hentry
      (fun other hother => ⟨hentries other (List.mem_append_left _ hother), hapart other hother⟩) hunmarked
    have happend : done ++ [entry] ++ rest = done ++ entry :: rest := List.append_assoc _ _ _
    have hlast := ih hnext (hrelates.relate h₀ hentry.proper hentry.owns) (hremoved.symm ▸ hall)
      (happend.symm ▸ hentries) (happend.symm ▸ hnodup) (by rw [hmarks, hmarked, List.map_append]; rfl)
    exact happend ▸ hlast

end Relate

/-! ## Whole passes -/

/-- The course of a pass: the writes `ws`, then the edges that were set aside, which give `linked`, and pruning. -/
structure Course (rd : Reader) (files : Dict Candidate) (gone : List String) (s : σ) (pass : Pass σ)
    (ws : List Write) (linked : σ) : Prop where
  writes : ∃ es, pass.writes = ws ++ [.edges es, .prune [moduleKind, externalType]] ∧
    linked = (Write.edges es).apply (ws.foldl Write.apply s)
  store : pass.store = Store.prune [moduleKind, externalType] linked
  valid : Valid linked
  orderly : (view linked).Orderly
  indexed : ∃ moved, Indexed rd files gone (resolve linked) moved (view s) (view linked)
  front : ∀ count, Underway (view s) (view linked) gone (ws.take count) (stoppedAfter count ws s)

variable {rd : Reader} {files : Dict Candidate} {force : Bool}

theorem Indexed.gives {ρ : String → Option String} {moved : List Edge} (h : Indexed rd files gone ρ moved v w)
    (hfiles : Filed files) {f : FileGraph} (hmem : f.path ∈ gone) (hf : graphOf rd files f.path = some f) :
    w.Gives f where
  node id hid := by
    rw [h.node id (hid ▸ (h.proper _ hmem).ne_nowhere), if_pos (hid ▸ hmem), hid, hf, Option.bind_some]
  edge e he := by
    have hsource : homeOf e.key.source = f.path :=
      (FileGraph.structural_of_mem he).source.homeOf (hfiles.path_graphOf hf).2
    rw [h.edge, if_pos (hsource ▸ hmem), hsource, hf]
    exact isSome_latest (List.mem_append_left _ he)

/-- Below a directory there is nothing of a root that is a file. -/
theorem View.Orderly.rooted {v : View} (h : v.Orderly) (hroot : files.lookup "" = none) : v.Rooted files where
  proper p hp := (h.times hp).proper
  alone htime := absurd rfl (h.times htime).ne_empty
  source hfile := by
    rcases hfile with htime | hfound
    · exact absurd rfl (h.times htime).ne_empty
    · rw [hroot] at hfound
      cases hfound

theorem inner_of_replaced (h : Valid s) (hs : (view s).Orderly) (hfiles : Filed files) (hroot : files.lookup "" = none)
    (hfile : file ∈ vanishedFiles s files ++ staleFiles s force files) : InnerPath file := by
  rcases List.mem_append.mp hfile with hvanished | hstale
  · exact hs.times ((mem_vanishedFiles h).mp hvanished).1
  · obtain ⟨c, hc, -⟩ := (mem_staleFiles h hfiles).mp hstale
    refine ⟨hfiles.proper hc, ?_⟩
    rintro rfl
    rw [hroot] at hc
    cases hc

section Start

variable {start : Pass σ} {moved : List Edge} (h : Valid start.store) (hs : (view start.store).Orderly)
  (hfiles : Filed files) (hroot : files.lookup "" = none)
  (hindexed : Indexed rd files (vanishedFiles start.store files ++ staleFiles start.store force files)
    (resolve (clearing rd force files start).1.store) moved (view start.store) w)
include h hs hfiles hroot hindexed

/-- The files that are gone and those that are replaced. -/
theorem clearing_follows (hwrites : start.writes = []) :
    let gone := vanishedFiles start.store files ++ staleFiles start.store force files
    let q := (clearing rd force files start).1
    q.Follows start.store (Underway (view start.store) w gone) ∧ removedBy q.writes = gone ∧
      markedBy q.writes = [] := by
  intro gone q
  have hinner : ∀ file ∈ gone, InnerPath file := fun file hfile => inner_of_replaced h hs hfiles hroot hfile
  have hnone : removedBy start.writes = [] ∧ markedBy start.writes = [] := by rw [hwrites]; exact ⟨rfl, rfl⟩
  have hstart : start.Follows start.store (Underway (view start.store) w gone) := by
    refine ⟨by rw [hwrites]; rfl, fun count => ?_⟩
    rw [stoppedAfter, hwrites, List.take_nil]
    exact ⟨h, Partway.start hs w gone⟩
  obtain ⟨hvanished, hremoved, hmarked⟩ := hstart.vanish
    (fun file hfile => ⟨List.mem_append_left _ hfile, hinner file (List.mem_append_left _ hfile)⟩)
    (show (removedBy start.writes ++ vanishedFiles start.store files).Nodup by
      rw [hnone.1]
      exact (nodup_indexedFiles h).filter _)
  rw [hnone.1, List.nil_append] at hremoved
  have hpaths : (staleCandidates start.store force files).map (·.path) = staleFiles start.store force files :=
    map_path_staleCandidates h hfiles
  have hgives : ∀ c ∈ staleCandidates start.store force files, c.path ∈ gone ∧
      ∀ f, FileGraph.of? rd c = some f → w.Gives f := by
    intro c hc
    obtain ⟨p, hp, hlookup⟩ := List.mem_filterMap.mp hc
    obtain rfl := hfiles.path hlookup
    have hmem : c.path ∈ gone := List.mem_append_right _ hp
    refine ⟨hmem, fun f hf => ?_⟩
    have hpath := FileGraph.path_of? hf
    exact hindexed.gives hfiles (hpath ▸ hmem) (hpath ▸ graphOf_eq_some.mpr ⟨c, hlookup, hf⟩)
  obtain ⟨hcleared, hremoved', hmarked'⟩ := @Pass.Follows.replaceAll _ _ _ _ _ _ _ _ rd
    (staleCandidates start.store force files) [] hvanished hgives
    (by rw [hremoved, hpaths]; exact nodup_replaced h hfiles) hinner
  rw [hremoved, hpaths] at hremoved'
  exact ⟨hcleared, hremoved', hmarked'.trans (hmarked.trans hnone.2)⟩

/-- Then all files have the nodes that they have in the end, and the links of those that were found can follow. -/
theorem clearing_relatable (hdetached : start.detached = []) (hmemo : start.memo = []) :
    let gone := vanishedFiles start.store files ++ staleFiles start.store force files
    let q := clearing rd force files start
    (∀ id, homeOf id ≠ nowhere → (view q.1.store).node? id = w.node? id) ∧
      ∀ entry ∈ q.2, q.1.Relatable w gone entry := by
  intro gone q
  obtain ⟨hclears, -⟩ :=
    @clearing_spec _ _ rd force files _ start h hs.wf hfiles (hs.rooted hroot) hdetached hmemo
  have hwritten : ∀ p ∈ gone, writtenBy rd (staleCandidates start.store force files) p = graphOf rd files p :=
    fun p hp => writtenBy_staleCandidates h hfiles hp
  refine ⟨fun id hid => ?_, fun entry hentry => ?_⟩
  · rw [hindexed.node id hid, hclears.cleared.node id hid]
    split
    · next hgone => rw [hwritten _ hgone]
    · rfl
  · obtain ⟨hstale, hlookup, hof, hproper, howns⟩ :=
      @clearing_found _ _ rd force files _ start h hs.wf hfiles (hs.rooted hroot) hdetached hmemo entry hentry
    have hmem : entry.1.path ∈ gone := List.mem_append_right _ hstale
    have hgraph : graphOf rd files entry.1.path = some entry.2 := graphOf_eq_some.mpr ⟨entry.1, hlookup, hof⟩
    refine ⟨FileGraph.path_of? hof, hproper, hmem, howns, fun k hk => ?_, ?_⟩
    · rw [hindexed.edge, hclears.cleared.edge, if_pos (hk ▸ hmem), if_pos (hk ▸ hmem), hk, hwritten _ hmem, hgraph,
        Option.bind_some, Option.bind_some, latest_append]
    · rw [hindexed.time, if_pos hmem, timeOf_eq_some hlookup hof]

end Start

theorem index_course (h : Valid s) (hs : (view s).Orderly) (hfiles : Filed files) (hroot : files.lookup "" = none)
    (rd : Reader) (force : Bool) :
    ∃ ws linked, Course rd files (vanishedFiles s files ++ staleFiles s force files) s
      (index rd none force files [] s) ws linked := by
  obtain ⟨start, rfl, hwrites, hdetached, hmemo, hindex⟩ : ∃ start : Pass σ, start.store = s ∧ start.writes = [] ∧
      start.detached = [] ∧ start.memo = [] ∧ index rd none force files [] s =
        (linking (staleFiles s force files ++ vanishedFiles s files) (clearing rd force files start)).finish :=
    ⟨.start force files [] s, rfl, rfl, rfl, rfl, rfl⟩
  rw [hindex]
  have hrooted := hs.rooted hroot
  obtain ⟨hclears, hfound⟩ := @clearing_spec _ _ rd force files _ start h hs.wf hfiles hrooted hdetached hmemo
  obtain ⟨hvalid, moved, hindexed⟩ := @linking_indexed _ _ rd force files _ start h hs.wf hfiles hrooted hdetached hmemo
  obtain ⟨hcleared, hremoved, hmarked⟩ := clearing_follows h hs hfiles hroot hindexed hwrites
  obtain ⟨hnodes, hrelatable⟩ := clearing_relatable h hs hfiles hroot hindexed hdetached hmemo
  have hnodup : ((clearing rd force files start).2.map (·.1.path)).Nodup := by
    rw [hfound]
    exact nodup_found (nodup_paths_staleCandidates h hfiles)
  set replaced := staleFiles start.store force files ++ vanishedFiles start.store files
  set cleared := clearing rd force files start
  set linked := linking replaced cleared
  have hrelates : cleared.1.Relates cleared.1 [] :=
    ⟨hclears.valid, .refl hclears.cleared.wf, hclears.memo ▸ MemoSound.nil _, rfl, fun _ => rfl⟩
  obtain ⟨hrelated, hrelates⟩ := Pass.Follows.relateAll hclears.valid hnodes hcleared hrelates
    (fun q hq => hremoved ▸ hq) hrelatable hnodup hmarked
  set p := cleared.2.foldl Pass.relate cleared.1
  obtain ⟨-, hsound⟩ := hrelates.reattached hs.wf hclears replaced
  set r := reattached p.store replaced p.detached p.memo
  have hexternals := hrelated.write (hrelated.now.nodes
    (hrelated.now.2.putOutside (fun n hn => .inr (hsound.externals n hn)) hsound.atHome))
  have hlinked : linked.store = (Write.edges r.1.edges).apply (p.write (.nodes r.1.externals)).store := rfl
  refine ⟨_, linked.store, ⟨r.1.edges, List.append_assoc _ [_] [_], ?_⟩, rfl, hvalid, ?_, ⟨moved, ?_⟩,
    hexternals.front⟩
  · exact hlinked.trans (congrArg (Write.apply · (.edges r.1.edges)) hexternals.store)
  · refine ⟨hindexed.wf, hindexed.uniform hs.uniform hfiles, fun {id n} hn hid => ?_, fun {id n} hn hid => ?_,
      fun {q} hq => ?_⟩
    · obtain ⟨-, hview⟩ := apply_edges hexternals.now.1 hsound.weights
      rw [hlinked, hview] at hn
      exact hexternals.now.2.outside hn hid
    · by_cases hgone : homeOf id ∈ vanishedFiles start.store files ++ staleFiles start.store force files
      · exact inner_of_replaced h hs hfiles hroot hgone
      · rw [hindexed.node_kept hid hgone] at hn
        exact hs.inner hn hid
    · rw [hindexed.time] at hq
      split at hq
      · next hgone => exact inner_of_replaced h hs hfiles hroot hgone
      · exact hs.times hq
  · have hρ : resolve linked.store = resolve cleared.1.store := by
      funext name
      ext id
      rw [resolve_eq_some_iff hvalid, hindexed.names]
    rw [hρ]
    exact hindexed

namespace Course

variable {pass : Pass σ} {ws : List Write} {linked : σ} {count : Nat}
  (h : Course rd files gone s pass ws linked)
include h

theorem length_writes : pass.writes.length = ws.length + 2 := by
  obtain ⟨es, hwrites, -⟩ := h.writes
  rw [hwrites, List.length_append]
  rfl

theorem take_writes (hcount : count ≤ ws.length) : pass.writes.take count = ws.take count := by
  obtain ⟨es, hwrites, -⟩ := h.writes
  rw [hwrites, List.take_append_of_le_length hcount]

theorem stoppedAfter_linked : stoppedAfter (ws.length + 1) pass.writes s = linked := by
  obtain ⟨es, hwrites, hlinked⟩ := h.writes
  rw [stoppedAfter, hwrites, List.take_length_add_append, List.foldl_append, hlinked]
  rfl

/-- The record is that of all writes. -/
theorem stoppedAfter_all (hcount : ws.length + 1 < count) : stoppedAfter count pass.writes s = pass.store := by
  obtain ⟨es, hwrites, hlinked⟩ := h.writes
  rw [stoppedAfter_of_le (h.length_writes ▸ hcount), hwrites, List.foldl_append, h.store, hlinked]
  rfl

theorem view_store : Valid pass.store ∧ view pass.store = (view linked).prune [moduleKind, externalType] := by
  rw [h.store]
  exact ⟨valid_prune h.valid _, view_prune h.valid _⟩

/-- A pass that stops leaves a graph that is partway, or the one before it prunes, or its last. -/
theorem stopped_cases (count : Nat) :
    count ≤ ws.length ∧
        Underway (view s) (view linked) gone (pass.writes.take count) (stoppedAfter count pass.writes s) ∨
      ws.length < count ∧
        (stoppedAfter count pass.writes s = linked ∨ stoppedAfter count pass.writes s = pass.store) := by
  rcases Nat.lt_trichotomy count (ws.length + 1) with hlt | rfl | hgt
  · have hcount : count ≤ ws.length := Nat.le_of_lt_succ hlt
    refine .inl ⟨hcount, ?_⟩
    have hfront := h.front count
    rwa [stoppedAfter, ← h.take_writes hcount] at hfront
  · exact .inr ⟨Nat.lt_succ_self _, .inl h.stoppedAfter_linked⟩
  · exact .inr ⟨Nat.lt_of_succ_lt hgt, .inr (h.stoppedAfter_all hgt)⟩

/-- So the next pass finds what it needs, wherever this one stops. -/
theorem orderly_stopped (hs : (view s).Orderly) (count : Nat) :
    Valid (stoppedAfter count pass.writes s) ∧ (view (stoppedAfter count pass.writes s)).Orderly := by
  rcases h.stopped_cases count with ⟨-, hvalid, hpartway⟩ | ⟨-, heq | heq⟩
  · obtain ⟨moved, hindexed⟩ := h.indexed
    exact ⟨hvalid, hpartway.orderly hs h.orderly.uniform fun hid hkept => hindexed.node_kept hid hkept⟩
  · rw [heq]
    exact ⟨h.valid, h.orderly⟩
  · obtain ⟨hvalid, hview⟩ := h.view_store
    rw [heq, hview]
    exact ⟨hvalid, h.orderly.prune _⟩

end Course

/-- What passes over directories make of an empty graph, each of them stopped after some of its writes or after all.
A root that is a file is under the empty path, and so are modules and external types, which go with it: with such
passes among them, a stop would also lose edges to these. -/
inductive AfterStops (σ : Type) [Store σ] : σ → Prop
  | empty : AfterStops σ Store.empty
  | pass {s : σ} (h : AfterStops σ s) (rd : Reader) (policy : IgnorePolicy) (root : String) (d : Disk)
    (hpaths : Nested rd policy root d) (force : Bool) (count : Nat) :
    AfterStops σ (stoppedAfter count (index rd none force (filesIn rd policy root d) [] s).writes s)

theorem AfterStops.orderly (h : AfterStops σ s) : Valid s ∧ (view s).Orderly := by
  induction h with
  | empty =>
    rw [view_empty]
    exact ⟨valid_empty, View.orderly_empty⟩
  | pass _ rd policy root d hpaths force count ih =>
    obtain ⟨ws, linked, hcourse⟩ := index_course ih.1 ih.2 (filed_filesIn hpaths.addressed) hpaths.lookup_root rd force
    exact hcourse.orderly_stopped ih.2 count

end Pass

end CodeIndex.Graph
