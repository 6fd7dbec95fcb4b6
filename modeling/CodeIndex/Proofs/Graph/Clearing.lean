import CodeIndex.Proofs.Graph.Resolve
import CodeIndex.Proofs.Graph.WellFormed

/-!
# The first half of a pass

Files that are gone or changed are removed one by one, and what a changed file gives is written in its place.
`Cleared` says what is there in between: files that were dealt with have their new nodes and edges, the others
have theirs except for edges into the former, and those were set aside.
-/

namespace CodeIndex.Graph

/-- The part of a graph that a file gives, if it is text. -/
def FileGraph.of? (rd : Reader) (c : Candidate) : Option FileGraph :=
  match c.text with
  | .ok text => some ⟨c.path, text, extractSource rd.registry rd.grammars c.path c.language text⟩
  | .error _ => none

theorem FileGraph.path_of? {rd : Reader} {c : Candidate} {f : FileGraph} (h : of? rd c = some f) :
    f.path = c.path := by
  unfold of? at h
  split at h
  · cases h; rfl
  · cases h

theorem FileGraph.of?_of_text (rd : Reader) {c : Candidate} {text : String}
    (h : c.text = .ok text) :
    of? rd c = some ⟨c.path, text, extractSource rd.registry rd.grammars c.path c.language text⟩ := by
  rw [of?, h]

/-- Where the nodes of a file are, its edges may be written. -/
theorem FileGraph.admits_of_mem {f : FileGraph} (hf : ProperPath f.path) {e : Edge} (he : e ∈ f.edges) (v : View) :
    (v.putNodes f.nodes).Admits e := by
  have hstructural := structural_of_mem he
  have hsome : ∀ id, (∃ n ∈ f.nodes, n.id = id) → ((v.putNodes f.nodes).node? id).isSome := by
    rintro _ ⟨n, hn, rfl⟩
    simp [View.putNodes, isSome_latest hn]
  obtain ⟨n, hn, hid, -⟩ := hstructural.source.exists_node
  exact ⟨hsome _ ⟨n, hn, hid⟩, hstructural.source.homeOf hf ▸ hf.ne_nowhere, hsome _ hstructural.node,
    hstructural.weight⟩

/-- If the file is the root itself, it is all that is left. What belongs to no file goes with it. -/
def View.RootLast (w : View) (file : String) : Prop :=
  file = "" → ∀ k e, w.edge? k = some e → homeOf k.source = ""

/-- The files `gone` were removed from a view, and `written` gives what took their place. -/
structure Cleared (v : View) (gone : List String) (written : String → Option FileGraph)
    (detached : List Detached) (w : View) : Prop where
  wf : w.WellFormed
  proper : ∀ {p f}, written p = some f → f.path = p ∧ ProperPath p ∧ p ∈ gone
  node : ∀ id, homeOf id ≠ nowhere → w.node? id =
    if homeOf id ∈ gone then (written (homeOf id)).bind (latest Node.id ·.nodes id) else v.node? id
  edge : ∀ k, w.edge? k =
    if homeOf k.source ∈ gone then (written (homeOf k.source)).bind (latest Edge.key ·.edges k)
    else if homeOf k.target ∈ gone then none else v.edge? k
  time : ∀ p, w.time? p = if p ∈ gone then none else v.time? p
  sound : ∀ d ∈ detached, v.edge? d.edge.key = some d.edge ∧ homeOf d.edge.target ∈ gone ∧
    ∃ n, v.node? d.edge.target = some n ∧ n.name = d.target
  complete : ∀ {k e n}, v.edge? k = some e → homeOf k.source ∉ gone → homeOf k.target ∈ gone →
    v.node? k.target = some n → ⟨e, n.name⟩ ∈ detached

namespace Cleared

variable {v w : View} {gone : List String} {written : String → Option FileGraph} {detached : List Detached}

theorem nil (h : v.WellFormed) : Cleared v [] (fun _ => none) [] v where
  wf := h
  proper := nofun
  node := by simp
  edge := by simp
  time := by simp
  sound := nofun
  complete := by simp

variable (h : Cleared v gone written detached w)
include h

/-- Edges of files that were written do not leave them for another file. -/
theorem homeOf_target {k : EdgeKey} {e : Edge} (he : w.edge? k = some e) (hgone : homeOf k.source ∈ gone) :
    homeOf k.target = homeOf k.source ∨ homeOf k.target = nowhere := by
  rw [h.edge, if_pos hgone] at he
  obtain ⟨f, hf, hlatest⟩ := Option.bind_eq_some_iff.mp he
  obtain ⟨hpath, hproper, -⟩ := h.proper hf
  obtain rfl := key_of_latest hlatest
  rcases (FileGraph.structural_of_mem (mem_of_latest hlatest)).target with howns | ⟨i, hmodule⟩
  · exact .inl ((howns.homeOf (hpath ▸ hproper)).trans hpath)
  · exact .inr ((congrArg homeOf hmodule).trans (homeOf_moduleNode i))

/-- So they do not end in a file that is still to be removed. -/
theorem homeOf_target_ne {file : String} (hfile : file ≠ nowhere) {k : EdgeKey} {e : Edge} (he : w.edge? k = some e)
    (hgone : homeOf k.source ∈ gone) (hsource : homeOf k.source ≠ file) : homeOf k.target ≠ file := by
  rcases h.homeOf_target he hgone with heq | heq <;> rw [heq]
  · exact hsource
  · exact hfile.symm

theorem written_eq_none {file : String} (hfile : file ∉ gone) : written file = none := by
  by_contra hsome
  obtain ⟨f, hf⟩ := Option.ne_none_iff_exists'.mp hsome
  exact hfile (h.proper hf).2.2

/-- Edges between files that were left alone are still there. -/
theorem key_of_kept {k : EdgeKey} {e : Edge} (he : v.edge? k = some e) (hsource : homeOf k.source ∉ gone)
    (htarget : homeOf k.target ∉ gone) : w.edge? k = some e ∧ e.key = k := by
  have hw : w.edge? k = some e := by rwa [h.edge, if_neg hsource, if_neg htarget]
  exact ⟨hw, h.wf.key hw⟩

section Delete

variable {file : String} (hnew : file ∉ gone)
include hnew

theorem node?_deleteFile {id : String} (hid : homeOf id ≠ nowhere) : (w.deleteFile file).node? id =
    if homeOf id ∈ gone ++ [file] then (written (homeOf id)).bind (latest Node.id ·.nodes id) else v.node? id := by
  rw [h.wf.node?_deleteFile, fileAt_of_ne hid]
  simp only [List.mem_append, List.mem_singleton]
  by_cases hhome : homeOf id = file
  · rw [if_pos hhome, if_pos (.inr hhome), hhome, h.written_eq_none hnew]
    rfl
  · rw [if_neg hhome, h.node id hid]
    simp only [hhome, or_false]

omit hnew in
theorem time?_deleteFile (file p : String) :
    (w.deleteFile file).time? p = if p ∈ gone ++ [file] then none else v.time? p := by
  change (if p = file then none else w.time? p) = _
  rw [h.time]
  by_cases hp : p = file <;> simp [hp]

theorem remove (hfile : InnerPath file) {more : List Detached}
    (hmore : ∀ d, d ∈ more ↔ w.edge? d.edge.key = some d.edge ∧ homeOf d.edge.source ≠ file ∧
      homeOf d.edge.target = file ∧ ∃ n, w.node? d.edge.target = some n ∧ n.name = d.target) :
    Cleared v (gone ++ [file]) written (detached ++ more) (w.deleteFile file) where
  wf := h.wf.deleteFile file
  proper hf := ⟨(h.proper hf).1, (h.proper hf).2.1, List.mem_append_left _ (h.proper hf).2.2⟩
  node _ hid := h.node?_deleteFile hnew hid
  edge k := by
    rw [h.wf.edge?_deleteFile]
    simp only [List.mem_append, List.mem_singleton, hfile.fileAt_eq_iff]
    by_cases hsource : homeOf k.source = file
    · rw [if_pos hsource, if_pos (.inr hsource), hsource, h.written_eq_none hnew]
      rfl
    · rw [if_neg hsource]
      simp only [hsource, or_false]
      by_cases hgone : homeOf k.source ∈ gone
      · have hedge := h.edge k
        rw [if_pos hgone] at hedge ⊢
        rw [← hedge]
        split
        · next htarget =>
          refine (Option.eq_none_iff_forall_ne_some.mpr fun e he => ?_).symm
          exact h.homeOf_target_ne hfile.proper.ne_nowhere he hgone hsource htarget
        · rfl
      · rw [if_neg hgone, h.edge, if_neg hgone]
        by_cases htarget : homeOf k.target = file
        · simp [htarget]
        · simp only [htarget, or_false, if_false]
  time := h.time?_deleteFile file
  sound d hd := by
    rcases List.mem_append.mp hd with hd | hd
    · obtain ⟨he, hgone, hn⟩ := h.sound d hd
      exact ⟨he, List.mem_append_left _ hgone, hn⟩
    · obtain ⟨he, hsource, htarget, n, hn, hname⟩ := (hmore d).mp hd
      have hold : homeOf d.edge.source ∉ gone := fun hgone =>
        h.homeOf_target_ne hfile.proper.ne_nowhere he hgone hsource htarget
      refine ⟨?_, List.mem_append_right _ (List.mem_singleton.mpr htarget), n, ?_, hname⟩
      · have hedge : w.edge? d.edge.key = _ := h.edge d.edge.key
        rwa [if_neg (show homeOf d.edge.key.source ∉ gone from hold),
          if_neg (show homeOf d.edge.key.target ∉ gone from htarget ▸ hnew), he, eq_comm] at hedge
      · rwa [h.node _ (htarget ▸ hfile.proper.ne_nowhere), if_neg (htarget ▸ hnew)] at hn
  complete {k e n} he hsource htarget hn := by
    simp only [List.mem_append, List.mem_singleton, not_or] at hsource htarget ⊢
    rcases htarget with hgone | hlast
    · exact .inl (h.complete he hsource.1 hgone hn)
    · obtain ⟨hw, rfl⟩ := h.key_of_kept he hsource.1 (hlast ▸ hnew)
      refine .inr ((hmore ⟨e, n.name⟩).mpr ⟨hw, hsource.2, hlast, n, ?_, rfl⟩)
      rwa [h.node _ (show homeOf e.target ≠ nowhere from hlast ▸ hfile.proper.ne_nowhere),
        if_neg (show homeOf e.target ∉ gone from hlast ▸ hnew)]

end Delete

/-- A root that is a file is removed once it is all that is left. What belongs to no file goes with it. -/
theorem removeRoot (hnew : "" ∉ gone) (hlast : ∀ k e, w.edge? k = some e → homeOf k.source = "") :
    Cleared v (gone ++ [""]) written detached (w.deleteFile "") where
  wf := h.wf.deleteFile ""
  proper hf := ⟨(h.proper hf).1, (h.proper hf).2.1, List.mem_append_left _ (h.proper hf).2.2⟩
  node _ hid := h.node?_deleteFile hnew hid
  edge k := by
    rw [h.wf.edge?_deleteFile]
    simp only [List.mem_append, List.mem_singleton]
    by_cases hsource : homeOf k.source = ""
    · rw [if_pos hsource, if_pos (.inr hsource), hsource, h.written_eq_none hnew]
      rfl
    · have hnone : w.edge? k = none := Option.eq_none_iff_forall_ne_some.mpr fun e he => hsource (hlast k e he)
      have hedge := h.edge k
      rw [hnone] at hedge
      rw [if_neg hsource, hnone, ite_self]
      simp only [hsource, or_false]
      split
      · next hgone => rw [hedge, if_pos hgone]
      · next hgone =>
        split
        · rfl
        · next htarget => rw [hedge, if_neg hgone, if_neg fun hmem => htarget (.inl hmem)]
  time := h.time?_deleteFile ""
  sound d hd := by
    obtain ⟨he, hgone, hn⟩ := h.sound d hd
    exact ⟨he, List.mem_append_left _ hgone, hn⟩
  complete {k e n} he hsource htarget hn := by
    simp only [List.mem_append, List.mem_singleton, not_or] at hsource htarget
    rcases htarget with hgone | hroot
    · exact h.complete he hsource.1 hgone hn
    · exact absurd (hlast k e (h.key_of_kept he hsource.1 (hroot ▸ hnew)).1) hsource.2

theorem write {f : FileGraph} (hf : ProperPath f.path) (hgone : f.path ∈ gone) (hnew : written f.path = none) :
    Cleared v gone (fun p => if p = f.path then some f else written p) detached
      ((w.putNodes f.nodes).putEdges f.edges) where
  wf := (h.wf.putNodes fun n hn => FileGraph.atHome_of_mem hf hn).putEdges fun e he =>
    FileGraph.admits_of_mem hf he w
  proper {p g} hg := by
    split at hg
    · next hp =>
      cases hg
      exact ⟨hp.symm, hp ▸ hf, hp ▸ hgone⟩
    · exact h.proper hg
  node id hid := by
    change (latest Node.id f.nodes id).or (w.node? id) = _
    rw [h.node id hid]
    by_cases hhome : homeOf id = f.path
    · rw [if_pos (hhome ▸ hgone), if_pos (hhome ▸ hgone), if_pos hhome, hhome, hnew]
      simp
    · have hnone : latest Node.id f.nodes id = none := by
        refine latest_eq_none_iff.mpr fun n hn heq => ?_
        rcases FileGraph.owns_or_nowhere hn with ⟨howns, -⟩ | ⟨hnowhere, -⟩
        · exact hhome (heq ▸ howns.homeOf hf)
        · exact hid (heq ▸ hnowhere)
      rw [hnone, Option.none_or, if_neg hhome]
  edge k := by
    change (latest Edge.key f.edges k).or (w.edge? k) = _
    rw [h.edge k]
    by_cases hhome : homeOf k.source = f.path
    · rw [if_pos (hhome ▸ hgone), if_pos (hhome ▸ hgone), if_pos hhome, hhome, hnew]
      simp
    · have hnone : latest Edge.key f.edges k = none := by
        refine latest_eq_none_iff.mpr fun e he heq => ?_
        rw [← heq] at hhome
        exact hhome ((FileGraph.structural_of_mem he).source.homeOf hf)
      rw [hnone, Option.none_or, if_neg hhome]
  time := h.time
  sound := h.sound
  complete := h.complete

end Cleared

/-! ## The passes over the files -/

section Pass

open LawfulStore

variable {σ : Type} [Store σ] [LawfulStore σ] {s : σ} {v : View} {gone : List String}
  {written : String → Option FileGraph} {p : Pass σ} {file : String}

theorem mem_nodesOf (h : Valid s) {n : Node} :
    n ∈ Store.nodesOf s file ↔ (view s).node? n.id = some n ∧ n.file = file := by
  have hholds : NodeQuery.holds { file := some file } n = true ↔ n.file = file := by
    simp only [NodeQuery.holds, Option.all_some, Option.all_none, Bool.true_and, decide_eq_true_eq]
    exact eq_comm
  rw [Store.nodesOf, mem_find h, hholds]

/-- Set aside are the edges into a file from others, with the names of their targets. -/
theorem mem_detach (h : Valid s) (hwf : (view s).WellFormed) (hinner : InnerPath file) {d : Detached} :
    d ∈ detach s file ↔ (view s).edge? d.edge.key = some d.edge ∧ homeOf d.edge.source ≠ file ∧
      homeOf d.edge.target = file ∧ ∃ n, (view s).node? d.edge.target = some n ∧ n.name = d.target := by
  have hfind : ∀ id n, (Store.nodesOf s file).find? (·.id = id) = some n ↔
      (view s).node? id = some n ∧ n.file = file := by
    intro id n
    refine ⟨fun hn => ?_, fun ⟨hn, hfile⟩ => ?_⟩
    · obtain ⟨hnode, hfile⟩ := (mem_nodesOf h).mp (List.mem_of_find?_eq_some hn)
      obtain rfl : n.id = id := by simpa using List.find?_some hn
      exact ⟨hnode, hfile⟩
    · obtain rfl := hwf.id hn
      have hsome : ((Store.nodesOf s file).find? (·.id = n.id)).isSome :=
        List.find?_isSome.mpr ⟨n, (mem_nodesOf h).mpr ⟨hn, hfile⟩, by simp⟩
      obtain ⟨m, hm⟩ := Option.isSome_iff_exists.mp hsome
      obtain ⟨hnode, -⟩ := (mem_nodesOf h).mp (List.mem_of_find?_eq_some hm)
      rw [show m.id = n.id by simpa using List.find?_some hm, hn] at hnode
      rw [hm, hnode]
  simp only [detach, List.mem_filterMap, mem_incoming h, Option.map_eq_some_iff, hfind]
  constructor
  · rintro ⟨e, ⟨he, -, hsource⟩, n, ⟨hn, hfile⟩, rfl⟩
    exact ⟨he, (hwf.source_hasFile_iff he).not.mp hsource, hinner.fileAt_eq_iff.mp (hwf.file hn ▸ hfile), n, hn, rfl⟩
  · rintro ⟨he, hsource, htarget, n, hn, hname⟩
    have hfile : n.file = file := (hwf.file hn).trans (hinner.fileAt_eq_iff.mpr htarget)
    exact ⟨d.edge, ⟨he, ⟨n, hn, hfile⟩, (hwf.source_hasFile_iff he).not.mpr hsource⟩, n, ⟨hn, hfile⟩, by rw [hname]⟩

/-- Nothing is set aside for a root that is a file and all that is left. -/
theorem detach_root (h : Valid s) (hwf : (view s).WellFormed)
    (hlast : ∀ k e, (view s).edge? k = some e → homeOf k.source = "") : detach s "" = [] := by
  have hnone : Store.incoming s "" = [] := by
    refine List.eq_nil_iff_forall_not_mem.mpr fun e he => ?_
    obtain ⟨hedge, -, hsource⟩ := (mem_incoming h).mp he
    exact hsource ((hwf.source_hasFile_iff hedge).mpr (hlast e.key e hedge))
  rw [detach, hnone]
  rfl

/-- A pass that has removed some files and written others. -/
structure Pass.Clears (p : Pass σ) (v : View) (gone : List String) (written : String → Option FileGraph) :
    Prop where
  valid : Valid p.store
  cleared : Cleared v gone written p.detached (view p.store)
  memo : p.memo = []

theorem Pass.Clears.remove (h : p.Clears v gone written) (hproper : ProperPath file)
    (hlast : (view p.store).RootLast file) (hnew : file ∉ gone) :
    (p.remove file).Clears v (gone ++ [file]) written := by
  refine ⟨valid_deleteFile h.valid file, ?_, h.memo⟩
  have hview : view (p.remove file).store = (view p.store).deleteFile file := view_deleteFile h.valid file
  rw [hview]
  by_cases hfile : file = ""
  · subst hfile
    have hdetached : (p.remove "").detached = p.detached := by
      change p.detached ++ detach p.store "" = _
      rw [detach_root h.valid h.cleared.wf (hlast rfl), List.append_nil]
    rw [hdetached]
    exact h.cleared.removeRoot hnew (hlast rfl)
  · have hinner : InnerPath file := ⟨hproper, hfile⟩
    exact h.cleared.remove hnew hinner fun d => mem_detach h.valid h.cleared.wf hinner

theorem Pass.Clears.vanish (h : p.Clears v gone written) {files : List String} (hfiles : ∀ f ∈ files, ProperPath f)
    (hroot : "" ∈ files → (∀ f ∈ files, f = "") ∧ (view p.store).RootLast "") (hnodup : files.Nodup)
    (hnew : ∀ f ∈ files, f ∉ gone) :
    (files.foldl Pass.vanish p).Clears v (gone ++ files) written := by
  induction files generalizing p gone with
  | nil => simpa using h
  | cons f rest ih =>
    obtain ⟨hf, hrest⟩ := List.nodup_cons.mp hnodup
    have hlast : (view p.store).RootLast f := fun hempty => (hroot (hempty ▸ List.mem_cons_self)).2 rfl
    have hremoved := h.remove (hfiles f List.mem_cons_self) hlast (hnew f List.mem_cons_self)
    have hvanished : (p.vanish f).Clears v (gone ++ [f]) written :=
      ⟨hremoved.valid, hremoved.cleared, hremoved.memo⟩
    rw [List.foldl_cons, ← List.singleton_append, ← List.append_assoc]
    refine ih hvanished (fun g hg => hfiles g (List.mem_cons_of_mem f hg)) (fun hmem => ?_) hrest fun g hg => ?_
    · -- the root is the only one then, and not among the rest
      exact absurd hmem ((hroot (List.mem_cons_of_mem f hmem)).1 f List.mem_cons_self ▸ hf)
    simp only [List.mem_append, List.mem_singleton, not_or]
    exact ⟨hnew g (List.mem_cons_of_mem f hg), fun heq => hf (heq ▸ hg)⟩

variable {rd : Reader} {c : Candidate} {found : List (Candidate × FileGraph)}

theorem Pass.Clears.replace (h : p.Clears v gone written) (hpath : ProperPath c.path)
    (hlast : (view p.store).RootLast c.path) (hnew : c.path ∉ gone) :
    (Pass.replace rd none (p, found) c).1.Clears v (gone ++ [c.path])
        (fun q => if q = c.path then FileGraph.of? rd c else written q) ∧
      (Pass.replace rd none (p, found) c).2 = found ++ ((FileGraph.of? rd c).map (c, ·)).toList := by
  have hremoved := h.remove hpath hlast hnew
  have hnone : written c.path = none := h.cleared.written_eq_none hnew
  cases htext : c.text with
  | error fault =>
    have hwritten : (fun q => if q = c.path then FileGraph.of? rd c else written q) = written := by
      funext q
      split
      · next hq => rw [FileGraph.of?, htext, hq, hnone]
      · rfl
    simp only [Pass.replace, htext, hwritten]
    exact ⟨⟨hremoved.valid, hremoved.cleared, hremoved.memo⟩, by simp [FileGraph.of?, htext]⟩
  | ok text =>
    obtain ⟨f, hf, hfdef⟩ : ∃ f, FileGraph.of? rd c = some f ∧ f = ⟨c.path, text, _⟩ :=
      ⟨_, FileGraph.of?_of_text rd htext, rfl⟩
    have hfpath := FileGraph.path_of? hf
    simp only [Pass.replace, htext, extractWithHover, ← hfdef, hf]
    obtain ⟨hvalid, hview⟩ := apply_nodes_edges hremoved.valid f.nodes fun e he =>
      (FileGraph.structural_of_mem he).weight
    refine ⟨⟨hvalid, ?_, hremoved.memo⟩, rfl⟩
    have hwrite := hremoved.cleared.write (f := f) (hfpath ▸ hpath)
      (List.mem_append_right _ (List.mem_singleton.mpr hfpath)) (hfpath ▸ hnone)
    rw [hfpath] at hwrite
    exact hview ▸ hwrite

/-- What takes the place of a file once some candidates were dealt with. -/
def writtenBy (rd : Reader) (cs : List Candidate) (file : String) : Option FileGraph :=
  (cs.find? (·.path = file)).bind (FileGraph.of? rd)

theorem writtenBy_concat {cs : List Candidate} (hnew : c.path ∉ cs.map (·.path)) (file : String) :
    writtenBy rd (cs ++ [c]) file = if file = c.path then FileGraph.of? rd c else writtenBy rd cs file := by
  unfold writtenBy
  rw [List.find?_append]
  split
  · next hfile =>
    rw [find?_key_eq_none (hfile ▸ hnew), Option.none_or, List.find?_singleton, if_pos (by simpa using hfile.symm)]
    rfl
  · next hfile => simp [Ne.symm hfile]

theorem Pass.Clears.replaceAll {done cs : List Candidate} {vanished : List String}
    (h : p.Clears v (vanished ++ done.map (·.path)) (writtenBy rd done)) (hpaths : ∀ c ∈ cs, ProperPath c.path)
    (hroot : "" ∈ cs.map (·.path) → (∀ c ∈ cs, c.path = "") ∧ (view p.store).RootLast "")
    (hnodup : (vanished ++ (done ++ cs).map (·.path)).Nodup) :
    (cs.foldl (Pass.replace rd none) (p, done.filterMap fun c => (FileGraph.of? rd c).map (c, ·))).1.Clears v
        (vanished ++ (done ++ cs).map (·.path)) (writtenBy rd (done ++ cs)) ∧
      (cs.foldl (Pass.replace rd none) (p, done.filterMap fun c => (FileGraph.of? rd c).map (c, ·))).2 =
        (done ++ cs).filterMap fun c => (FileGraph.of? rd c).map (c, ·) := by
  induction cs generalizing p done with
  | nil => simpa using h
  | cons c cs ih =>
    have hnodup' : ((vanished ++ done.map (·.path)) ++ c.path :: cs.map (·.path)).Nodup := by
      simpa using hnodup
    have hnew : c.path ∉ vanished ++ done.map (·.path) := fun hmem =>
      (List.nodup_append.mp hnodup').2.2 _ hmem _ List.mem_cons_self rfl
    obtain ⟨hclears, hfound⟩ := @Pass.Clears.replace _ _ _ _ _ _ p rd c
      (done.filterMap fun c => (FileGraph.of? rd c).map (c, ·)) h (hpaths c List.mem_cons_self)
      (fun hempty => (hroot (hempty ▸ List.mem_cons_self)).2 rfl) hnew
    have hwritten : writtenBy rd (done ++ [c]) =
        fun q => if q = c.path then FileGraph.of? rd c else writtenBy rd done q :=
      funext (writtenBy_concat fun hmem => hnew (List.mem_append_right _ hmem))
    have hfound' : (done.filterMap fun c => (FileGraph.of? rd c).map (c, ·)) ++
        ((FileGraph.of? rd c).map (c, ·)).toList =
        (done ++ [c]).filterMap fun c => (FileGraph.of? rd c).map (c, ·) := by
      rw [List.filterMap_append]
      cases hof : FileGraph.of? rd c <;> simp [hof]
    rw [← hwritten, List.append_assoc] at hclears
    rw [hfound'] at hfound
    have hnone : "" ∉ cs.map (·.path) := by
      intro hmem
      have hc := (hroot (List.mem_cons_of_mem _ hmem)).1 c List.mem_cons_self
      exact (List.nodup_cons.mp (List.nodup_append.mp hnodup').2.1).1 (hc.symm ▸ hmem)
    have hrest := @ih _ (done ++ [c]) (by simpa using hclears) (fun d hd => hpaths d (List.mem_cons_of_mem c hd))
      (fun hmem => absurd hmem hnone) (by simpa using hnodup)
    rw [← hfound] at hrest
    simpa using hrest

end Pass

end CodeIndex.Graph
