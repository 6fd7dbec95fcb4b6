import CodeIndex.Proofs.Graph.Accounts

/-!
# A pass on its way

A pass records its writes, and one that stops leaves what the front of the record makes of the graph. `Partway`
says what that is: the files that were removed have part of what the pass gives them, or all of it once they are
marked with their time, and the others have what they had. What a later pass needs holds all the way
(`View.Orderly`).
-/

namespace CodeIndex.Graph

/-! ## Nodes outside of files -/

/-- A node that its id tells: a module or an external type. -/
def Node.Outside (n : Node) : Prop := (∃ i, n = FileGraph.moduleNode i) ∨ ∃ name, n = externalNode name

theorem Node.Outside.homeOf {n : Node} (h : n.Outside) : homeOf n.id = nowhere := by
  rcases h with ⟨i, rfl⟩ | ⟨name, rfl⟩
  · exact homeOf_moduleNode i
  · exact homeOf_externalNode name

theorem Node.Outside.eq {n m : Node} (hn : n.Outside) (hm : m.Outside) (hid : n.id = m.id) : n = m := by
  rcases hn with ⟨i, rfl⟩ | ⟨name, rfl⟩ <;> rcases hm with ⟨j, rfl⟩ | ⟨other, rfl⟩
  · have hname : i.name = j.name := by simpa [FileGraph.moduleNode, String.ext_iff] using hid
    rw [FileGraph.moduleNode, FileGraph.moduleNode, hname]
  · exact absurd hid (moduleNode_ne_externalNode i other)
  · exact absurd hid.symm (moduleNode_ne_externalNode j name)
  · rw [externalNode_injective hid]

theorem Node.Outside.kind {n : Node} (h : n.Outside) : n.kind ∈ [moduleKind, externalType] := by
  rcases h with ⟨i, rfl⟩ | ⟨name, rfl⟩
  · exact List.mem_cons_self
  · exact List.mem_cons_of_mem _ List.mem_cons_self

theorem FileGraph.outside_of_mem {f : FileGraph} (hf : ProperPath f.path) {n : Node} (h : n ∈ f.nodes)
    (hhome : homeOf n.id = nowhere) : n.Outside := by
  rcases mem_nodes.mp h with rfl | ⟨s, hs, rfl⟩ | ⟨i, -, rfl⟩
  · exact absurd ((homeOf_fileId f.path).symm.trans hhome) hf.ne_nowhere
  · exact absurd (((owns_idOf hs).homeOf hf).symm.trans hhome) hf.ne_nowhere
  · exact .inl ⟨i, rfl⟩

/-! ## Views between passes and within -/

namespace View

/-- What every write of a pass keeps, and what a pass needs. -/
structure Orderly (v : View) : Prop where
  wf : v.WellFormed
  uniform : v.Uniform
  outside {id : String} {n : Node} : v.node? id = some n → homeOf id = nowhere → n.Outside
  inner {id : String} {n : Node} : v.node? id = some n → homeOf id ≠ nowhere → InnerPath (homeOf id)
  times {p : String} : (v.time? p).isSome → InnerPath p

theorem orderly_empty : empty.Orderly where
  wf := wellFormed_empty
  uniform := uniform_empty
  outside hn := by cases hn
  inner hn := by cases hn
  times hp := by cases hp

variable {v w : View}

theorem prune_idem (v : View) (kinds : List String) : (v.prune kinds).prune kinds = v.prune kinds := by
  ext1
  · funext id
    ext n
    rw [node?_prune, and_iff_left_iff_imp]
    exact fun hn => (node?_prune.mp hn).2
  · rfl
  · rfl

theorem Uniform.prune (h : v.Uniform) (kinds : List String) : (v.prune kinds).Uniform := by
  have hlink : ∀ {file name id}, (v.prune kinds).LinksTo file name id → v.LinksTo file name id := by
    intro file name id hlink
    obtain ⟨n, hn, hname⟩ := hlink.node
    exact ⟨hlink.apart, hlink.inside, ⟨n, (node?_prune.mp hn).1, hname⟩, hlink.edge⟩
  exact ⟨fun hid hid' => h.same (hlink hid) (hlink hid'),
    fun hid hn => h.foreign (hlink hid) (node?_prune.mp hn).1, fun hid => h.known (hlink hid)⟩

theorem Orderly.prune (h : v.Orderly) (kinds : List String) : (v.prune kinds).Orderly where
  wf := h.wf.prune kinds
  uniform := h.uniform.prune kinds
  outside hn := h.outside (node?_prune.mp hn).1
  inner hn := h.inner (node?_prune.mp hn).1
  times := h.times

/-- Views with the same edges and the same nodes in files have the same nodes once they are pruned. -/
theorem Orderly.node?_prune_eq (hv : v.Orderly) (hw : w.Orderly)
    (hnode : ∀ id, homeOf id ≠ nowhere → v.node? id = w.node? id) (hedge : v.edge? = w.edge?) :
    (v.prune [moduleKind, externalType]).node? = (w.prune [moduleKind, externalType]).node? := by
  have htouched : ∀ id, v.Touched id ↔ w.Touched id := fun id => by rw [Touched, Touched, hedge]
  -- an outside node that an edge touches in one view is there in the other
  have hside : ∀ {a b : View} {id n}, a.Orderly → b.Orderly → b.Touched id → homeOf id = nowhere →
      a.node? id = some n → b.node? id = some n := by
    rintro a b id n ha hb ⟨k, hk, hend⟩ hhome hn
    obtain ⟨e, he⟩ := Option.isSome_iff_exists.mp hk
    have hsome : (b.node? id).isSome := hend.elim (· ▸ hb.wf.source he) (· ▸ hb.wf.target he)
    obtain ⟨m, hm⟩ := Option.isSome_iff_exists.mp hsome
    have hid : m.id = n.id := (hb.wf.id hm).trans (ha.wf.id hn).symm
    rw [hm, (hb.outside hm hhome).eq (ha.outside hn hhome) hid]
  funext id
  ext n
  rw [node?_prune, node?_prune, htouched]
  by_cases hhome : homeOf id = nowhere
  · constructor
    · rintro ⟨hn, hkept⟩
      have hkept := hkept.resolve_left (not_not.mpr (hv.outside hn hhome).kind)
      exact ⟨hside hv hw hkept hhome hn, .inr hkept⟩
    · rintro ⟨hn, hkept⟩
      have hkept := hkept.resolve_left (not_not.mpr (hw.outside hn hhome).kind)
      exact ⟨hside hw hv ((htouched id).mpr hkept) hhome hn, .inr hkept⟩
  · rw [hnode id hhome]

end View

/-- A view `u` between `v` and `w`, from which the files `gone` are replaced: of those `removed` there is part of
what they have in `w`, of those `marked` all. Other files are as in `v`, but for edges to files that were removed. -/
structure Partway (v w : View) (gone removed marked : List String) (u : View) : Prop where
  wf : u.WellFormed
  outside {id : String} {n : Node} : u.node? id = some n → homeOf id = nowhere → n.Outside
  mem_gone {p : String} : p ∈ removed → p ∈ gone ∧ InnerPath p
  mem_removed {p : String} : p ∈ marked → p ∈ removed ∧ (w.time? p).isSome
  node_kept {id : String} : homeOf id ≠ nowhere → homeOf id ∉ removed → u.node? id = v.node? id
  node {id : String} {n : Node} : homeOf id ∈ removed → u.node? id = some n → w.node? id = some n
  node_marked {id : String} : homeOf id ∈ marked → u.node? id = w.node? id
  edge_kept {k : EdgeKey} : homeOf k.source ∉ removed →
    u.edge? k = if homeOf k.target ∈ removed then none else v.edge? k
  edge {k : EdgeKey} : homeOf k.source ∈ removed → (u.edge? k).isSome →
    (w.edge? k).isSome ∧ (homeOf k.target ∈ removed ∨ homeOf k.target ∉ gone)
  edge_marked {k : EdgeKey} : homeOf k.source ∈ marked → u.edge? k = w.edge? k
  time : ∀ p, u.time? p = if p ∈ marked then w.time? p else if p ∈ removed then none else v.time? p

namespace Partway

variable {v w u : View} {gone removed marked : List String} {file : String}

theorem start (h : v.Orderly) (w : View) (gone : List String) : Partway v w gone [] [] v where
  wf := h.wf
  outside := h.outside
  mem_gone hp := absurd hp List.not_mem_nil
  mem_removed hp := absurd hp List.not_mem_nil
  node_kept _ _ := rfl
  node hp := absurd hp List.not_mem_nil
  node_marked hp := absurd hp List.not_mem_nil
  edge_kept _ := rfl
  edge hp := absurd hp List.not_mem_nil
  edge_marked hp := absurd hp List.not_mem_nil
  time _ := rfl

variable (h : Partway v w gone removed marked u)
include h

/-! ### Writes -/

theorem remove (hfile : file ∈ gone) (hinner : InnerPath file) (hnew : file ∉ removed) :
    Partway v w gone (removed ++ [file]) marked (u.deleteFile file) := by
  have hnode := h.wf.node?_deleteFile file
  have hedges := h.wf.edge?_deleteFile file
  simp only [hinner.fileAt_eq_iff] at hnode hedges
  have hedge : ∀ {k}, ((u.deleteFile file).edge? k).isSome →
      (u.edge? k).isSome ∧ homeOf k.source ≠ file ∧ homeOf k.target ≠ file := by
    intro k hk
    rw [hedges] at hk
    split at hk
    · cases hk
    · split at hk
      · cases hk
      · next hsource htarget => exact ⟨hk, hsource, htarget⟩
  refine
    { wf := h.wf.deleteFile file
      outside := fun hn => h.outside (View.node?_deleteFile.mp hn).1
      mem_gone := fun hp => ?_
      mem_removed := fun hp => (h.mem_removed hp).imp_left (List.mem_append_left _)
      node_kept := fun hid hp => ?_
      node := fun hp hn => ?_
      node_marked := fun {id} hp => ?_
      edge_kept := fun {k} hp => ?_
      edge := fun hp hk => ?_
      edge_marked := fun {k} hp => ?_
      time := fun p => ?_ }
  · rcases List.mem_append.mp hp with hp | hp
    · exact h.mem_gone hp
    · exact List.mem_singleton.mp hp ▸ ⟨hfile, hinner⟩
  · simp only [List.mem_append, List.mem_singleton, not_or] at hp
    rw [hnode, if_neg hp.2, h.node_kept hid hp.1]
  · rw [hnode] at hn
    split at hn
    · cases hn
    · next hhome =>
      exact h.node ((List.mem_append.mp hp).resolve_right fun hlast => hhome (List.mem_singleton.mp hlast)) hn
  · have hother : homeOf id ≠ file := fun heq => hnew (heq ▸ (h.mem_removed hp).1)
    rw [hnode, if_neg hother, h.node_marked hp]
  · simp only [List.mem_append, List.mem_singleton, not_or] at hp ⊢
    rw [hedges, if_neg hp.2, h.edge_kept hp.1]
    by_cases htarget : homeOf k.target = file
    · rw [if_pos htarget, if_pos (.inr htarget)]
    · simp only [htarget, or_false, if_false]
  · obtain ⟨hold, hsource, -⟩ := hedge hk
    have hp := (List.mem_append.mp hp).resolve_right fun hlast => hsource (List.mem_singleton.mp hlast)
    exact (h.edge hp hold).imp_right (.imp_left (List.mem_append_left _))
  · -- an edge of a marked file does not end in one that is still to be removed
    have hsource := (h.mem_removed hp).1
    have hother : homeOf k.source ≠ file := fun heq => hnew (heq ▸ hsource)
    rw [hedges, if_neg hother, ← h.edge_marked hp]
    split
    · next htarget =>
      refine (Option.not_isSome_iff_eq_none.mp fun hk => ?_).symm
      exact (h.edge hsource hk).2.elim (fun hmem => hnew (htarget ▸ hmem)) fun hkept => hkept (htarget ▸ hfile)
    · rfl
  · change (if p = file then none else u.time? p) = _
    rw [h.time]
    by_cases hp : p = file
    · have hunmarked : file ∉ marked := fun hmem => hnew (h.mem_removed hmem).1
      simp [hp, hunmarked]
    · simp [hp]

theorem putNodes {ns : List Node} (hhome : ∀ n ∈ ns, n.AtHome)
    (hnew : ∀ {id n}, latest Node.id ns id = some n → n.Outside ∨ homeOf id ∈ removed ∧ w.node? id = some n) :
    Partway v w gone removed marked (u.putNodes ns) := by
  have hinside : ∀ {id n}, latest Node.id ns id = some n → homeOf id ≠ nowhere →
      homeOf id ∈ removed ∧ w.node? id = some n :=
    fun hn hid => (hnew hn).resolve_left fun hout => hid (key_of_latest hn ▸ hout.homeOf)
  have hnode : ∀ {id n}, (u.putNodes ns).node? id = some n → latest Node.id ns id = some n ∨ u.node? id = some n :=
    fun hn => (Option.or_eq_some_iff.mp hn).imp_right (·.2)
  refine { h with
    wf := h.wf.putNodes hhome
    outside := fun hn hid => ?_
    node_kept := fun {id} hid hp => ?_
    node := fun hp hn => ?_
    node_marked := fun {id} hp => ?_ }
  · rcases hnode hn with hlatest | hold
    · refine (hnew hlatest).resolve_right fun hmem => ?_
      exact (h.mem_gone hmem.1).2.proper.ne_nowhere hid
    · exact h.outside hold hid
  · have hnone : latest Node.id ns id = none := by
      by_contra hsome
      obtain ⟨n, hn⟩ := Option.ne_none_iff_exists'.mp hsome
      exact hp (hinside hn hid).1
    change (latest Node.id ns id).or (u.node? id) = _
    rw [hnone, Option.none_or, h.node_kept hid hp]
  · rcases hnode hn with hlatest | hold
    · exact (hinside hlatest (h.mem_gone hp).2.proper.ne_nowhere).2
    · exact h.node hp hold
  · change (latest Node.id ns id).or (u.node? id) = _
    cases hlatest : latest Node.id ns id with
    | none => rw [Option.none_or, h.node_marked hp]
    | some n => rw [Option.some_or, (hinside hlatest (h.mem_gone (h.mem_removed hp).1).2.proper.ne_nowhere).2]

/-- Nodes outside of files may always be written. -/
theorem putOutside {ns : List Node} (hout : ∀ n ∈ ns, n.Outside) (hhome : ∀ n ∈ ns, n.AtHome) :
    Partway v w gone removed marked (u.putNodes ns) :=
  h.putNodes hhome fun hn => .inl (hout _ (mem_of_latest hn))

theorem putEdges {es : List Edge} (hes : ∀ e ∈ es, u.Admits e)
    (hnew : ∀ e ∈ es, homeOf e.source ∈ removed ∧ homeOf e.source ∉ marked ∧ (w.edge? e.key).isSome ∧
      (homeOf e.target ∈ removed ∨ homeOf e.target ∉ gone)) :
    Partway v w gone removed marked (u.putEdges es) := by
  have hnone : ∀ {k}, (∀ e ∈ es, homeOf e.source ≠ homeOf k.source) → (u.putEdges es).edge? k = u.edge? k := by
    intro k hk
    have hlatest : latest Edge.key es k = none :=
      latest_eq_none_iff.mpr fun e he heq => hk e he (congrArg (fun k => homeOf k.source) heq)
    change (latest Edge.key es k).or (u.edge? k) = _
    rw [hlatest, Option.none_or]
  refine { h with
    wf := h.wf.putEdges hes
    edge_kept := fun hp => ?_
    edge := fun {k} hp hk => ?_
    edge_marked := fun hp => ?_ }
  · exact (hnone fun e he heq => hp (heq ▸ (hnew e he).1)).trans (h.edge_kept hp)
  · obtain ⟨e, he⟩ := Option.isSome_iff_exists.mp hk
    rcases Option.or_eq_some_iff.mp he with hlatest | ⟨-, hold⟩
    · obtain rfl := key_of_latest hlatest
      exact (hnew e (mem_of_latest hlatest)).2.2
    · exact h.edge hp (by rw [hold]; rfl)
  · exact (hnone fun e he heq => (hnew e he).2.1 (heq ▸ hp)).trans (h.edge_marked hp)

/-- A file of which all is there is marked. -/
theorem mark {time : Double} (hfile : file ∈ removed) (htime : w.time? file = some time)
    (hnode : ∀ id, homeOf id = file → u.node? id = w.node? id)
    (hedge : ∀ k, homeOf k.source = file → u.edge? k = w.edge? k) :
    Partway v w gone removed (marked ++ [file]) (u.setTime file time) := by
  have hlast : ∀ {p}, p ∈ marked ++ [file] → p ∈ marked ∨ p = file := fun hp =>
    (List.mem_append.mp hp).imp_right List.mem_singleton.mp
  refine { h with
    wf := h.wf.setTime file time
    mem_removed := fun hp => ?_
    node_marked := fun hp => (hlast hp).elim h.node_marked (hnode _)
    edge_marked := fun hp => (hlast hp).elim h.edge_marked (hedge _)
    time := fun p => ?_ }
  · rcases hlast hp with hp | rfl
    · exact h.mem_removed hp
    · exact ⟨hfile, by rw [htime]; rfl⟩
  · change (if p = file then some time else u.time? p) = _
    rw [h.time]
    by_cases hp : p = file
    · simp [hp, htime]
    · simp [hp]

/-! ### What holds all the way -/

/-- The edges of removed files end at nodes as they are in `w`. -/
theorem node_target (hkept : ∀ {id}, homeOf id ≠ nowhere → homeOf id ∉ gone → w.node? id = v.node? id) {k : EdgeKey}
    (hsource : homeOf k.source ∈ removed) (hk : (u.edge? k).isSome) (htarget : homeOf k.target ≠ nowhere) {n : Node}
    (hn : u.node? k.target = some n) : w.node? k.target = some n := by
  by_cases hmem : homeOf k.target ∈ removed
  · exact h.node hmem hn
  · rw [hkept htarget ((h.edge hsource hk).2.resolve_left hmem), ← h.node_kept htarget hmem, hn]

theorem linksTo_kept {name id : String} (hfile : file ∉ removed) (hlink : u.LinksTo file name id) :
    v.LinksTo file name id := by
  obtain ⟨hapart, hinside, ⟨n, hn, hname⟩, k, hk, rfl, rfl⟩ := hlink
  rw [h.edge_kept hfile] at hk
  split at hk
  · cases hk
  · next htarget => exact ⟨hapart, hinside, ⟨n, h.node_kept hinside htarget ▸ hn, hname⟩, k, hk, rfl, rfl⟩

theorem linksTo_removed (hkept : ∀ {id}, homeOf id ≠ nowhere → homeOf id ∉ gone → w.node? id = v.node? id)
    {name id : String} (hfile : file ∈ removed) (hlink : u.LinksTo file name id) : w.LinksTo file name id := by
  obtain ⟨hapart, hinside, ⟨n, hn, hname⟩, k, hk, rfl, rfl⟩ := hlink
  exact ⟨hapart, hinside, ⟨n, h.node_target hkept hfile hk hinside hn, hname⟩, k, (h.edge hfile hk).1, rfl, rfl⟩

theorem orderly (hv : v.Orderly) (hw : w.Uniform)
    (hkept : ∀ {id}, homeOf id ≠ nowhere → homeOf id ∉ gone → w.node? id = v.node? id) : u.Orderly where
  wf := h.wf
  outside := h.outside
  uniform := by
    refine ⟨fun {file name id id'} hlink hlink' => ?_, fun {file name id own n} hlink hn hhome hsymbol => ?_,
      fun {file name id k} hlink hk hsource => ?_⟩ <;> by_cases hfile : file ∈ removed
    · exact hw.same (h.linksTo_removed hkept hfile hlink) (h.linksTo_removed hkept hfile hlink')
    · exact hv.uniform.same (h.linksTo_kept hfile hlink) (h.linksTo_kept hfile hlink')
    · exact hw.foreign (h.linksTo_removed hkept hfile hlink) (h.node (hhome ▸ hfile) hn) hhome hsymbol
    · have hn : v.node? own = some n := by
        rwa [← h.node_kept (h.wf.home_ne_nowhere hn hsymbol) (hhome ▸ hfile)]
      exact hv.uniform.foreign (h.linksTo_kept hfile hlink) hn hhome hsymbol
    · exact hw.known (h.linksTo_removed hkept hfile hlink) (h.edge (hsource ▸ hfile) hk).1 hsource
    · rw [h.edge_kept (hsource ▸ hfile)] at hk
      split at hk
      · cases hk
      · exact hv.uniform.known (h.linksTo_kept hfile hlink) hk hsource
  inner {id n} hn hid := by
    by_cases hmem : homeOf id ∈ removed
    · exact (h.mem_gone hmem).2
    · rw [h.node_kept hid hmem] at hn
      exact hv.inner hn hid
  times {p} hp := by
    rw [h.time] at hp
    split at hp
    · next hmarked => exact (h.mem_gone (h.mem_removed hmarked).1).2
    · split at hp
      · cases hp
      · exact hv.times hp

end Partway

end CodeIndex.Graph
