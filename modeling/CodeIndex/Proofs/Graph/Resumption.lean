import CodeIndex.Proofs.Graph.Interruption

/-!
# A pass after one that stopped

The next pass over the same tree takes up the files that were not marked, and in the end all files have the nodes
and the links that they would have had. What it cannot find again are edges that the pass which stopped had set
aside: they came from files that neither pass reads, into files that were removed before the stop
(`resumed_edge?_eq_iff`). A forced pass reads all files and gives the graph that it gives after a pass that did
not stop.
-/

namespace CodeIndex.Graph

/-! ## Files and edges -/

/-- The edge takes the place of one from a file that stays to a file that was removed. -/
def Lost (v : View) (gone removed : List String) (ρ : String → Option String) (e : Edge) : Prop :=
  ∃ e₀ n t, v.edge? e₀.key = some e₀ ∧ homeOf e₀.source ∉ gone ∧ homeOf e₀.target ∈ removed ∧
    v.node? e₀.target = some n ∧ endOf (ρ n.name) e₀.kind n.name = some t ∧ e = { e₀ with target := t.1 }

section Views

variable {rd : Reader} {files : Dict Candidate} {gone gone' removed marked : List String}
  {ρ ρ' : String → Option String} {moved moved' : List Edge} {v w u w' : View}

/-- After a stop the files are to be replaced that were not removed, and those that were removed and not marked. -/
def Remaining (files : Dict Candidate) (gone removed marked : List String) (p : String) : Prop :=
  p ∈ gone ∧ (p ∉ removed ∨ p ∉ marked ∧ (files.lookup p).isSome)

/-- Files that were removed and are not taken up again are marked, or there is no such file any more. -/
theorem removed_of_not_mem (rd : Reader) (hgone : ∀ p, p ∈ gone' ↔ Remaining files gone removed marked p) {p : String}
    (hp : p ∈ gone) (hdone : p ∉ gone') : p ∈ removed ∧ (p ∈ marked ∨ graphOf rd files p = none) := by
  have hremaining := mt (hgone p).mpr hdone
  simp only [Remaining, hp, true_and, not_or, not_not, not_and, Bool.not_eq_true, Option.isSome_eq_false_iff,
    Option.isNone_iff_eq_none] at hremaining
  refine ⟨hremaining.1, ?_⟩
  by_cases hmarked : p ∈ marked
  · exact .inl hmarked
  · rw [graphOf, hremaining.2 hmarked]
    exact .inr rfl

section Resumed

variable (h : Indexed rd files gone ρ moved v w) (hu : Partway v w gone removed marked u)
  (hgone : ∀ p, p ∈ gone' ↔ Remaining files gone removed marked p)
include h hu hgone

/-- What is not taken up again has its edges. -/
theorem edge?_of_done {k : EdgeKey} (hmem : homeOf k.source ∈ gone) (hdone : homeOf k.source ∉ gone') :
    u.edge? k = w.edge? k := by
  obtain ⟨hremoved, hmarked | hnone⟩ := removed_of_not_mem rd hgone hmem hdone
  · exact hu.edge_marked hmarked
  · have hw : w.edge? k = none := by rw [h.edge, if_pos hmem, hnone]; rfl
    rw [hw]
    by_contra hsome
    have hk := (hu.edge hremoved (Option.isSome_iff_ne_none.mpr hsome)).1
    rw [hw] at hk
    cases hk

variable (h' : Indexed rd files gone' ρ' moved' u w')
include h'

theorem resumed_node? {id : String} (hid : homeOf id ≠ nowhere) : w'.node? id = w.node? id := by
  rw [h'.node id hid]
  split
  · next hmem => rw [h.node id hid, if_pos ((hgone _).mp hmem).1]
  · next hdone =>
    by_cases hmem : homeOf id ∈ gone
    · obtain ⟨hremoved, hmarked | hnone⟩ := removed_of_not_mem rd hgone hmem hdone
      · exact hu.node_marked hmarked
      · have hw : w.node? id = none := by rw [h.node id hid, if_pos hmem, hnone]; rfl
        rw [hw]
        by_contra hsome
        obtain ⟨n, hn⟩ := Option.ne_none_iff_exists'.mp hsome
        rw [hu.node hremoved hn] at hw
        cases hw
    · rw [h.node_kept hid hmem]
      exact hu.node_kept hid fun hremoved => hmem (hu.mem_gone hremoved).1

theorem resumed_names : ρ' = ρ := by
  funext name
  ext id
  rw [h'.names, h.names]
  refine View.only_congr (fun id hid => ?_) name id
  by_cases hhome : homeOf id = nowhere
  · rw [h'.wf.node?_eq_none hid hhome, h.wf.node?_eq_none hid hhome]
  · exact resumed_node? h hu hgone h' hhome

variable (huniform : u.Uniform)
include huniform

/-- The edges of a file that was related before the stop are found where they were. -/
theorem resumed_edge?_of_done (hfiles : Filed files) {k : EdgeKey} (hmem : homeOf k.source ∈ gone)
    (hdone : homeOf k.source ∉ gone') : w'.edge? k = w.edge? k := by
  have hρ := resumed_names h hu hgone h'
  -- an edge into a file that is taken up again ends where its name leads
  have hends : ∀ {e : Edge} {n : Node}, homeOf e.source = homeOf k.source → u.edge? e.key = some e →
      homeOf e.target ∈ gone' → u.node? e.target = some n → ρ n.name = some e.target := by
    intro e n hsource he htarget hn
    have hk : (u.edge? e.key).isSome := by rw [he]; rfl
    have hremoved := (removed_of_not_mem rd hgone hmem hdone).1
    have hinside : homeOf e.target ≠ nowhere := (h'.proper _ htarget).ne_nowhere
    have hnode : w.node? e.target = some n :=
      hu.node_target (fun hid hkept => h.node_kept hid hkept) (k := e.key) (hsource ▸ hremoved) hk hinside hn
    have hlink : w.LinksTo (homeOf k.source) n.name e.target :=
      ⟨fun heq => hdone (heq ▸ htarget), hinside, ⟨n, hnode, rfl⟩, e.key,
        by rw [← edge?_of_done h hu hgone (hsource ▸ hmem) (hsource ▸ hdone)]; exact hk, hsource, rfl⟩
    exact (h.resolve_of_linksTo hfiles hmem hlink).1
  rw [← edge?_of_done h hu hgone hmem hdone]
  ext e
  rw [h'.edge_kept_iff huniform hdone]
  constructor
  · rintro (⟨hold, -⟩ | ⟨rfl, e₀, n, t, hedge, -, htarget, hn, ht, rfl⟩)
    · exact hold
    · rw [hρ, hends rfl hedge htarget hn] at ht
      cases ht
      exact hedge
  · intro he
    obtain rfl := hu.wf.key he
    by_cases htarget : homeOf e.target ∈ gone'
    · obtain ⟨n, hn⟩ := Option.isSome_iff_exists.mp (hu.wf.target he)
      refine .inr ⟨rfl, e, n, (e.target, []), he, hdone, htarget, hn, ?_, rfl⟩
      rw [hρ, hends rfl he htarget hn]
      rfl
    · exact .inl ⟨he, htarget⟩

variable (hv : v.Uniform)
include hv

/-- Files that neither pass reads keep their edges but those that were lost. -/
theorem resumed_edge?_of_kept {k : EdgeKey} {e : Edge} (hkept : homeOf k.source ∉ gone) :
    w'.edge? k = some e ↔ w.edge? k = some e ∧ ¬Lost v gone removed ρ e := by
  have hkept' : homeOf k.source ∉ gone' := fun hmem => hkept ((hgone _).mp hmem).1
  have hold : ∀ (k : EdgeKey) {e : Edge}, homeOf k.source ∉ gone →
      (u.edge? k = some e ↔ v.edge? k = some e ∧ homeOf k.target ∉ removed) := by
    intro k e hk
    rw [hu.edge_kept fun hmem => hk (hu.mem_gone hmem).1]
    by_cases htarget : homeOf k.target ∈ removed <;> simp [htarget]
  rw [h'.edge_kept_iff huniform hkept', h.edge_kept_iff hv hkept, resumed_names h hu hgone h']
  constructor
  · rintro (⟨he, htarget⟩ | ⟨rfl, e₀, n, t, hedge, -, htarget, hn, ht, rfl⟩)
    · obtain rfl := hu.wf.key he
      obtain ⟨he, hremoved⟩ := (hold e.key hkept).mp he
      have hstays : homeOf e.target ∉ gone := fun hmem => htarget ((hgone _).mpr ⟨hmem, .inl hremoved⟩)
      refine ⟨.inl ⟨he, hstays⟩, ?_⟩
      rintro ⟨e₀, n, t, hedge, hsource, hlost, hn, ht, rfl⟩
      exact hstays (h.moved_apart hv ⟨e₀, n, t, hedge, hsource, (hu.mem_gone hlost).1, hn, ht, rfl⟩
        (by rw [he]; rfl))
    · obtain ⟨hedge, hremoved⟩ := (hold e₀.key hkept).mp hedge
      have hmem := ((hgone _).mp htarget).1
      rw [hu.node_kept (h'.proper _ htarget).ne_nowhere hremoved] at hn
      refine ⟨.inr ⟨rfl, e₀, n, t, hedge, hkept, hmem, hn, ht, rfl⟩, ?_⟩
      rintro ⟨e₁, m, t₁, hedge₁, -, htarget₁, hm, ht₁, heq⟩
      rw [Edge.mk.injEq] at heq
      have hsame := h.moved_from hv hedge hkept hmem hn ht hedge₁ (hu.mem_gone htarget₁).1 hm ht₁ heq.1 heq.2.1
      exact hremoved (show homeOf e₀.target ∈ removed from hsame ▸ htarget₁)
  · rintro ⟨⟨he, htarget⟩ | ⟨rfl, e₀, n, t, hedge, hsource, htarget, hn, ht, rfl⟩, hfound⟩
    · have hremoved : homeOf k.target ∉ removed := fun hmem => htarget (hu.mem_gone hmem).1
      exact .inl ⟨(hold k hkept).mpr ⟨he, hremoved⟩, fun hmem => htarget ((hgone _).mp hmem).1⟩
    · have hremoved : homeOf e₀.target ∉ removed := fun hmem =>
        hfound ⟨e₀, n, t, hedge, hsource, hmem, hn, ht, rfl⟩
      have hmem : homeOf e₀.target ∈ gone' := (hgone _).mpr ⟨htarget, .inl hremoved⟩
      refine .inr ⟨rfl, e₀, n, t, (hold e₀.key hkept).mpr ⟨hedge, hremoved⟩, hkept', hmem, ?_, ht, rfl⟩
      rw [hu.node_kept (h'.proper _ hmem).ne_nowhere hremoved, hn]

/-- The edges are the same if none was lost. -/
theorem resumed_edge?_eq_iff (hfiles : Filed files) : w'.edge? = w.edge? ↔ ∀ e, ¬Lost v gone removed ρ e := by
  constructor
  · intro hedges e hlost
    obtain ⟨e₀, n, t, hedge, hsource, htarget, hn, ht, rfl⟩ := hlost
    set e : Edge := { e₀ with target := t.1 }
    have hkept : homeOf e.key.source ∉ gone := hsource
    have hw : w.edge? e.key = some e := (h.edge_kept_iff hv hkept).mpr
      (.inr ⟨rfl, e₀, n, t, hedge, hsource, (hu.mem_gone htarget).1, hn, ht, rfl⟩)
    rw [← hedges] at hw
    exact ((resumed_edge?_of_kept h hu hgone h' huniform hv hkept).mp hw).2
      ⟨e₀, n, t, hedge, hsource, htarget, hn, ht, rfl⟩
  · intro hfound
    funext k
    by_cases hmem : homeOf k.source ∈ gone
    · by_cases hagain : homeOf k.source ∈ gone'
      · rw [h'.edge, if_pos hagain, h.edge, if_pos hmem, resumed_names h hu hgone h']
      · exact resumed_edge?_of_done h hu hgone h' huniform hfiles hmem hagain
    · ext e
      rw [resumed_edge?_of_kept h hu hgone h' huniform hv hmem, and_iff_left (hfound e)]

end Resumed

/-- A pass after one that had linked all files has no file to read. -/
theorem finished_kept (h : Indexed rd files gone ρ moved v w) (hu : u.Orderly)
    (hnode : ∀ {id n}, u.node? id = some n → w.node? id = some n) (h' : Indexed rd files gone' ρ' moved' u w')
    (hgone : ∀ p ∈ gone', p ∈ gone ∧ graphOf rd files p = none) :
    (∀ id, homeOf id ≠ nowhere → w'.node? id = u.node? id) ∧ w'.edge? = u.edge? := by
  -- nothing is there of the files that fail again
  have hlacks : ∀ {id}, homeOf id ∈ gone' → u.node? id = none := by
    intro id hid
    by_contra hsome
    obtain ⟨n, hn⟩ := Option.ne_none_iff_exists'.mp hsome
    obtain ⟨hmem, hnone⟩ := hgone _ hid
    have hw := hnode hn
    rw [h.node id (h'.proper _ hid).ne_nowhere, if_pos hmem, hnone] at hw
    cases hw
  refine ⟨fun id hid => ?_, ?_⟩
  · rw [h'.node id hid]
    split
    · next hmem => rw [(hgone _ hmem).2, hlacks hmem]; rfl
    · rfl
  · funext k
    ext e
    by_cases hmem : homeOf k.source ∈ gone'
    · rw [h'.edge, if_pos hmem, (hgone _ hmem).2]
      refine iff_of_false (by simp) fun he => ?_
      have hsource := hu.wf.source he
      rw [hlacks hmem] at hsource
      cases hsource
    · rw [h'.edge_kept_iff hu.uniform hmem]
      constructor
      · rintro (⟨he, -⟩ | ⟨-, e₀, n, t, -, -, htarget, hn, -⟩)
        · exact he
        · rw [hlacks htarget] at hn
          cases hn
      · refine fun he => .inl ⟨he, fun htarget => ?_⟩
        have hsome := hu.wf.target he
        rw [hlacks htarget] at hsome
        cases hsome

/-- Where all nodes are those of the present files, so are the edges, by what names mean. -/
theorem edge?_of_current (h : Indexed rd files gone ρ moved v w) (hnodes : Current rd files w)
    (hall : ∀ p, (files.lookup p).isSome → p ∈ gone) (k : EdgeKey) :
    w.edge? k = (graphOf rd files (homeOf k.source)).bind fun f => latest Edge.key (f.edges ++ f.linkEdges ρ) k := by
  by_cases hmem : homeOf k.source ∈ gone
  · rw [h.edge, if_pos hmem]
  · have hlookup : files.lookup (homeOf k.source) = none :=
      Option.not_isSome_iff_eq_none.mp (mt (hall _) hmem)
    have hgraph : graphOf rd files (homeOf k.source) = none := by rw [graphOf, hlookup]; rfl
    rw [hgraph, Option.bind_none]
    by_contra hsome
    obtain ⟨e, he⟩ := Option.ne_none_iff_exists'.mp hsome
    have hsource := h.wf.source he
    rw [hnodes _ (h.wf.inside he), hgraph] at hsource
    cases hsource

end Views

/-! ## Times -/

section Times

/-- A file is due if it has a time and is gone, or is there with a later time than it has. -/
def Due (files : Dict Candidate) (time : Option Double) (p : String) : Prop :=
  time.isSome ∧ files.lookup p = none ∨
    ∃ c, files.lookup p = some c ∧ ∀ t, time = some t → t.lt c.mtime = true

theorem due_none {files : Dict Candidate} {p : String} : Due files none p ↔ (files.lookup p).isSome := by
  simp [Due, Option.isSome_iff_exists]

/-- A file that was just marked is not due. -/
theorem not_due_timeOf {rd : Reader} {files : Dict Candidate} {p : String} (h : (timeOf rd files p).isSome) :
    ¬Due files (timeOf rd files p) p := by
  obtain ⟨time, htime⟩ := Option.isSome_iff_exists.mp h
  obtain ⟨c, hc, hof⟩ := Option.bind_eq_some_iff.mp htime
  obtain ⟨f, hf, rfl⟩ := Option.map_eq_some_iff.mp hof
  rw [htime]
  rintro (⟨-, hnone⟩ | ⟨c', hc', hlater⟩)
  · rw [hc] at hnone
    cases hnone
  · rw [hc, Option.some.injEq] at hc'
    have hlt := hlater _ rfl
    simp [hc', Double.lt] at hlt

open LawfulStore

variable {σ : Type} [Store σ] [LawfulStore σ] {s s' : σ} {rd : Reader} {files : Dict Candidate} {p : String}

theorem mem_replaced_iff_due (h : Valid s) (hfiles : Filed files) :
    p ∈ vanishedFiles s files ++ staleFiles s false files ↔ Due files ((view s).time? p) p := by
  rw [List.mem_append, mem_vanishedFiles h, mem_staleFiles h hfiles]
  simp [Due]

variable {gone removed marked : List String} {ρ : String → Option String} {moved : List Edge} {w : View}
  (h : Valid s) (h' : Valid s') (hfiles : Filed files)
  (hindexed : Indexed rd files (vanishedFiles s files ++ staleFiles s false files) ρ moved (view s) w)
include h h' hfiles hindexed

theorem mem_replaced_iff_remaining
    (hpartway : Partway (view s) w (vanishedFiles s files ++ staleFiles s false files) removed marked (view s')) :
    p ∈ vanishedFiles s' files ++ staleFiles s' false files ↔
      Remaining files (vanishedFiles s files ++ staleFiles s false files) removed marked p := by
  rw [mem_replaced_iff_due h' hfiles, Remaining, hpartway.time]
  by_cases hmarked : p ∈ marked
  · obtain ⟨hremoved, htime⟩ := hpartway.mem_removed hmarked
    rw [hindexed.time, if_pos (hpartway.mem_gone hremoved).1] at htime ⊢
    simp [hmarked, hremoved, not_due_timeOf htime]
  · rw [if_neg hmarked]
    by_cases hremoved : p ∈ removed
    · simp only [hremoved, if_true, due_none, hmarked, (hpartway.mem_gone hremoved).1]
      simp
    · rw [if_neg hremoved, ← mem_replaced_iff_due h hfiles]
      simp [hremoved]

theorem mem_replaced_of_finished (htime : (view s').time? = w.time?)
    (hp : p ∈ vanishedFiles s' files ++ staleFiles s' false files) :
    p ∈ vanishedFiles s files ++ staleFiles s false files ∧ graphOf rd files p = none := by
  rw [mem_replaced_iff_due h' hfiles, htime, hindexed.time] at hp
  split at hp
  · next hmem =>
    refine ⟨hmem, ?_⟩
    by_contra hsome
    obtain ⟨f, hf⟩ := Option.ne_none_iff_exists'.mp hsome
    obtain ⟨c, hc, hof⟩ := graphOf_eq_some.mp hf
    exact not_due_timeOf (by rw [timeOf_eq_some hc hof]; rfl) hp
  · next hmem => exact absurd ((mem_replaced_iff_due h hfiles).mpr hp) hmem

end Times

/-! ## Passes -/

section Pass

open LawfulStore

variable {σ : Type} [Store σ]

/-- The same nodes and edges. -/
structure SameGraph (s t : σ) : Prop where
  node : ∀ id, Store.node? s id = Store.node? t id
  edge : ∀ e, e ∈ Store.allEdges s ↔ e ∈ Store.allEdges t

variable [LawfulStore σ] {s s' t : σ} {rd : Reader} {files : Dict Candidate} {gone gone' : List String}
  {pass pass' : Pass σ} {ws ws' : List Write} {linked linked' : σ} {count : Nat}

theorem sameGraph_iff (hs : Valid s) (ht : Valid t) :
    SameGraph s t ↔ (view s).node? = (view t).node? ∧ (view s).edge? = (view t).edge? := by
  constructor
  · intro h
    refine ⟨funext fun id => ?_, ?_⟩
    · rw [← node?_eq hs, ← node?_eq ht, h.node]
    · funext k
      ext e
      refine ⟨fun he => ?_, fun he => ?_⟩
      · obtain rfl := key_of_edge? hs he
        exact (mem_allEdges ht).mp ((h.edge e).mp ((mem_allEdges hs).mpr he))
      · obtain rfl := key_of_edge? ht he
        exact (mem_allEdges hs).mp ((h.edge e).mpr ((mem_allEdges ht).mpr he))
  · rintro ⟨hnode, hedge⟩
    refine ⟨fun id => ?_, fun e => ?_⟩
    · rw [node?_eq hs, node?_eq ht, hnode]
    · rw [mem_allEdges hs, mem_allEdges ht, hedge]

/-- Passes that give all files the same nodes differ in edges only. -/
theorem Course.sameGraph_iff (h : Course rd files gone s pass ws linked)
    (h' : Course rd files gone' s' pass' ws' linked')
    (hnode : ∀ id, homeOf id ≠ nowhere → (view linked').node? id = (view linked).node? id) :
    SameGraph pass'.store pass.store ↔ (view linked').edge? = (view linked).edge? := by
  obtain ⟨hvalid, hview⟩ := h.view_store
  obtain ⟨hvalid', hview'⟩ := h'.view_store
  rw [Graph.sameGraph_iff hvalid' hvalid, hview, hview']
  exact and_iff_right_of_imp fun hedge => h'.orderly.node?_prune_eq h.orderly hnode hedge

/-- Names and edges that a pass leaves to the next are lost or not, as seen in the store. -/
theorem lost_iff (h : Valid s) (hwf : (view s).WellFormed) {removed : List String} (hinner : ∀ q ∈ removed, InnerPath q)
    {ρ : String → Option String} :
    (∀ e, ¬Lost (view s) gone removed ρ e) ↔
      ∀ p ∉ gone, ∀ e n, Leaves s p e → Enters s removed e n → endOf (ρ n.name) e.kind n.name = none := by
  simp only [leaves_iff h hwf, enters_iff h hwf hinner]
  constructor
  · rintro hfound p hp e n ⟨he, rfl⟩ ⟨hn, htarget⟩
    by_contra hsome
    obtain ⟨t, ht⟩ := Option.ne_none_iff_exists'.mp hsome
    exact hfound _ ⟨e, n, t, he, hp, htarget, hn, ht, rfl⟩
  · rintro hnone e ⟨e₀, n, t, he, hp, htarget, hn, ht, rfl⟩
    rw [hnone _ hp e₀ n ⟨he, rfl⟩ ⟨hn, htarget⟩] at ht
    cases ht

/-- A pass after one that stopped partway. -/
theorem Course.resumed_iff (h : Valid s) (hs : (view s).Orderly) (hfiles : Filed files) (hroot : files.lookup "" = none)
    (hcourse : Course rd files (vanishedFiles s files ++ staleFiles s false files) s pass ws linked)
    (hcount : count ≤ ws.length) :
    SameGraph (index rd none false files [] (stoppedAfter count pass.writes s)).store pass.store ↔
      ∀ p ∉ vanishedFiles s files ++ staleFiles s false files, ∀ e n, Leaves s p e →
        Enters s (removedBy (pass.writes.take count)) e n → endOf (resolve linked n.name) e.kind n.name = none := by
  obtain ⟨-, hvalid, hpartway⟩ := (hcourse.stopped_cases count).resolve_right fun hlate => absurd hcount hlate.1.not_ge
  obtain ⟨-, horderly⟩ := hcourse.orderly_stopped hs count
  obtain ⟨moved, hindexed⟩ := hcourse.indexed
  obtain ⟨ws', linked', hcourse'⟩ := index_course hvalid horderly hfiles hroot rd false
  obtain ⟨moved', hindexed'⟩ := hcourse'.indexed
  have hgone := fun p => @mem_replaced_iff_remaining _ _ _ _ _ _ _ p _ _ _ _ _ h hvalid hfiles hindexed hpartway
  rw [hcourse.sameGraph_iff hcourse' fun id hid => resumed_node? hindexed hpartway hgone hindexed' hid,
    resumed_edge?_eq_iff hindexed hpartway hgone hindexed' horderly.uniform hs.uniform hfiles,
    lost_iff h hs.wf fun q hq => (hpartway.mem_gone hq).2]

/-- A pass after one that had written all edges. -/
theorem Course.finished_sameGraph (h : Valid s) (hs : (view s).Orderly) (hfiles : Filed files)
    (hroot : files.lookup "" = none)
    (hcourse : Course rd files (vanishedFiles s files ++ staleFiles s false files) s pass ws linked)
    (hcount : ws.length < count) :
    SameGraph (index rd none false files [] (stoppedAfter count pass.writes s)).store pass.store := by
  obtain ⟨-, hlast⟩ := (hcourse.stopped_cases count).resolve_left fun hearly => absurd hearly.1 hcount.not_ge
  obtain ⟨hvalid, horderly⟩ := hcourse.orderly_stopped hs count
  set stopped := stoppedAfter count pass.writes s
  obtain ⟨hpass, hview⟩ := hcourse.view_store
  obtain ⟨moved, hindexed⟩ := hcourse.indexed
  obtain ⟨ws', linked', hcourse'⟩ := index_course hvalid horderly hfiles hroot rd false
  obtain ⟨moved', hindexed'⟩ := hcourse'.indexed
  have hrest : view stopped = view linked ∨ view stopped = (view linked).prune [moduleKind, externalType] :=
    hlast.imp (congrArg view) fun heq => (congrArg view heq).trans hview
  have htime : (view stopped).time? = (view linked).time? := hrest.elim (congrArg View.time?) (congrArg View.time?)
  have hedge : (view stopped).edge? = (view linked).edge? := hrest.elim (congrArg View.edge?) (congrArg View.edge?)
  have hnode : ∀ {id n}, (view stopped).node? id = some n → (view linked).node? id = some n := by
    intro id n hn
    rcases hrest with heq | heq <;> rw [heq] at hn
    · exact hn
    · exact (View.node?_prune.mp hn).1
  have hpruned : ((view stopped).prune [moduleKind, externalType]).node? = (view pass.store).node? := by
    rw [hview]
    rcases hrest with heq | heq <;> rw [heq]
    rw [View.prune_idem]
  obtain ⟨hkept, hedges⟩ := finished_kept hindexed horderly hnode hindexed' fun p hp =>
    mem_replaced_of_finished h hvalid hfiles hindexed htime hp
  obtain ⟨hpass', hview'⟩ := hcourse'.view_store
  rw [Graph.sameGraph_iff hpass' hpass]
  constructor
  · rw [← hpruned, hview']
    exact hcourse'.orderly.node?_prune_eq horderly hkept hedges
  · rw [hview, hview']
    exact hedges.trans hedge

/-! ### Forced passes -/

/-- The nodes of a file are there once it has a time, or else it is one of the files. -/
def Accounted (files : Dict Candidate) (v : View) : Prop :=
  ∀ id n, v.node? id = some n → homeOf id ≠ nowhere → (v.time? (homeOf id)).isSome ∨ (files.lookup (homeOf id)).isSome

/-- A forced pass replaces everything. -/
theorem Accounted.current {ρ : String → Option String} {moved : List Edge} {w : View} (h : Valid s)
    (hs : Accounted files (view s)) (hfiles : Filed files)
    (hindexed : Indexed rd files (vanishedFiles s files ++ staleFiles s true files) ρ moved (view s) w) :
    Current rd files w := by
  intro id hid
  rw [hindexed.node id hid]
  split
  · rfl
  · next hkept =>
    simp only [List.mem_append, mem_vanishedFiles h, mem_staleFiles h hfiles, true_or, and_true, not_or, not_and,
      ← Option.isSome_iff_exists, Bool.not_eq_true, Option.isSome_eq_false_iff, Option.isNone_iff_eq_none] at hkept
    obtain ⟨hvanished, hlookup⟩ := hkept
    have hgraph : graphOf rd files (homeOf id) = none := by rw [graphOf, hlookup]; rfl
    rw [hgraph, Option.bind_none]
    by_contra hsome
    obtain ⟨n, hn⟩ := Option.ne_none_iff_exists'.mp hsome
    rcases hs id n hn hid with htime | hfile
    · exact hvanished htime hlookup
    · rw [hlookup] at hfile
      cases hfile

/-- So it makes the same graph of all that is accounted for. -/
theorem forced_sameGraph (h : Valid s) (hs : (view s).Orderly) (ht : Valid t) (ht' : (view t).Orderly)
    (hfiles : Filed files) (hroot : files.lookup "" = none) (rd : Reader) (haccount : Accounted files (view s))
    (haccount' : Accounted files (view t)) :
    SameGraph (index rd none true files [] s).store (index rd none true files [] t).store := by
  obtain ⟨ws, linked, hcourse⟩ := index_course h hs hfiles hroot rd true
  obtain ⟨ws', linked', hcourse'⟩ := index_course ht ht' hfiles hroot rd true
  obtain ⟨moved, hindexed⟩ := hcourse.indexed
  obtain ⟨moved', hindexed'⟩ := hcourse'.indexed
  have hnodes := haccount.current h hfiles hindexed
  have hnodes' := haccount'.current ht hfiles hindexed'
  have hall : ∀ {a : σ}, Valid a → ∀ p, (files.lookup p).isSome →
      p ∈ vanishedFiles a files ++ staleFiles a true files := by
    intro a ha p hp
    obtain ⟨c, hc⟩ := Option.isSome_iff_exists.mp hp
    exact List.mem_append_right _ ((mem_staleFiles ha hfiles).mpr ⟨c, hc, .inl rfl⟩)
  refine (hcourse'.sameGraph_iff hcourse fun id hid => (hnodes id hid).trans (hnodes' id hid).symm).mpr ?_
  funext k
  rw [edge?_of_current hindexed hnodes (hall h), edge?_of_current hindexed' hnodes' (hall ht),
    hnodes.resolve_eq hnodes' hcourse.valid hcourse'.valid hindexed.wf hindexed'.wf]

/-- What a pass writes of a file, it writes of one of the files. -/
theorem Course.accounted (hcourse : Course rd files gone s pass ws linked)
    (hs : ∀ {id n}, (view s).node? id = some n → homeOf id ≠ nowhere → ((view s).time? (homeOf id)).isSome)
    (count : Nat) :
    Accounted files (view (stoppedAfter count pass.writes s)) := by
  obtain ⟨moved, hindexed⟩ := hcourse.indexed
  have hfile : ∀ {id n}, homeOf id ∈ gone → (view linked).node? id = some n → (files.lookup (homeOf id)).isSome := by
    intro id n hmem hn
    rw [hindexed.node id (hindexed.proper _ hmem).ne_nowhere, if_pos hmem] at hn
    obtain ⟨f, hf, -⟩ := Option.bind_eq_some_iff.mp hn
    obtain ⟨c, hc, -⟩ := graphOf_eq_some.mp hf
    rw [hc]
    rfl
  have hlinked : Accounted files (view linked) := by
    intro id n hn hid
    by_cases hmem : homeOf id ∈ gone
    · exact .inr (hfile hmem hn)
    · rw [hindexed.node_kept hid hmem] at hn
      rw [hindexed.time, if_neg hmem]
      exact .inl (hs hn hid)
  rcases hcourse.stopped_cases count with ⟨-, -, hpartway⟩ | ⟨-, heq | heq⟩
  · intro id n hn hid
    by_cases hremoved : homeOf id ∈ removedBy (pass.writes.take count)
    · exact .inr (hfile (hpartway.mem_gone hremoved).1 (hpartway.node hremoved hn))
    · have hunmarked : homeOf id ∉ markedBy (pass.writes.take count) := fun hmarked =>
        hremoved (hpartway.mem_removed hmarked).1
      rw [hpartway.node_kept hid hremoved] at hn
      rw [hpartway.time, if_neg hunmarked, if_neg hremoved]
      exact .inl (hs hn hid)
  · rw [heq]
    exact hlinked
  · obtain ⟨-, hview⟩ := hcourse.view_store
    rw [heq, hview]
    exact fun id n hn hid => hlinked id n (View.node?_prune.mp hn).1 hid

/-! ### Stops -/

/-- A pass that stops after some of its writes, over whatever was there after passes that may have stopped, and
one over the same tree that does not stop. The graph is then as if the first had not stopped exactly if the first
had put back the edges that it sets aside, or the files that it had removed had no edges from other files, which it
does not read, that it would have put back. If every file with nodes was indexed, a forced pass makes the stop good. -/
theorem resumed_pass_iff (h : AfterStops σ s) (rd : Reader) (policy : IgnorePolicy) (root : String) (d : Disk)
    (hpaths : Nested rd policy root d) (count : Nat) :
    let files := filesIn rd policy root d
    let pass := index rd none false files [] s
    let stopped := stoppedAfter count pass.writes s
    let linked := stoppedAfter (pass.writes.length - 1) pass.writes s
    stoppedAfter pass.writes.length pass.writes s = pass.store ∧
      (SameGraph (index rd none false files [] stopped).store pass.store ↔ pass.writes.length ≤ count + 1 ∨
        ∀ p ∉ vanishedFiles s files ++ staleFiles s false files, ∀ e n, Leaves s p e →
          Enters s (removedBy (pass.writes.take count)) e n → endOf (resolve linked n.name) e.kind n.name = none) ∧
      ((∀ id n, Store.node? s id = some n → n.file ≠ "" → n.file ∈ Store.indexedFiles s) →
        SameGraph (index rd none true files [] stopped).store (index rd none true files [] pass.store).store) := by
  intro files pass stopped linked
  obtain ⟨hvalid, hs⟩ := h.orderly
  have hfiles : Filed files := filed_filesIn hpaths.addressed
  have hroot : files.lookup "" = none := hpaths.lookup_root
  obtain ⟨ws, last, hcourse⟩ := index_course hvalid hs hfiles hroot rd false
  have hlength : pass.writes.length = ws.length + 2 := hcourse.length_writes
  have hlinked : linked = last := by
    rw [← hcourse.stoppedAfter_linked]
    exact congrArg (stoppedAfter · pass.writes s) (by omega)
  have hstore : stoppedAfter pass.writes.length pass.writes s = pass.store := hcourse.stoppedAfter_all (by omega)
  refine ⟨hstore, ?_, fun hindexed => ?_⟩
  · rcases Nat.lt_or_ge ws.length count with hlate | hearly
    · exact iff_of_true (hcourse.finished_sameGraph hvalid hs hfiles hroot hlate) (.inl (by omega))
    · rw [hlinked, or_iff_right (by omega)]
      exact hcourse.resumed_iff hvalid hs hfiles hroot hearly
  · have htimes : ∀ {id n}, (view s).node? id = some n → homeOf id ≠ nowhere → ((view s).time? (homeOf id)).isSome := by
      intro id n hn hid
      have hhome : homeOf id = n.file := hs.wf.home hn hid
      have hfile : n.file ≠ "" := hhome ▸ (hs.inner hn hid).ne_empty
      rw [hhome]
      exact (mem_indexedFiles hvalid).mp (hindexed id n ((node?_eq hvalid id).trans hn) hfile)
    obtain ⟨hstopped, horderly⟩ := hcourse.orderly_stopped hs count
    obtain ⟨hpass, horderly'⟩ := hcourse.orderly_stopped hs pass.writes.length
    have haccount := hcourse.accounted htimes pass.writes.length
    rw [hstore] at hpass horderly' haccount
    exact forced_sameGraph hstopped horderly hpass horderly' hfiles hroot rd (hcourse.accounted htimes count) haccount

end Pass

/-! ### A class and its base -/

section Hierarchy

open LawfulStore

/-- The graph of a class and its base. -/
def hierarchyGraph : MemoryGraph :=
  stoppedAfter 100 (index classReader none true (filesIn classReader ⟨[]⟩ "" baseAndDerived) []
    (Store.empty : MemoryGraph)).writes Store.empty

theorem inner_of_removedBy {ws : List Write} {file : String} (h : ws = [.deleteFile file])
    (hfile : file ≠ "" ∧ ':' ∉ file.toList) : ∀ q ∈ removedBy ws, InnerPath q := by
  intro q hq
  rw [h] at hq
  exact List.mem_singleton.mp hq ▸ ⟨⟨hfile.2⟩, hfile.1⟩

theorem afterStops_hierarchyGraph : AfterStops MemoryGraph hierarchyGraph :=
  .pass .empty classReader ⟨[]⟩ "" baseAndDerived (nested_of_forall filesIn_baseAndDerived (by decide +kernel))
    true 100

/-- The file of the class goes, and the pass that finds out stops after its first write. -/
theorem resumed_pass_iff_derived :
    let d := ({} : Disk).put "a.c" ⟨[65], 3, none⟩
    let files := filesIn classReader ⟨[]⟩ "" d
    let pass := index classReader none false files [] hierarchyGraph
    let stopped := stoppedAfter 1 pass.writes hierarchyGraph
    (AfterStops MemoryGraph hierarchyGraph ∧ Nested classReader ⟨[]⟩ "" d) ∧
      pass.writes.take 1 = [.deleteFile "b.c"] ∧
      SameGraph (index classReader none false files [] stopped).store pass.store ∧
      SameGraph (index classReader none true files [] stopped).store
        (index classReader none true files [] pass.store).store := by
  intro d files pass stopped
  have hfiles : files = [("a.c", ⟨"a.c", "classes", ⟨[65], 3, none⟩⟩)] := by decide +kernel
  have hpaths : Nested classReader ⟨[]⟩ "" d := nested_of_forall hfiles (by decide +kernel)
  have hfirst : pass.writes.take 1 = [.deleteFile "b.c"] := by
    simp only [pass, hfiles, hierarchyGraph]
    rw [filesIn_baseAndDerived]
    decide +kernel
  have hgone : vanishedFiles hierarchyGraph files ++ staleFiles hierarchyGraph false files = ["b.c"] := by
    rw [hfiles, hierarchyGraph, filesIn_baseAndDerived]
    decide +kernel
  -- what ends in the file of the class starts there
  have hedges : ∀ e ∈ Store.allEdges hierarchyGraph, homeOf e.target = "b.c" → homeOf e.source = "b.c" := by
    rw [hierarchyGraph, filesIn_baseAndDerived]
    decide +kernel
  have hindexed : ∀ entry ∈ hierarchyGraph.nodes, entry.2.file ∈ Store.indexedFiles hierarchyGraph := by
    rw [hierarchyGraph, filesIn_baseAndDerived]
    decide +kernel
  obtain ⟨hvalid, hs⟩ := afterStops_hierarchyGraph.orderly
  obtain ⟨-, hsame, hforced⟩ := resumed_pass_iff afterStops_hierarchyGraph classReader ⟨[]⟩ "" d hpaths 1
  refine ⟨⟨afterStops_hierarchyGraph, hpaths⟩, hfirst, hsame.mpr (.inr fun p hp e n hleaves henters => ?_),
    hforced fun id n hn _ => hindexed (id, n) (Dict.mem_of_lookup hn)⟩
  obtain ⟨-, rfl⟩ := (leaves_iff hvalid hs.wf).mp hleaves
  obtain ⟨-, htarget⟩ := (enters_iff hvalid hs.wf (inner_of_removedBy hfirst (by decide))).mp henters
  have htarget : homeOf e.target ∈ removedBy (pass.writes.take 1) := htarget
  rw [hfirst] at htarget
  refine absurd ?_ hp
  rw [show homeOf e.source = "b.c" from hedges e hleaves.1 (List.mem_singleton.mp htarget)]
  exact hgone ▸ List.mem_singleton_self _

/-- The base has a later time, and the pass that reads it again stops after its first write: the class, which
no pass reads, has no base any more. -/
theorem edge_lost_after_stop :
    let files := filesIn classReader ⟨[]⟩ "" ((({} : Disk).put "a.c" ⟨[65], 30, none⟩).put "b.c" ⟨[66, 32, 65], 10, none⟩)
    let pass := index classReader none false files [] hierarchyGraph
    let resumed := (index classReader none false files [] (stoppedAfter 1 pass.writes hierarchyGraph)).store
    let edge : Edge := { source := "symbol:b.c:B", target := "symbol:a.c:A", kind := .inherits
                         metadata := [("file", "b.c"), ("line", "1")] }
    AfterStops MemoryGraph hierarchyGraph ∧ pass.writes.take 1 = [.deleteFile "a.c"] ∧
      edge ∈ Store.allEdges hierarchyGraph ∧ edge ∉ Store.allEdges resumed ∧ ¬SameGraph resumed pass.store := by
  intro files pass resumed edge
  have hwalk : IgnorePolicy.walk ⟨[]⟩ ((({} : Disk).put "a.c" ⟨[65], 30, none⟩).put "b.c" ⟨[66, 32, 65], 10, none⟩) "" =
      [("a.c", ⟨[65], 30, none⟩), ("b.c", ⟨[66, 32, 65], 10, none⟩)] := by
    rw [IgnorePolicy.walk_of_directory rfl, List.mergeSort_of_pairwise]
    · decide +kernel
    · decide +kernel
  have hfiles : files = [("a.c", ⟨"a.c", "classes", ⟨[65], 30, none⟩⟩), ("b.c", ⟨"b.c", "classes", ⟨[66, 32, 65], 10, none⟩⟩)] := by
    simp only [files, filesIn, candidates]
    rw [hwalk]
    decide +kernel
  have hwrites : pass.writes.length = 9 ∧ pass.writes.take 1 = [.deleteFile "a.c"] := by
    simp only [pass, hfiles, hierarchyGraph]
    rw [filesIn_baseAndDerived]
    decide +kernel
  have hgone : vanishedFiles hierarchyGraph files ++ staleFiles hierarchyGraph false files = ["a.c"] := by
    rw [hfiles, hierarchyGraph, filesIn_baseAndDerived]
    decide +kernel
  have hedge : edge ∈ Store.allEdges hierarchyGraph := by
    rw [hierarchyGraph, filesIn_baseAndDerived]
    decide +kernel
  have hlost : edge ∉ Store.allEdges resumed := by
    simp only [resumed, pass, hfiles, hierarchyGraph]
    rw [filesIn_baseAndDerived]
    decide +kernel
  have hnode : (Store.node? hierarchyGraph edge.target).isSome := by
    rw [hierarchyGraph, filesIn_baseAndDerived]
    decide +kernel
  obtain ⟨hvalid, hs⟩ := afterStops_hierarchyGraph.orderly
  have hnested := nested_of_forall hfiles (by decide +kernel)
  have hfiled : Filed files := filed_filesIn hnested.addressed
  obtain ⟨ws, linked, hcourse⟩ := index_course hvalid hs hfiled hnested.lookup_root classReader false
  obtain ⟨n, hn⟩ := Option.isSome_iff_exists.mp hnode
  have hcount : 1 ≤ ws.length := by
    have hlength : pass.writes.length = ws.length + 2 := hcourse.length_writes
    omega
  refine ⟨afterStops_hierarchyGraph, hwrites.2, hedge, hlost, fun hsame => ?_⟩
  have hnone := (hcourse.resumed_iff hvalid hs hfiled hnested.lookup_root hcount).mp hsame "b.c"
    (by rw [hgone]; decide) edge n
    ((leaves_iff hvalid hs.wf).mpr ⟨(mem_allEdges hvalid).mp hedge, by decide +kernel⟩)
    ((enters_iff hvalid hs.wf (inner_of_removedBy hwrites.2 (by decide))).mpr ⟨(node?_eq hvalid _).symm.trans hn, by
      rw [hwrites.2]
      decide +kernel⟩)
  -- a base is sought outside if it is nowhere else
  cases hfound : resolve linked n.name <;> simp [edge, endOf, EdgeKind.reachesOutside, hfound] at hnone

end Hierarchy

end CodeIndex.Graph
