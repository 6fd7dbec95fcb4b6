import CodeIndex.Proofs.Graph.Indexed

/-!
# Links between files

Files agree with themselves: all links of a file to a name of other files end at one node, the file has no
symbol of that name, and it does not take the name for an external type. So the edges that a pass moves do not
get into each other's way or into that of edges that stay, and a pass keeps this.
-/

namespace CodeIndex.Graph

/-- The file has an edge to a node of another file, which has the name. -/
structure View.LinksTo (v : View) (file name id : String) : Prop where
  apart : homeOf id ≠ file
  inside : homeOf id ≠ nowhere
  node : ∃ n, v.node? id = some n ∧ n.name = name
  edge : ∃ k, (v.edge? k).isSome ∧ homeOf k.source = file ∧ k.target = id

/-- What a file finds elsewhere under a name it finds there only, and always the same. -/
structure View.Uniform (v : View) : Prop where
  same {file name id id' : String} : v.LinksTo file name id → v.LinksTo file name id' → id = id'
  foreign {file name id own : String} {n : Node} : v.LinksTo file name id → v.node? own = some n →
    homeOf own = file → IsSymbolId own → n.name ≠ name
  known {file name id : String} {k : EdgeKey} : v.LinksTo file name id → (v.edge? k).isSome →
    homeOf k.source = file → k.target ≠ (externalNode name).id

theorem View.uniform_empty : View.empty.Uniform :=
  ⟨fun ⟨_, _, ⟨_, hn, _⟩, _⟩ => (nomatch hn), fun _ hn => (nomatch hn), fun _ hk => (nomatch hk)⟩

theorem endOf_eq_some {found : Option String} {kind : EdgeKind} {name : String} {t : String × List Node}
    (h : endOf found kind name = some t) : found = some t.1 ∨ found = none ∧ t.1 = (externalNode name).id := by
  unfold endOf at h
  split at h
  · cases h
    exact .inl rfl
  · split at h
    · cases h
      exact .inr ⟨rfl, rfl⟩
    · cases h

/-- A link of a file ends in the file, at the symbol that `ρ` has for a name which the file has not, or at an
external type for a name that neither has. -/
theorem FileGraph.target_of_mem_linkEdges {f : FileGraph} {ρ : String → Option String} {e : Edge}
    (h : e ∈ f.linkEdges ρ) :
    f.Owns e.target ∨ (∃ name, f.onlyNamed? name = none ∧ ρ name = some e.target) ∨
      ∃ name, ρ name = none ∧ e.target = (externalNode name).id := by
  obtain ⟨l, -, he⟩ := List.mem_filterMap.mp h
  obtain ⟨t, ht, rfl⟩ := Option.map_eq_some_iff.mp he
  rcases endOf_eq_some ht with hseek | ⟨hseek, htarget⟩
  · rcases Option.or_eq_some_iff.mp hseek with hlocal | ⟨hlocal, hρ⟩
    · exact .inl (owns_onlyNamed hlocal).1
    · exact .inr (.inl ⟨_, hlocal, hρ⟩)
  · exact .inr (.inr ⟨_, (Option.or_eq_none_iff.mp hseek).2, htarget⟩)

namespace Indexed

variable {rd : Reader} {files : Dict Candidate} {gone : List String} {ρ : String → Option String}
  {moved : List Edge} {v w : View} {file name id : String} {k : EdgeKey} {e e' : Edge}

/-! ## Moved edges -/

section Moved

variable (h : Indexed rd files gone ρ moved v w)
include h

/-- What a name means is a symbol of that name in a file. -/
theorem exists_node (hid : ρ name = some id) :
    ∃ n, w.node? id = some n ∧ n.name = name ∧ IsSymbolId id ∧ homeOf id ≠ nowhere := by
  obtain ⟨⟨n, hn, hname, hsymbol⟩, -⟩ := (h.names name id).mp hid
  exact ⟨n, hn, hname, hsymbol, h.wf.home_ne_nowhere hn hsymbol⟩

theorem node_kept (hinside : homeOf id ≠ nowhere) (hkept : homeOf id ∉ gone) : w.node? id = v.node? id := by
  rw [h.node id hinside, if_neg hkept]

/-- Edges into files that were replaced are links. -/
theorem linksTo {e₀ : Edge} {n : Node} (hedge : v.edge? e₀.key = some e₀) (hsource : homeOf e₀.source ∉ gone)
    (htarget : homeOf e₀.target ∈ gone) (hn : v.node? e₀.target = some n) :
    v.LinksTo (homeOf e₀.source) n.name e₀.target :=
  ⟨fun heq => hsource (heq ▸ htarget), (h.proper _ htarget).ne_nowhere, ⟨n, hn, rfl⟩, e₀.key, by rw [hedge]; rfl,
    rfl, rfl⟩

variable (hv : v.Uniform)
include hv

/-- No edge that stays is where an edge is moved to. -/
theorem moved_apart (hmoved : Moved v gone ρ e) (hsome : (v.edge? e.key).isSome) : homeOf e.target ∈ gone := by
  obtain ⟨e₀, n, t, hedge, hsource, htarget, hn, ht, rfl⟩ := hmoved
  have hlink := h.linksTo hedge hsource htarget hn
  by_contra hkept
  rcases endOf_eq_some ht with hρ | ⟨-, hexternal⟩
  · obtain ⟨m, hm, hname, hsymbol, hinside⟩ := h.exists_node hρ
    rw [h.node_kept hinside hkept] at hm
    by_cases hown : homeOf t.1 = homeOf e₀.source
    · exact hv.foreign hlink hm hown hsymbol hname
    · have hlink' : v.LinksTo (homeOf e₀.source) n.name t.1 := ⟨hown, hinside, ⟨m, hm, hname⟩, _, hsome, rfl, rfl⟩
      exact hkept (hv.same hlink hlink' ▸ htarget)
  · exact hv.known hlink hsome rfl hexternal

/-- Edges of one node that are moved to the same end had the same end before. -/
theorem moved_from {e₀ e₁ : Edge} {n m : Node} {t u : String × List Node} (hedge : v.edge? e₀.key = some e₀)
    (hsource : homeOf e₀.source ∉ gone) (htarget : homeOf e₀.target ∈ gone) (hn : v.node? e₀.target = some n)
    (ht : endOf (ρ n.name) e₀.kind n.name = some t) (hedge' : v.edge? e₁.key = some e₁)
    (htarget' : homeOf e₁.target ∈ gone) (hm : v.node? e₁.target = some m)
    (hu : endOf (ρ m.name) e₁.kind m.name = some u) (hs : e₀.source = e₁.source) (htu : t.1 = u.1) :
    e₀.target = e₁.target := by
  have hnames : n.name = m.name := by
    rcases endOf_eq_some ht with hρ | ⟨-, hexternal⟩ <;> rcases endOf_eq_some hu with hρ' | ⟨-, hexternal'⟩
    · obtain ⟨a, ha, haname, -⟩ := h.exists_node hρ
      obtain ⟨b, hb, hbname, -⟩ := h.exists_node hρ'
      rw [← htu, ha, Option.some.injEq] at hb
      rw [← haname, hb, hbname]
    · obtain ⟨-, -, -, hsymbol, -⟩ := h.exists_node hρ
      exact absurd (htu ▸ hsymbol) (hexternal' ▸ not_isSymbolId_externalNode m.name)
    · obtain ⟨-, -, -, hsymbol, -⟩ := h.exists_node hρ'
      exact absurd (htu ▸ hsymbol) (hexternal ▸ not_isSymbolId_externalNode n.name)
    · exact externalNode_injective (hexternal.symm.trans (htu.trans hexternal'))
  have hlink := h.linksTo hedge hsource htarget hn
  have hlink' := h.linksTo hedge' (hs ▸ hsource) htarget' hm
  rw [hnames, hs] at hlink
  exact hv.same hlink hlink'

/-- No two edges are moved to one place. -/
theorem moved_unique (he : Moved v gone ρ e) (he' : Moved v gone ρ e') (hkey : e.key = e'.key) : e = e' := by
  obtain ⟨e₀, n, t, hedge, hsource, htarget, hn, ht, rfl⟩ := he
  obtain ⟨e₁, m, u, hedge', -, htarget', hm, hu, rfl⟩ := he'
  obtain ⟨hs, htu, hkind⟩ : e₀.source = e₁.source ∧ t.1 = u.1 ∧ e₀.kind = e₁.kind := by
    simpa [Edge.key] using hkey
  have hsame : e₀.key = e₁.key := by
    rw [Edge.key, Edge.key, hs, h.moved_from hv hedge hsource htarget hn ht hedge' htarget' hm hu hs htu, hkind]
  rw [hsame, hedge', Option.some.injEq] at hedge
  rw [hedge, htu]

/-- The edges of files that were not replaced: those that stay and those that were moved. -/
theorem edge_kept_iff (hkept : homeOf k.source ∉ gone) :
    w.edge? k = some e ↔ v.edge? k = some e ∧ homeOf k.target ∉ gone ∨ e.key = k ∧ Moved v gone ρ e := by
  rw [h.edge, if_neg hkept]
  constructor
  · intro he
    rcases Option.or_eq_some_iff.mp he with hlatest | ⟨-, hold⟩
    · exact .inr ⟨key_of_latest hlatest, (h.mem_moved e).mp (mem_of_latest hlatest)⟩
    · split at hold
      · cases hold
      · next htarget => exact .inl ⟨hold, htarget⟩
  · rintro (⟨hold, htarget⟩ | ⟨rfl, hmoved⟩)
    · have hnone : latest Edge.key moved k = none := by
        refine latest_eq_none_iff.mpr fun e' he' hkey => htarget ?_
        subst hkey
        exact h.moved_apart hv ((h.mem_moved e').mp he') (by rw [hold]; rfl)
      rw [hnone, Option.none_or, if_neg htarget, hold]
    · have hlatest : latest Edge.key moved e.key = some e :=
        latest_eq_some_of_mem (fun a ha b hb => h.moved_unique hv ((h.mem_moved a).mp ha) ((h.mem_moved b).mp hb))
          ((h.mem_moved e).mpr hmoved)
      rw [hlatest, Option.some_or]

end Moved

/-! ## What a pass keeps -/

section Keep

variable (h : Indexed rd files gone ρ moved v w)
include h

/-- An edge of a file that was replaced ends in the file, at a module, where a name leads, or at an external
type. -/
theorem target_replaced (hfiles : Filed files) (hgone : homeOf k.source ∈ gone) (hk : (w.edge? k).isSome) :
    ∃ f, graphOf rd files (homeOf k.source) = some f ∧
      (homeOf k.target = homeOf k.source ∨ (∃ i, k.target = (FileGraph.moduleNode i).id) ∨
        (∃ name, f.onlyNamed? name = none ∧ ρ name = some k.target) ∨
        ∃ name, ρ name = none ∧ k.target = (externalNode name).id) := by
  obtain ⟨e, he⟩ := Option.isSome_iff_exists.mp hk
  rw [h.edge, if_pos hgone] at he
  obtain ⟨f, hf, hlatest⟩ := Option.bind_eq_some_iff.mp he
  obtain ⟨hpath, hproper⟩ := hfiles.path_graphOf hf
  obtain rfl := key_of_latest hlatest
  have hhome : f.Owns e.target → homeOf e.target = homeOf e.source := fun howns =>
    (howns.homeOf (hpath ▸ hproper)).trans hpath
  refine ⟨f, hf, ?_⟩
  rcases List.mem_append.mp (mem_of_latest hlatest) with he | he
  · exact (FileGraph.structural_of_mem he).target.imp hhome .inl
  · exact (FileGraph.target_of_mem_linkEdges he).imp hhome .inr

/-- Links of a file that was replaced end where names lead which the file has not. -/
theorem resolve_of_linksTo (hfiles : Filed files) (hgone : file ∈ gone) (hlink : w.LinksTo file name id) :
    ρ name = some id ∧ ∃ f, graphOf rd files file = some f ∧ f.onlyNamed? name = none := by
  obtain ⟨hapart, hinside, ⟨n, hn, hname⟩, k, hk, rfl, rfl⟩ := hlink
  obtain ⟨f, hf, hown | ⟨i, hi⟩ | ⟨other, hlocal, hρ⟩ | ⟨other, -, htarget⟩⟩ := h.target_replaced hfiles hgone hk
  · exact absurd hown hapart
  · exact absurd (hi ▸ homeOf_moduleNode i) hinside
  · obtain ⟨m, hm, hother, -⟩ := h.exists_node hρ
    rw [hn, Option.some.injEq] at hm
    obtain rfl : other = name := by rw [← hother, ← hm, hname]
    exact ⟨hρ, f, hf, hlocal⟩
  · exact absurd (htarget ▸ homeOf_externalNode other) hinside

/-- External types to which a file that was replaced has edges are no symbols. -/
theorem resolve_of_external (hfiles : Filed files) (hgone : homeOf k.source ∈ gone) (hk : (w.edge? k).isSome)
    (htarget : k.target = (externalNode name).id) : ρ name = none := by
  have hhome : homeOf k.target = nowhere := htarget ▸ homeOf_externalNode name
  obtain ⟨-, -, hown | ⟨i, hi⟩ | ⟨other, -, hρ⟩ | ⟨other, hnone, hother⟩⟩ := h.target_replaced hfiles hgone hk
  · exact absurd (hown.symm.trans hhome) (h.proper _ hgone).ne_nowhere
  · exact absurd (hi.symm.trans htarget) (moduleNode_ne_externalNode i name)
  · obtain ⟨-, -, -, -, hinside⟩ := h.exists_node hρ
    exact absurd hhome hinside
  · rwa [externalNode_injective (hother.symm.trans htarget)] at hnone

variable (hv : v.Uniform)
include hv

/-- Links of a file that was not replaced stay or follow their name. -/
theorem linksTo_kept (hkept : file ∉ gone) (hlink : w.LinksTo file name id) :
    ∃ id₀, v.LinksTo file name id₀ ∧ (homeOf id₀ ∉ gone ∧ id = id₀ ∨ homeOf id₀ ∈ gone ∧ ρ name = some id) := by
  obtain ⟨hapart, hinside, ⟨n, hn, hname⟩, k, hk, rfl, rfl⟩ := hlink
  obtain ⟨e, he⟩ := Option.isSome_iff_exists.mp hk
  rcases (h.edge_kept_iff hv hkept).mp he with ⟨hold, htarget⟩ | ⟨rfl, hmoved⟩
  · rw [h.node_kept hinside htarget] at hn
    exact ⟨k.target, ⟨hapart, hinside, ⟨n, hn, hname⟩, k, by rw [hold]; rfl, rfl, rfl⟩, .inl ⟨htarget, rfl⟩⟩
  · obtain ⟨e₀, m, t, hedge, hsource, htarget, hm, ht, rfl⟩ := hmoved
    rcases endOf_eq_some ht with hρ | ⟨-, hexternal⟩
    · obtain ⟨n', hn', hname', -⟩ := h.exists_node hρ
      have hn : w.node? t.1 = some n := hn
      rw [hn, Option.some.injEq] at hn'
      obtain rfl : m.name = name := by rw [← hname', ← hn', hname]
      exact ⟨e₀.target, h.linksTo hedge hsource htarget hm, .inr ⟨htarget, hρ⟩⟩
    · exact absurd (hexternal ▸ homeOf_externalNode m.name) hinside

theorem uniform (hfiles : Filed files) : w.Uniform where
  same {file name id id'} hlink hlink' := by
    by_cases hgone : file ∈ gone
    · have hid := (h.resolve_of_linksTo hfiles hgone hlink).1
      rw [(h.resolve_of_linksTo hfiles hgone hlink').1, Option.some.injEq] at hid
      exact hid.symm
    · obtain ⟨id₀, hlink₀, hid⟩ := h.linksTo_kept hv hgone hlink
      obtain ⟨id₁, hlink₁, hid'⟩ := h.linksTo_kept hv hgone hlink'
      obtain rfl := hv.same hlink₀ hlink₁
      rcases hid with ⟨hhome, rfl⟩ | ⟨hhome, hid⟩ <;> rcases hid' with ⟨hhome', rfl⟩ | ⟨hhome', hid'⟩
      · rfl
      · exact absurd hhome' hhome
      · exact absurd hhome hhome'
      · rwa [hid, Option.some.injEq] at hid'
  foreign {file name id own n} hlink hn hhome hsymbol hname := by
    by_cases hgone : file ∈ gone
    · obtain ⟨-, hunique⟩ := (h.names name id).mp (h.resolve_of_linksTo hfiles hgone hlink).1
      obtain rfl := hunique own n hn hname hsymbol
      exact hlink.apart hhome
    · obtain ⟨id₀, hlink₀, -⟩ := h.linksTo_kept hv hgone hlink
      rw [h.node_kept (h.wf.home_ne_nowhere hn hsymbol) (hhome ▸ hgone)] at hn
      exact hv.foreign hlink₀ hn hhome hsymbol hname
  known {file name id k} hlink hk hsource htarget := by
    by_cases hgone : file ∈ gone
    · obtain ⟨hid, -⟩ := h.resolve_of_linksTo hfiles hgone hlink
      rw [h.resolve_of_external hfiles (hsource ▸ hgone) hk htarget] at hid
      cases hid
    · obtain ⟨id₀, hlink₀, hid⟩ := h.linksTo_kept hv hgone hlink
      obtain ⟨e, he⟩ := Option.isSome_iff_exists.mp hk
      rcases (h.edge_kept_iff hv (hsource ▸ hgone)).mp he with ⟨hold, -⟩ | ⟨rfl, hmoved⟩
      · exact hv.known hlink₀ (by rw [hold]; rfl) hsource htarget
      · -- an edge that was moved to the external type came from a link to the same name
        obtain ⟨e₀, m, t, hedge, hkept, hreplaced, hm, ht, rfl⟩ := hmoved
        rcases endOf_eq_some ht with hρ | ⟨hρ, hexternal⟩
        · obtain ⟨-, -, -, hsymbol, -⟩ := h.exists_node hρ
          have htarget : t.1 = (externalNode name).id := htarget
          exact not_isSymbolId_externalNode name (htarget ▸ hsymbol)
        · obtain rfl := externalNode_injective (hexternal.symm.trans htarget)
          have hlink₁ := h.linksTo hedge hkept hreplaced hm
          obtain rfl := hv.same (hsource ▸ hlink₁) hlink₀
          rcases hid with ⟨hhome, -⟩ | ⟨-, hid⟩
          · exact hhome hreplaced
          · rw [hρ] at hid
            cases hid

end Keep

end Indexed

end CodeIndex.Graph
