import Mathlib.Data.List.Chain
import Mathlib.Data.Set.Defs
import CodeIndex.Proofs.Graph.Incremental

/-!
# Type hierarchies along a run

A pass finds the ends of a file's links when the file is new or was edited, and that of a single link again when
the file changes in which it ended. `Trail` follows where the names of each file lead by this rule, and `Tracks`
says that the edges between types go where the trail leads. So they are those of a graph that is built anew
exactly if every name means now what it meant when it was last sought.
-/

namespace CodeIndex.Graph

/-! ## Bare names -/

/-- A name of one segment. -/
def IsBare (name : String) : Prop := ∀ c ∈ name.toList, (c != '.' && c != ':') = true

theorem isBare_bareName (name : String) : IsBare (bareName name) := by
  intro c hc
  rw [bareName, String.toList_ofList, List.mem_reverse] at hc
  exact List.all_eq_true.mp List.all_takeWhile c hc

/-- What stands before the last dot or colon does not count. -/
theorem IsBare.bareName_append {name stop : String} (h : IsBare name) (hstop : stop = "." ∨ stop = ":")
    (front : String) : bareName (front ++ stop ++ name) = name := by
  have hname : ∀ c ∈ name.toList.reverse, (c != '.' && c != ':') = true := fun c hc => h c (List.mem_reverse.mp hc)
  have hnone : (front ++ stop).toList.reverse.takeWhile (fun c => c != '.' && c != ':') = [] := by
    rcases hstop with rfl | rfl <;> simp
  rw [bareName, String.toList_append, List.reverse_append, List.takeWhile_append_of_pos hname, hnone, List.append_nil,
    List.reverse_reverse, String.ofList_toList]

theorem IsBare.bareName_externalNode {name : String} (h : IsBare name) : bareName (externalNode name).id = name :=
  h.bareName_append (.inr rfl) externalType

theorem IsBare.bareName_symbolId {s : Symbol} (h : IsBare s.name) (path : String) :
    bareName (symbolId path s.qualifiedName) = s.name := by
  unfold symbolId Symbol.qualifiedName
  cases s.parent with
  | none => exact h.bareName_append (.inr rfl) _
  | some parent =>
    rw [← String.append_assoc, ← String.append_assoc]
    exact h.bareName_append (.inl rfl) _

theorem FileGraph.exists_symbol_of_mem {f : FileGraph} {n : Node} (h : n ∈ f.nodes) (hid : IsSymbolId n.id) :
    ∃ s ∈ f.symbols, n.id = f.idOf s ∧ n.name = s.symbol.name := by
  rcases mem_nodes.mp h with rfl | ⟨s, hs, rfl⟩ | ⟨i, -, rfl⟩
  · simp [IsSymbolId, fileNode, fileId, Text.startsWith, Text.dropFront?] at hid
  · exact ⟨s, hs, rfl, rfl⟩
  · simp [IsSymbolId, moduleNode, moduleKind, Text.startsWith, Text.dropFront?] at hid

theorem FileGraph.exists_symbol_of_onlyNamed {f : FileGraph} {name id : String} (h : f.onlyNamed? name = some id) :
    ∃ s ∈ f.symbols, id = f.idOf s ∧ s.symbol.name = name := by
  unfold onlyNamed? at h
  split at h
  · next hids =>
    obtain rfl := Option.some.inj h
    obtain ⟨s, hs, hid⟩ := List.mem_map.mp (hids ▸ List.mem_singleton_self _)
    exact ⟨s, List.mem_of_mem_filter hs, hid.symm, by simpa using (List.mem_filter.mp hs).2⟩
  · cases h

/-! ## Links to types -/

/-- The end of a link to a type: the node that was found, else the external type. -/
def typeEnd (found : Option String) (name : String) : String :=
  found.getD (externalNode name).id

theorem map_endOf {kind : EdgeKind} (h : kind.reachesOutside = true) (found : Option String) (name : String) :
    (endOf found kind name).map (·.1) = some (typeEnd found name) := by
  cases found <;> simp [endOf, typeEnd, h]

/-- Of a symbol that was found and the external type of the same name, the end tells which it is. -/
theorem typeEnd_inj {found found' : Option String} {name : String} (h : ∀ id ∈ found, IsSymbolId id)
    (h' : ∀ id ∈ found', IsSymbolId id) (heq : typeEnd found name = typeEnd found' name) : found = found' := by
  have hexternal := not_isSymbolId_externalNode name
  cases found with
  | none =>
    cases found' with
    | none => rfl
    | some id => exact absurd (h' id rfl) ((show (externalNode name).id = id from heq) ▸ hexternal)
  | some id =>
    cases found' with
    | none => exact absurd (h id rfl) ((show id = (externalNode name).id from heq) ▸ hexternal)
    | some id' => exact congrArg some heq

theorem EdgeKind.exists_ofLink {kind : EdgeKind} (h : kind.reachesOutside = true) : ∃ l, EdgeKind.ofLink l = kind := by
  cases kind with
  | inherits => exact ⟨.inherits, rfl⟩
  | implements => exact ⟨.implements, rfl⟩
  | _ => exact absurd h (by decide)

namespace FileGraph

variable {f : FileGraph} {ρ : String → Option String} {k : EdgeKey}

theorem seek_of_foreign {name : String} (h : f.onlyNamed? name = none) (ρ : String → Option String) :
    f.seek ρ name = ρ name := by
  rw [seek, h, Option.none_or]

theorem seek_of_local {name id : String} (h : f.onlyNamed? name = some id) (ρ : String → Option String) :
    f.seek ρ name = some id := by
  rw [seek, h, Option.some_or]

/-- A link of the file to a type gives an edge with the key, where names mean what `ρ` says. -/
def Extends (f : FileGraph) (ρ : String → Option String) (k : EdgeKey) : Prop :=
  ∃ l ∈ f.extraction.links, EdgeKind.ofLink l.kind = k.kind ∧ f.sourceOf l = k.source ∧
    typeEnd (f.seek ρ (bareName l.target)) (bareName l.target) = k.target

theorem extends_iff (hk : k.kind.reachesOutside = true) : f.Extends ρ k ↔ ∃ e ∈ f.linkEdges ρ, e.key = k := by
  constructor
  · rintro ⟨l, hl, hkind, hsource, htarget⟩
    have hend := map_endOf (hkind.symm ▸ hk) (f.seek ρ (bareName l.target)) (bareName l.target)
    obtain ⟨u, hu, hfirst⟩ := Option.map_eq_some_iff.mp hend
    refine ⟨{ f.openEdge l with target := u.1 }, List.mem_filterMap.mpr ⟨l, hl, ?_⟩, ?_⟩
    · rw [linkEdge, hu]
      rfl
    · exact EdgeKey.ext hsource (hfirst.trans htarget) hkind
  · rintro ⟨e, he, rfl⟩
    obtain ⟨l, hl, hlink⟩ := List.mem_filterMap.mp he
    obtain ⟨u, hu, rfl⟩ := Option.map_eq_some_iff.mp hlink
    have hend := map_endOf hk (f.seek ρ (bareName l.target)) (bareName l.target)
    rw [show EdgeKey.kind _ = EdgeKind.ofLink l.kind from rfl, hu] at hend
    exact ⟨l, hl, rfl, rfl, (Option.some.inj hend).symm⟩

theorem extends_congr {ρ' : String → Option String} (h : ∀ l ∈ f.extraction.links,
    EdgeKind.ofLink l.kind = k.kind → f.onlyNamed? (bareName l.target) = none →
      ρ (bareName l.target) = ρ' (bareName l.target)) : f.Extends ρ k ↔ f.Extends ρ' k := by
  refine exists_congr fun l => and_congr_right fun hl => and_congr_right fun hkind => and_congr_right fun _ => ?_
  have hseek : f.seek ρ (bareName l.target) = f.seek ρ' (bareName l.target) := by
    cases hlocal : f.onlyNamed? (bareName l.target) with
    | some id => rw [seek_of_local hlocal, seek_of_local hlocal]
    | none => rw [seek_of_foreign hlocal, seek_of_foreign hlocal, h l hl hkind hlocal]
  rw [hseek]

/-- Edges between types are links. -/
theorem isSome_latest_iff (hk : k.kind.reachesOutside = true) :
    (latest Edge.key (f.edges ++ f.linkEdges ρ) k).isSome ↔ f.Extends ρ k := by
  obtain ⟨kind, hkind⟩ := EdgeKind.exists_ofLink hk
  rw [extends_iff hk, Option.isSome_iff_ne_none, Ne, latest_eq_none_iff]
  simp only [not_forall, not_not, exists_prop, List.mem_append]
  refine exists_congr fun e => and_congr_left fun hkey => ⟨fun he => he.resolve_left fun hedge => ?_, .inr⟩
  exact (structural_of_mem hedge).kind kind (hkind.trans (congrArg EdgeKey.kind hkey).symm).symm

end FileGraph

/-! ## Trails -/

/-- The files of the last pass, and where each name led each file when it was last sought. -/
structure Trail where
  files : Dict Candidate := []
  aim : String → String → Option String := fun _ _ => none

namespace Trail

variable {r : Trail} {files : Dict Candidate} {meaning : String → Option String} {p name id : String}

/-- The file under a path came, went or is another one. -/
def changed (r : Trail) (files : Dict Candidate) (p : String) : Bool := r.files.lookup p ≠ files.lookup p

/-- The name is sought again: its file changed, or the one in which it ended. -/
def seeks (r : Trail) (files : Dict Candidate) (p name : String) : Bool :=
  r.changed files p || (r.aim p name).any (r.changed files <| homeOf ·)

/-- A pass over other files, among which names have these meanings. -/
def pass (r : Trail) (files : Dict Candidate) (meaning : String → Option String) : Trail where
  files := files
  aim p name := if r.seeks files p name then meaning name else r.aim p name

theorem aim_pass_of_changed (h : r.changed files p = true) : (r.pass files meaning).aim p = meaning := by
  funext name
  simp [pass, seeks, h]

theorem aim_pass_of_end (hid : r.aim p name = some id) (h : r.changed files (homeOf id) = true) :
    (r.pass files meaning).aim p name = meaning name := by
  simp [pass, seeks, hid, h]

theorem aim_pass_of_kept (h : r.changed files p = false)
    (hend : ∀ id, r.aim p name = some id → r.changed files (homeOf id) = false) :
    (r.pass files meaning).aim p name = r.aim p name := by
  cases hid : r.aim p name with
  | none => simp [pass, seeks, h, hid]
  | some id => simp [pass, seeks, h, hid, hend id hid]

end Trail

/-- The nodes and times are those of the last files, and the edges between types go where the trail leads. -/
structure Tracks (rd : Reader) (r : Trail) (v : View) : Prop where
  filed : Filed r.files
  wf : v.WellFormed
  held : v.Held
  uniform : v.Uniform
  current : Current rd r.files v
  time : ∀ p, v.time? p = timeOf rd r.files p
  aimed : ∀ {p name id}, r.aim p name = some id → IsSymbolId id ∧ ∃ n, v.node? id = some n ∧ n.name = name
  edges : ∀ {k : EdgeKey}, k.kind.reachesOutside = true → ((v.edge? k).isSome ↔
    ∃ f, graphOf rd r.files (homeOf k.source) = some f ∧ f.Extends (r.aim (homeOf k.source)) k)

namespace Tracks

variable {rd : Reader} {r : Trail} {v w : View} {files : Dict Candidate} {gone : List String}
  {ρ : String → Option String} {moved : List Edge} {p name id : String} {k : EdgeKey}

theorem empty (rd : Reader) : Tracks rd {} .empty where
  filed := ⟨List.nodup_nil, nofun, nofun, nofun⟩
  wf := View.wellFormed_empty
  held := nofun
  uniform := View.uniform_empty
  current _ _ := rfl
  time _ := rfl
  aimed := nofun
  edges _ := ⟨nofun, nofun⟩

theorem exists_lookup (h : Tracks rd r v) (hp : (v.time? p).isSome) : ∃ c, r.files.lookup p = some c := by
  rw [h.time] at hp
  obtain ⟨time, htime⟩ := Option.isSome_iff_exists.mp hp
  obtain ⟨c, hc, -⟩ := Option.bind_eq_some_iff.mp htime
  exact ⟨c, hc⟩

theorem rooted (h : Tracks rd r v) (files : Dict Candidate) : v.Rooted files where
  proper p hp := by
    obtain ⟨c, hc⟩ := h.exists_lookup hp
    exact h.filed.proper hc
  alone hroot p hp :=
    h.filed.root (Option.isSome_iff_exists.mpr (h.exists_lookup hroot))
      (Option.isSome_iff_exists.mpr (h.exists_lookup hp))
  source _ k e he := by
    have hsource := h.wf.source he
    rw [h.current _ (h.wf.inside he)] at hsource
    obtain ⟨n, hn⟩ := Option.isSome_iff_exists.mp hsource
    obtain ⟨f, hf, -⟩ := Option.bind_eq_some_iff.mp hn
    obtain ⟨c, hc, hof⟩ := graphOf_eq_some.mp hf
    rw [h.time, timeOf, hc, Option.bind_some, hof]
    rfl

/-- The edges between types of one file. -/
theorem edges_of_graphOf (h : Tracks rd r v) {f : FileGraph} (hf : graphOf rd r.files p = some f)
    (hk : k.kind.reachesOutside = true) (hp : homeOf k.source = p) : (v.edge? k).isSome ↔ f.Extends (r.aim p) k := by
  rw [h.edges hk, hp, hf]
  simp

section Step

variable (hv : Tracks rd r v) (h : Indexed rd files gone ρ moved v w)
  (hgone : ∀ p, p ∈ gone ↔ r.changed files p = true) {f : FileGraph} (hf : graphOf rd r.files p = some f)
  (hkept : p ∉ gone)
include hv h hgone hf hkept

/-- A name that leads to a replaced file is sought again. -/
theorem seek_of_end_mem (hend : homeOf (typeEnd (f.seek (r.aim p) name) name) ∈ gone) :
    r.aim p name = some (typeEnd (f.seek (r.aim p) name) name) ∧
      f.seek ((r.pass files ρ).aim p) name = ρ name := by
  obtain ⟨rfl, hproper⟩ := hv.filed.path_graphOf hf
  cases hlocal : f.onlyNamed? name with
  | some id =>
    rw [FileGraph.seek_of_local hlocal] at hend
    exact absurd ((FileGraph.owns_onlyNamed hlocal).1.homeOf hproper ▸ hend) hkept
  | none =>
    rw [FileGraph.seek_of_foreign hlocal] at hend ⊢
    rw [FileGraph.seek_of_foreign hlocal]
    cases haim : r.aim f.path name with
    | some id =>
      rw [haim] at hend
      exact ⟨rfl, Trail.aim_pass_of_end haim ((hgone _).mp hend)⟩
    | none =>
      rw [haim] at hend
      exact absurd (homeOf_externalNode name) (h.proper _ hend).ne_nowhere

omit hv h hf in
/-- A name that leads to another place is not. -/
theorem seek_of_end_not_mem (hend : homeOf (typeEnd (f.seek (r.aim p) name) name) ∉ gone) :
    f.seek ((r.pass files ρ).aim p) name = f.seek (r.aim p) name := by
  cases hlocal : f.onlyNamed? name with
  | some id => rw [FileGraph.seek_of_local hlocal, FileGraph.seek_of_local hlocal]
  | none =>
    rw [FileGraph.seek_of_foreign hlocal] at hend ⊢
    rw [FileGraph.seek_of_foreign hlocal]
    refine Trail.aim_pass_of_kept (Bool.eq_false_of_not_eq_true (mt (hgone p).mpr hkept)) fun id hid => ?_
    rw [hid] at hend
    exact Bool.eq_false_of_not_eq_true (mt (hgone _).mpr hend)

/-- An edge that was moved goes where its link leads now. -/
theorem extends_of_moved {e : Edge} (hk : e.kind.reachesOutside = true) (hp : homeOf e.source = p)
    (hmoved : Moved v gone ρ e) : f.Extends ((r.pass files ρ).aim p) e.key := by
  obtain ⟨e₀, n, u, hedge, -, hend, hn, hu, rfl⟩ := hmoved
  have hold : (v.edge? e₀.key).isSome := by rw [hedge]; rfl
  obtain ⟨l, hl, hkind, hsource, htarget⟩ := (hv.edges_of_graphOf (k := e₀.key) hf hk hp).mp hold
  change _ = e₀.target at htarget
  obtain ⟨haim, hseek⟩ := hv.seek_of_end_mem h hgone hf hkept (htarget ▸ hend)
  rw [htarget] at haim
  obtain ⟨-, m, hm, hname⟩ := hv.aimed haim
  rw [hn, Option.some.injEq] at hm
  subst hm
  have hend' := map_endOf hk (ρ n.name) n.name
  rw [show Edge.kind _ = e₀.kind from rfl, hu] at hend'
  refine ⟨l, hl, hkind, hsource, ?_⟩
  rw [hseek, ← hname]
  exact (Option.some.inj hend').symm

/-- The edge of a link that led to a replaced file is moved to where the link leads now. -/
theorem exists_moved (hk : k.kind.reachesOutside = true) (hp : homeOf k.source = p) {l : Link}
    (hl : l ∈ f.extraction.links) (hkind : EdgeKind.ofLink l.kind = k.kind) (hsource : f.sourceOf l = k.source)
    (hend : homeOf (typeEnd (f.seek (r.aim p) (bareName l.target)) (bareName l.target)) ∈ gone)
    (htarget : typeEnd (f.seek ((r.pass files ρ).aim p) (bareName l.target)) (bareName l.target) = k.target) :
    ∃ e, e.key = k ∧ Moved v gone ρ e := by
  obtain ⟨haim, hseek⟩ := hv.seek_of_end_mem h hgone hf hkept hend
  set id := typeEnd (f.seek (r.aim p) (bareName l.target)) (bareName l.target)
  have hold : (v.edge? ⟨k.source, id, k.kind⟩).isSome :=
    (hv.edges_of_graphOf (k := ⟨k.source, id, k.kind⟩) hf hk hp).mpr ⟨l, hl, hkind, hsource, rfl⟩
  obtain ⟨e₀, he₀⟩ := Option.isSome_iff_exists.mp hold
  have hkey := hv.wf.key he₀
  obtain ⟨hs, ht, hkind₀⟩ : e₀.source = k.source ∧ e₀.target = id ∧ e₀.kind = k.kind := by
    simpa [Edge.key] using hkey
  obtain ⟨-, n, hn, hname⟩ := hv.aimed haim
  obtain ⟨u, hu, hfirst⟩ := Option.map_eq_some_iff.mp (map_endOf hk (ρ n.name) n.name)
  rw [hseek, ← hname] at htarget
  exact ⟨{ e₀ with target := u.1 }, EdgeKey.ext hs (hfirst.trans htarget) hkind₀,
    e₀, n, u, hkey ▸ he₀, hs ▸ hp ▸ hkept, ht ▸ hend, ht ▸ hn, hkind₀ ▸ hu, rfl⟩

/-- The edges between types of a file that was not replaced. -/
theorem isSome_edge_kept (hk : k.kind.reachesOutside = true) (hp : homeOf k.source = p) :
    (w.edge? k).isSome ↔ f.Extends ((r.pass files ρ).aim p) k := by
  have hedge := fun e => h.edge_kept_iff (e := e) hv.uniform (hp ▸ hkept)
  constructor
  · intro hsome
    obtain ⟨e, he⟩ := Option.isSome_iff_exists.mp hsome
    rcases (hedge e).mp he with ⟨hold, hend⟩ | ⟨rfl, hmoved⟩
    · obtain ⟨l, hl, hkind, hsource, htarget⟩ := (hv.edges_of_graphOf hf hk hp).mp (by rw [hold]; rfl)
      refine ⟨l, hl, hkind, hsource, ?_⟩
      rwa [seek_of_end_not_mem hgone hkept (htarget ▸ hend)]
    · exact hv.extends_of_moved h hgone hf hkept hk hp hmoved
  · rintro ⟨l, hl, hkind, hsource, htarget⟩
    rw [Option.isSome_iff_exists]
    by_cases hend : homeOf (typeEnd (f.seek (r.aim p) (bareName l.target)) (bareName l.target)) ∈ gone
    · obtain ⟨e, hmoved⟩ := hv.exists_moved h hgone hf hkept hk hp hl hkind hsource hend htarget
      exact ⟨e, (hedge e).mpr (.inr hmoved)⟩
    · rw [seek_of_end_not_mem hgone hkept hend] at htarget
      have hold : (v.edge? k).isSome := (hv.edges_of_graphOf hf hk hp).mpr ⟨l, hl, hkind, hsource, htarget⟩
      obtain ⟨e, he⟩ := Option.isSome_iff_exists.mp hold
      exact ⟨e, (hedge e).mpr (.inl ⟨he, htarget ▸ hend⟩)⟩

end Step

/-- A pass that replaces the files which changed. -/
theorem pass (hv : Tracks rd r v) (h : Indexed rd files gone ρ moved v w)
    (hgone : ∀ p, p ∈ gone ↔ r.changed files p = true) (hfiles : Filed files) : Tracks rd (r.pass files ρ) w := by
  have hlookup : ∀ {p}, p ∉ gone → r.files.lookup p = files.lookup p := fun {p} hp => by
    simpa [Trail.changed] using mt (hgone p).mpr hp
  have hgraph : ∀ {p}, p ∉ gone → graphOf rd r.files p = graphOf rd files p := fun hp => by
    rw [graphOf, graphOf, hlookup hp]
  have hcurrent : Current rd files w := by
    intro id hid
    rw [h.node id hid]
    split
    · rfl
    · next hkept => rw [hv.current id hid, hgraph hkept]
  refine ⟨hfiles, h.wf, h.held hfiles hv.held, h.uniform hv.uniform hfiles, hcurrent, fun p => ?_,
    fun {p name id} haim => ?_, fun {k} hk => ?_⟩
  · rw [h.time]
    split
    · rfl
    · next hkept => rw [hv.time, timeOf, hlookup hkept, timeOf, Trail.pass]
  · by_cases hseeks : r.seeks files p name = true
    · have haim : ρ name = some id := by simpa [Trail.pass, hseeks] using haim
      obtain ⟨n, hn, hname, hsymbol, -⟩ := h.exists_node haim
      exact ⟨hsymbol, n, hn, hname⟩
    · have haim : r.aim p name = some id := by simpa [Trail.pass, hseeks] using haim
      obtain ⟨hsymbol, n, hn, hname⟩ := hv.aimed haim
      have hkept : homeOf id ∉ gone := by
        rw [hgone]
        simp only [Trail.seeks, haim, Option.any_some, Bool.or_eq_true, not_or] at hseeks
        exact hseeks.2
      exact ⟨hsymbol, n, (h.node_kept (hv.wf.home_ne_nowhere hn hsymbol) hkept).trans hn, hname⟩
  · by_cases hp : homeOf k.source ∈ gone
    · rw [h.edge, if_pos hp, Trail.aim_pass_of_changed ((hgone _).mp hp), Trail.pass]
      cases hf : graphOf rd files (homeOf k.source) with
      | none => simp
      | some f => simp [FileGraph.isSome_latest_iff hk]
    · rw [show (r.pass files ρ).files = files from rfl, ← hgraph hp]
      cases hf : graphOf rd r.files (homeOf k.source) with
      | some f => simp [hv.isSome_edge_kept h hgone hf hp hk rfl]
      | none =>
        refine ⟨fun hsome => ?_, by simp⟩
        obtain ⟨e, he⟩ := Option.isSome_iff_exists.mp hsome
        have hsource := h.wf.source he
        rw [hcurrent _ (h.wf.inside he), ← hgraph hp, hf] at hsource
        cases hsource

/-- The end of a link tells by which name it was found. -/
theorem bareName_typeEnd (h : Tracks rd r v) {f : FileGraph} (hname : IsBare name) :
    bareName (typeEnd (f.seek (r.aim p) name) name) = name := by
  cases hlocal : f.onlyNamed? name with
  | some id =>
    obtain ⟨s, -, rfl, rfl⟩ := FileGraph.exists_symbol_of_onlyNamed hlocal
    rw [FileGraph.seek_of_local hlocal]
    exact hname.bareName_symbolId f.path
  | none =>
    rw [FileGraph.seek_of_foreign hlocal]
    cases haim : r.aim p name with
    | none => exact hname.bareName_externalNode
    | some id =>
      obtain ⟨hid, n, hn, rfl⟩ := h.aimed haim
      rw [h.current id (h.wf.home_ne_nowhere hn hid)] at hn
      obtain ⟨g, -, hlatest⟩ := Option.bind_eq_some_iff.mp hn
      obtain rfl := key_of_latest hlatest
      obtain ⟨s, -, hids, hnames⟩ := FileGraph.exists_symbol_of_mem (mem_of_latest hlatest) hid
      rw [typeEnd, Option.getD_some, hids, hnames]
      exact (hnames ▸ hname).bareName_symbolId g.path

end Tracks

/-! ## Runs -/

/-- Every file is text. -/
def Legible (rd : Reader) (files : Dict Candidate) : Prop :=
  ∀ p c, files.lookup p = some c → (FileGraph.of? rd c).isSome

/-- A file that is another one under the same path has a later time. -/
def Raised (files files' : Dict Candidate) : Prop :=
  ∀ p c c', files.lookup p = some c → files'.lookup p = some c' →
    c' = c ∨ c.mtime.lt c'.mtime = true

section Run

open LawfulStore

variable {σ : Type} [Store σ] {rd : Reader} {policy : IgnorePolicy} {root : String} {files : Dict Candidate}

/-- The graph of some files that a forced pass builds from nothing. -/
def rebuilt (σ : Type) [Store σ] (rd : Reader) (files : Dict Candidate) : σ :=
  (index rd none true files [] Store.empty).store

/-- Where the names lead after passes over trees, each with the meanings that names have in its tree. -/
def trail (σ : Type) [Store σ] (rd : Reader) (policy : IgnorePolicy) (root : String) (trees : List Disk) : Trail :=
  trees.foldl (fun r d => r.pass (filesIn rd policy root d) (resolve (rebuilt σ rd (filesIn rd policy root d)))) {}

/-- The edges between types, by their ends. -/
def hierarchy (s : σ) : Set EdgeKey :=
  fun k => k.kind.reachesOutside = true ∧ ∃ e ∈ Store.allEdges s, e.key = k

theorem mem_hierarchy_iff {s : σ} {k : EdgeKey} :
    k ∈ hierarchy s ↔ k ∈ ((Store.allEdges s).map Edge.key).filter (·.kind.reachesOutside) := by
  rw [List.mem_filter, List.mem_map, and_comm]
  rfl

theorem files_trail (σ : Type) [Store σ] (rd : Reader) (policy : IgnorePolicy) (root : String) (trees : List Disk) :
    (trail σ rd policy root trees).files = (trees.getLast?.map (filesIn rd policy root)).getD [] := by
  induction trees using List.reverseRecOn with
  | nil => rfl
  | append_singleton trees d => simp [trail, Trail.pass]

variable [LawfulStore σ] {s : σ} {r : Trail}

/-- The pass replaces what changed, as the times tell. -/
theorem Tracks.mem_replaced (hs : Tracks rd r (view s)) (h : Valid s) (hfiles : Filed files)
    (htext : Legible rd r.files) (hraised : Raised r.files files) (p : String) :
    p ∈ vanishedFiles s files ++ staleFiles s false files ↔ r.changed files p = true := by
  rw [List.mem_append, mem_vanishedFiles h, mem_staleFiles h hfiles, hs.time, timeOf, Trail.changed]
  cases hc : r.files.lookup p with
  | none => cases hc' : files.lookup p <;> simp
  | some c =>
    obtain ⟨f, hf⟩ := Option.isSome_iff_exists.mp (htext p c hc)
    cases hc' : files.lookup p with
    | none => simp [hf]
    | some c' =>
      have hirrefl : c.mtime.lt c.mtime = false := by simp [Double.lt]
      rcases hraised p c c' hc hc' with rfl | hlt
      · simp [hf, hirrefl]
      · have hne : c ≠ c' := fun heq => by simp [← heq, hirrefl] at hlt
        simp [hf, hlt, hne]

theorem mem_replaced_empty (hfiles : Filed files) (p : String) :
    p ∈ vanishedFiles (Store.empty : σ) files ++ staleFiles (Store.empty : σ) true files ↔
      ({} : Trail).changed files p = true := by
  have hview : view (Store.empty : σ) = .empty := view_empty
  have hvalid : Valid (Store.empty : σ) := valid_empty
  rw [List.mem_append, mem_vanishedFiles hvalid, mem_staleFiles hvalid hfiles, hview, Trail.changed]
  cases files.lookup p <;> simp [View.empty]

theorem Tracks.index {force : Bool} (hs : Tracks rd r (view s)) (h : Valid s) (hfiles : Filed files)
    (hgone : ∀ p, p ∈ vanishedFiles s files ++ staleFiles s force files ↔ r.changed files p = true) :
    Valid (Graph.index rd none force files [] s).store ∧
      Tracks rd (r.pass files (resolve (Graph.index rd none force files [] s).store))
        (view (Graph.index rd none force files [] s).store) := by
  obtain ⟨hvalid, moved, hindexed⟩ := Graph.index_indexed h hs.wf hs.held hfiles (hs.rooted files) []
  exact ⟨hvalid, hs.pass hindexed hgone hfiles⟩

theorem tracks_rebuilt (σ : Type) [Store σ] [LawfulStore σ] (rd : Reader) (hfiles : Filed files) :
    Valid (rebuilt σ rd files) ∧
      Tracks rd (({} : Trail).pass files (resolve (rebuilt σ rd files))) (view (rebuilt σ rd files)) := by
  have hempty : Tracks rd {} (view (Store.empty : σ)) := by
    rw [view_empty]
    exact .empty rd
  exact hempty.index valid_empty hfiles (mem_replaced_empty hfiles)

theorem tracks_reached {trees : List Disk} (hpaths : ∀ d ∈ trees, Addressed rd policy root d)
    (htext : ∀ d ∈ trees, Legible rd (filesIn rd policy root d))
    (hraised : trees.IsChain fun d d' => Raised (filesIn rd policy root d) (filesIn rd policy root d')) :
    Valid (reached σ rd policy root (trees.map (·, false))) ∧
      Tracks rd (trail σ rd policy root trees) (view (reached σ rd policy root (trees.map (·, false)))) := by
  induction trees using List.reverseRecOn with
  | nil =>
    refine ⟨valid_empty, ?_⟩
    rw [List.map_nil, reached, List.foldl_nil, view_empty]
    exact .empty rd
  | append_singleton trees d ih =>
    have hd : d ∈ trees ++ [d] := List.mem_append_right _ (List.mem_singleton_self d)
    obtain ⟨hchain, -, hlast⟩ := List.isChain_append.mp hraised
    obtain ⟨hvalid, hs⟩ := ih (fun d hd => hpaths d (List.mem_append_left _ hd))
      (fun d hd => htext d (List.mem_append_left _ hd)) hchain
    have hfiles := filed_filesIn (hpaths d hd)
    have hbefore : Legible rd (trail σ rd policy root trees).files ∧
        Raised (trail σ rd policy root trees).files (filesIn rd policy root d) := by
      rw [files_trail]
      cases hlast' : trees.getLast? with
      | none => simp [Legible, Raised]
      | some d' =>
        exact ⟨htext d' (List.mem_append_left _ (List.mem_of_getLast? hlast')), hlast d' hlast' d rfl⟩
    obtain ⟨hvalid', hs'⟩ := hs.index hvalid hfiles (hs.mem_replaced hvalid hfiles hbefore.1 hbefore.2)
    obtain ⟨hanew, htracks⟩ := tracks_rebuilt σ rd hfiles
    rw [hs'.current.resolve_eq htracks.current hvalid' hanew hs'.wf htracks.wf] at hs'
    rw [reached, List.map_append, List.foldl_append, trail, List.foldl_append]
    exact ⟨hvalid', hs'⟩

theorem Tracks.mem_hierarchy (hs : Tracks rd r (view s)) (h : Valid s) {k : EdgeKey} :
    k ∈ hierarchy s ↔ k.kind.reachesOutside = true ∧
      ∃ f, graphOf rd r.files (homeOf k.source) = some f ∧ f.Extends (r.aim (homeOf k.source)) k := by
  refine and_congr_right fun hk => ?_
  rw [← hs.edges hk, Option.isSome_iff_exists]
  simp only [mem_allEdges h]
  constructor
  · rintro ⟨e, he, rfl⟩
    exact ⟨e, he⟩
  · rintro ⟨e, he⟩
    exact ⟨e, (hs.wf.key he).symm ▸ he, hs.wf.key he⟩

/-- Graphs of the same files have one hierarchy exactly if their trails lead the names that a file has not itself to
the same nodes. -/
theorem Tracks.hierarchy_eq_iff {s' : σ} {r' : Trail} (hs : Tracks rd r (view s)) (h : Valid s)
    (hs' : Tracks rd r' (view s')) (h' : Valid s') (hfiles : r'.files = r.files) :
    hierarchy s = hierarchy s' ↔ ∀ p f, graphOf rd r.files p = some f → ∀ l ∈ f.extraction.links,
      (EdgeKind.ofLink l.kind).reachesOutside = true → f.onlyNamed? (bareName l.target) = none →
        r.aim p (bareName l.target) = r'.aim p (bareName l.target) := by
  constructor
  · intro heq p f hf l hl hkind hlocal
    obtain ⟨rfl, hproper⟩ := hs.filed.path_graphOf hf
    have hsource : homeOf (f.sourceOf l) = f.path := (FileGraph.owns_sourceOf l).homeOf hproper
    have hk : ⟨f.sourceOf l, typeEnd (f.seek (r.aim f.path) (bareName l.target)) (bareName l.target),
        .ofLink l.kind⟩ ∈ hierarchy s :=
      (hs.mem_hierarchy h).mpr ⟨hkind, f, by rw [hsource]; exact hf, l, hl, rfl, rfl, by rw [hsource]⟩
    rw [heq, hs'.mem_hierarchy h', hfiles] at hk
    obtain ⟨-, f', hf', l', hl', -, -, htarget⟩ := hk
    dsimp only at hf' htarget
    rw [hsource, hf, Option.some.injEq] at hf'
    subst hf'
    rw [hsource] at htarget
    -- the two ends are one, so both links name the same type
    have hname : bareName l'.target = bareName l.target := by
      rw [← hs.bareName_typeEnd (isBare_bareName l.target), ← htarget,
        hs'.bareName_typeEnd (isBare_bareName l'.target)]
    rw [hname, FileGraph.seek_of_foreign hlocal, FileGraph.seek_of_foreign hlocal] at htarget
    exact typeEnd_inj (fun id hid => (hs.aimed hid).1) (fun id hid => (hs'.aimed hid).1) htarget.symm
  · intro haim
    refine Set.ext fun k => ?_
    rw [hs.mem_hierarchy h, hs'.mem_hierarchy h', hfiles]
    refine and_congr_right fun hk => exists_congr fun f => and_congr_right fun hf => ?_
    exact FileGraph.extends_congr fun l hl hkind hlocal => haim _ f hf l hl (hkind ▸ hk) hlocal

/-- Passes over trees of which each has text files under paths without colons, and in which files that are other ones
than in the tree before have later times: the edges between types are those of a graph of the last tree that is built
anew if and only if, in every file, each name of a type that the file has not itself means now what it meant when
it was last sought, which is when the file or the one in which the name ended changed. -/
theorem hierarchy_eq_rebuilt_iff (rd : Reader) (policy : IgnorePolicy) (root : String) (earlier : List Disk) (d : Disk)
    (hpaths : ∀ tree ∈ earlier ++ [d], Addressed rd policy root tree)
    (htext : ∀ tree ∈ earlier ++ [d], Legible rd (filesIn rd policy root tree))
    (hraised : (earlier ++ [d]).IsChain fun tree tree' =>
      Raised (filesIn rd policy root tree) (filesIn rd policy root tree')) :
    let files := filesIn rd policy root d
    let anew := rebuilt σ rd files
    hierarchy (reached σ rd policy root ((earlier ++ [d]).map (·, false))) = hierarchy anew ↔
      ∀ p f, graphOf rd files p = some f → ∀ l ∈ f.extraction.links,
        (EdgeKind.ofLink l.kind).reachesOutside = true → f.onlyNamed? (bareName l.target) = none →
          (trail σ rd policy root (earlier ++ [d])).aim p (bareName l.target) = resolve anew (bareName l.target) := by
  intro files anew
  obtain ⟨hvalid, hs⟩ := tracks_reached (σ := σ) hpaths htext hraised
  obtain ⟨hvalid', hanew⟩ := tracks_rebuilt σ rd (filed_filesIn (hpaths d (by simp)))
  have hlast : (trail σ rd policy root (earlier ++ [d])).files = files := by simp [files_trail, files]
  rw [hs.hierarchy_eq_iff hvalid hanew hvalid' hlast.symm, hlast]
  refine forall₃_congr fun p f hf => ?_
  obtain ⟨c, hc, -⟩ := graphOf_eq_some.mp hf
  have hnew : ({} : Trail).changed files p = true := by simp [Trail.changed, hc]
  rw [Trail.aim_pass_of_changed hnew]

/-- The base was there before the class. -/
theorem hierarchy_eq_rebuilt_iff_base_first :
    let base := ({} : Disk).put "a.c" ⟨[65], 3, none⟩
    let files := filesIn classReader ⟨[]⟩ "" baseAndDerived
    let s := reached MemoryGraph classReader ⟨[]⟩ "" [(base, false), (baseAndDerived, false)]
    ((∀ tree ∈ [base, baseAndDerived], Addressed classReader ⟨[]⟩ "" tree ∧
        Legible classReader (filesIn classReader ⟨[]⟩ "" tree)) ∧
      Raised (filesIn classReader ⟨[]⟩ "" base) files) ∧
      hierarchy s = hierarchy (rebuilt MemoryGraph classReader files) ∧
      ⟨"symbol:b.c:B", "symbol:a.c:A", .inherits⟩ ∈ hierarchy s := by
  intro base files s
  have hbase : filesIn classReader ⟨[]⟩ "" base = [("a.c", ⟨"a.c", "classes", ⟨[65], 3, none⟩⟩)] := by decide +kernel
  have hboth : files = _ := filesIn_baseAndDerived
  have htrees : ∀ tree ∈ [base, baseAndDerived], Addressed classReader ⟨[]⟩ "" tree ∧
      Legible classReader (filesIn classReader ⟨[]⟩ "" tree) := by
    have hentries : ∀ entry ∈ files, (entry.1 ≠ "" ∧ ':' ∉ entry.1.toList) ∧
        (FileGraph.of? classReader entry.2).isSome := by
      rw [hboth]
      decide +kernel
    have hsub : ∀ tree ∈ [base, baseAndDerived], ∀ entry ∈ filesIn classReader ⟨[]⟩ "" tree, entry ∈ files := by
      intro tree htree entry hentry
      rcases List.mem_pair.mp htree with rfl | rfl
      · rw [hbase] at hentry
        rw [hboth]
        exact List.mem_cons.mpr (.inl (List.mem_singleton.mp hentry))
      · exact hentry
    refine fun tree htree => ⟨Nested.addressed (nested_of_forall rfl fun entry hentry => ?_), fun p c hc => ?_⟩
    · exact (hentries entry (hsub tree htree _ hentry)).1
    · exact (hentries _ (hsub tree htree _ (Dict.mem_of_lookup hc))).2
  have hraised : Raised (filesIn classReader ⟨[]⟩ "" base) files := by
    intro p c c' hc hc'
    rw [hbase] at hc
    rw [hboth] at hc'
    have hmem := Dict.mem_of_lookup hc
    simp only [List.mem_singleton, Prod.mk.injEq] at hmem
    obtain ⟨rfl, rfl⟩ := hmem
    cases hc'
    exact .inl rfl
  have hedges : ⟨"symbol:b.c:B", "symbol:a.c:A", .inherits⟩ ∈ hierarchy s := by
    rw [mem_hierarchy_iff]
    simp only [s, reached, List.foldl_cons, List.foldl_nil]
    rw [hbase, show filesIn classReader ⟨[]⟩ "" baseAndDerived = _ from hboth]
    decide +kernel
  refine ⟨⟨htrees, hraised⟩, ?_, hedges⟩
  refine (hierarchy_eq_rebuilt_iff classReader ⟨[]⟩ "" [base] baseAndDerived (fun tree htree => (htrees tree htree).1)
    (fun tree htree => (htrees tree htree).2) (by simpa using hraised)).mpr ?_
  have hnames : ∀ entry ∈ files, ∀ f ∈ FileGraph.of? classReader entry.2, ∀ l ∈ f.extraction.links,
      (trail MemoryGraph classReader ⟨[]⟩ "" [base, baseAndDerived]).aim entry.1 (bareName l.target) =
        resolve (rebuilt MemoryGraph classReader files) (bareName l.target) := by
    simp only [trail, List.foldl_cons, List.foldl_nil]
    rw [hbase, show filesIn classReader ⟨[]⟩ "" baseAndDerived = _ from hboth, hboth]
    decide +kernel
  intro p f hf l hl _ _
  obtain ⟨c, hc, hf⟩ := graphOf_eq_some.mp hf
  exact hnames _ (Dict.mem_of_lookup hc) f hf l hl

/-- The class was there before its base: it keeps its edge to the external type, which no pass looks at again. -/
theorem late_base_stays_external :
    let derived := ({} : Disk).put "b.c" ⟨[66, 32, 65], 10, none⟩
    let files := filesIn classReader ⟨[]⟩ "" baseAndDerived
    let s := reached MemoryGraph classReader ⟨[]⟩ "" [(derived, false), (baseAndDerived, false)]
    let anew := rebuilt MemoryGraph classReader files
    (∀ k, k ∈ hierarchy s ↔ k = ⟨"symbol:b.c:B", "external_type:A", .inherits⟩) ∧
      ∀ k, k ∈ hierarchy anew ↔ k = ⟨"symbol:b.c:B", "symbol:a.c:A", .inherits⟩ := by
  intro derived files s anew
  have hderived : filesIn classReader ⟨[]⟩ "" derived = [("b.c", ⟨"b.c", "classes", ⟨[66, 32, 65], 10, none⟩⟩)] := by
    decide +kernel
  have hs : ((Store.allEdges s).map Edge.key).filter (·.kind.reachesOutside) =
      [⟨"symbol:b.c:B", "external_type:A", .inherits⟩] := by
    simp only [s, reached, List.foldl_cons, List.foldl_nil]
    rw [hderived, filesIn_baseAndDerived]
    decide +kernel
  have hanew : ((Store.allEdges anew).map Edge.key).filter (·.kind.reachesOutside) =
      [⟨"symbol:b.c:B", "symbol:a.c:A", .inherits⟩] := by
    simp only [anew, files]
    rw [filesIn_baseAndDerived]
    decide +kernel
  exact ⟨fun k => by rw [mem_hierarchy_iff, hs, List.mem_singleton],
    fun k => by rw [mem_hierarchy_iff, hanew, List.mem_singleton]⟩

end Run

end CodeIndex.Graph
