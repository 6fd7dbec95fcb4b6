import Mathlib.Logic.Relation
import CodeIndex.Proofs.Graph.Incremental

/-!
# Graphs that hold together

Between passes every edge joins two nodes, every symbol hangs below its file, and what lies outside is there
because an edge touches it (`reachable_graph_intact`). A pass writes the nodes of many files before it marks the
first of them as indexed: `View.Connected` is what holds all the way, up to the files whose time is still to come.
-/

namespace CodeIndex.Graph

/-! ## Nodes -/

/-- Whether an id is that of a module or of an external type. -/
def IsOutsideId (id : String) : Prop :=
  Text.startsWith id "module:" = true ∨ Text.startsWith id "external_type:" = true

/-- A node under an id that tells its file, and its kind unless it is a symbol. -/
structure Node.Formed (n : Node) : Prop where
  home : n.file = fileAt (homeOf n.id)
  file : ∀ {path}, n.id = fileId path → n.kind = "file"
  outside : IsOutsideId n.id → n.kind ∈ [moduleKind, externalType]

theorem Node.Formed.file_eq {n m : Node} (hn : n.Formed) (hm : m.Formed) (hid : n.id = m.id) : n.file = m.file := by
  rw [hn.home, hid, ← hm.home]

theorem formed_externalNode (name : String) : (externalNode name).Formed where
  home := (atHome_externalNode name).file
  file {path} h := by simp [externalNode, externalType, fileId, String.ext_iff] at h
  outside _ := List.mem_cons_of_mem _ List.mem_cons_self

theorem Resolved.Sound.formed {r : Resolved} {known : String → Prop} (h : r.Sound known) :
    ∀ n ∈ r.externals, n.Formed := by
  intro n hn
  obtain ⟨name, rfl⟩ := h.externals n hn
  exact formed_externalNode name

theorem FileGraph.formed_of_mem {f : FileGraph} (hf : ':' ∉ f.path.toList) {n : Node} (h : n ∈ f.nodes) :
    n.Formed := by
  have hhome := (atHome_of_mem ⟨hf⟩ h).file
  rcases mem_nodes.mp h with rfl | ⟨s, -, rfl⟩ | ⟨i, -, rfl⟩
  · refine ⟨hhome, fun _ => rfl, fun h => ?_⟩
    simp [IsOutsideId, fileNode, fileId, Text.startsWith, Text.dropFront?] at h
  · refine ⟨hhome, fun h => ?_, fun h => ?_⟩
    · simp [symbolNode, idOf, symbolId, fileId, String.ext_iff] at h
    · simp [IsOutsideId, symbolNode, idOf, symbolId, Text.startsWith, Text.dropFront?] at h
  · refine ⟨hhome, fun h => ?_, fun _ => List.mem_cons_self⟩
    simp [moduleNode, moduleKind, fileId, String.ext_iff] at h

/-- A member has a longer id than its class. -/
theorem FileGraph.containerOf_shorter (f : FileGraph) (s : EnrichedSymbol) :
    f.containerOf s = fileId f.path ∨
      IsSymbolId (f.containerOf s) ∧ (f.containerOf s).length < (f.idOf s).length := by
  unfold containerOf
  cases hid : s.symbol.parent.bind f.qualified? with
  | none => exact .inl rfl
  | some id =>
    obtain ⟨parent, hparent, hqualified⟩ := Option.bind_eq_some_iff.mp hid
    unfold qualified? at hqualified
    split at hqualified
    · cases hqualified
      refine .inr ⟨isSymbolId_symbolId _ _, ?_⟩
      have hname : s.symbol.qualifiedName = parent ++ "." ++ s.symbol.name := by
        rw [Symbol.qualifiedName, hparent]
      simp only [Option.getD_some, idOf, hname, symbolId, String.length_append]
      have hdot : ".".length = 1 := rfl
      omega
    · cases hqualified

/-! ## Views -/

namespace View

variable {v : View} {pending : List String} {file other id : String}

/-- A symbol hangs below a node of its file: that of the file itself, or a symbol with a shorter id. -/
structure Below (v : View) (n : Node) (container : String) : Prop where
  parent : n.parent = some container
  node : v.HasFile n.file container
  edge : (v.edge? ⟨container, n.id, .contains⟩).isSome
  shorter : container = fileId n.file ∨ IsSymbolId container ∧ container.length < n.id.length

/-- Edges join nodes, symbols hang below others, and files have nodes and times, those `pending` no time yet. -/
structure Connected (v : View) (pending : List String) : Prop where
  id {id : String} {n : Node} : v.node? id = some n → n.id = id
  formed {id : String} {n : Node} : v.node? id = some n → n.Formed
  weight {k : EdgeKey} {e : Edge} : v.edge? k = some e → e.weight = none
  ends {k : EdgeKey} : (v.edge? k).isSome → (v.node? k.source).isSome ∧ (v.node? k.target).isSome
  below {id : String} {n : Node} : v.node? id = some n → IsSymbolId id → ∃ parent, v.Below n parent
  filed {id : String} {n : Node} : v.node? id = some n → n.file ≠ "" →
    v.HasFile n.file (fileId n.file) ∧ ((v.time? n.file).isSome ∨ n.file ∈ pending)

theorem connected_empty : empty.Connected [] := by
  constructor <;> simp [empty]

theorem HasFile.isSome (h : v.HasFile file id) : (v.node? id).isSome := by
  obtain ⟨n, hn, -⟩ := h
  rw [hn]
  rfl

theorem HasFile.eq (h : v.HasFile file id) (h' : v.HasFile other id) : file = other := by
  obtain ⟨n, hn, rfl⟩ := h
  obtain ⟨m, hm, rfl⟩ := h'
  rw [hn, Option.some.injEq] at hm
  rw [hm]

/-! ### Deleting a file -/

theorem HasFile.deleteFile (h : v.HasFile file id) (hne : file ≠ other) : (v.deleteFile other).HasFile file id := by
  obtain ⟨n, hn, rfl⟩ := h
  exact ⟨n, node?_deleteFile.mpr ⟨hn, hne⟩, rfl⟩

theorem isSome_node?_deleteFile (h : (v.node? id).isSome) (hfile : ¬v.HasFile file id) :
    ((v.deleteFile file).node? id).isSome := by
  obtain ⟨n, hn⟩ := Option.isSome_iff_exists.mp h
  exact HasFile.isSome ⟨n, node?_deleteFile.mpr ⟨hn, fun heq => hfile ⟨n, hn, heq⟩⟩, rfl⟩

theorem Connected.deleteFile (h : v.Connected pending) (file : String) : (v.deleteFile file).Connected pending where
  id hn := h.id (node?_deleteFile.mp hn).1
  formed hn := h.formed (node?_deleteFile.mp hn).1
  weight he := h.weight (edge?_deleteFile.mp he).1
  ends {k} hk := by
    obtain ⟨e, he⟩ := Option.isSome_iff_exists.mp hk
    obtain ⟨he, hsource, htarget⟩ := edge?_deleteFile.mp he
    have hends := @Connected.ends _ _ h k (by rw [he]; rfl)
    exact ⟨isSome_node?_deleteFile hends.1 hsource, isSome_node?_deleteFile hends.2 htarget⟩
  below {id n} hn hid := by
    obtain ⟨hn, hfile⟩ := node?_deleteFile.mp hn
    obtain ⟨parent, hbelow⟩ := h.below hn hid
    obtain ⟨e, he⟩ := Option.isSome_iff_exists.mp hbelow.edge
    have hself : v.HasFile n.file n.id := ⟨n, (h.id hn).symm ▸ hn, rfl⟩
    refine ⟨parent, hbelow.parent, hbelow.node.deleteFile hfile, ?_, hbelow.shorter⟩
    -- neither end lies in the file that goes
    rw [edge?_deleteFile.mpr ⟨he, fun hgone => hfile (hbelow.node.eq hgone), fun hgone => hfile (hself.eq hgone)⟩]
    rfl
  filed {id n} hn hne := by
    obtain ⟨hn, hfile⟩ := node?_deleteFile.mp hn
    obtain ⟨hnode, htime⟩ := h.filed hn hne
    refine ⟨hnode.deleteFile hfile, ?_⟩
    change (if n.file = file then none else v.time? n.file).isSome ∨ _
    rwa [if_neg hfile]

/-! ### Writing -/

section Write

variable {ns : List Node} {es : List Edge}

theorem hasFile_putNodes_of_mem (hns : ∀ n ∈ ns, n.Formed) {n : Node} (hn : n ∈ ns) :
    (v.putNodes ns).HasFile n.file n.id := by
  obtain ⟨m, hm⟩ := Option.isSome_iff_exists.mp (@isSome_latest _ _ _ Node.id _ _ hn)
  refine ⟨m, by simp [putNodes, hm], ?_⟩
  exact (hns m (mem_of_latest hm)).file_eq (hns n hn) (key_of_latest hm)

theorem hasFile_putNodes_of_owns {f : FileGraph} (hf : ':' ∉ f.path.toList) (hid : f.Owns id) :
    (v.putNodes f.nodes).HasFile f.path id := by
  obtain ⟨n, hn, rfl, hfile⟩ := hid.exists_node
  exact hfile ▸ hasFile_putNodes_of_mem (fun m hm => FileGraph.formed_of_mem hf hm) hn

/-- A node that takes the place of another belongs to the same file. -/
theorem Connected.hasFile_putNodes (h : v.Connected pending) (hns : ∀ n ∈ ns, n.Formed) (hid : v.HasFile file id) :
    (v.putNodes ns).HasFile file id := by
  obtain ⟨n, hn, rfl⟩ := hid
  cases hlatest : latest Node.id ns id with
  | none => exact ⟨n, by simp [putNodes, hlatest, hn], rfl⟩
  | some m =>
    refine ⟨m, by simp [putNodes, hlatest], ?_⟩
    exact (hns m (mem_of_latest hlatest)).file_eq (h.formed hn) ((key_of_latest hlatest).trans (h.id hn).symm)

/-- Nodes are written, and then edges between nodes that are there. -/
theorem Connected.write (h : v.Connected pending) (hns : ∀ n ∈ ns, n.Formed)
    (hes : ∀ e ∈ es, e.weight = none ∧ ((v.putNodes ns).node? e.source).isSome ∧
      ((v.putNodes ns).node? e.target).isSome)
    (hbelow : ∀ n ∈ ns, IsSymbolId n.id → ∃ parent, ((v.putNodes ns).putEdges es).Below n parent)
    {later : List String} (hlater : ∀ p ∈ pending, p ∈ later)
    (hfiled : ∀ n ∈ ns, n.file ≠ "" → (v.putNodes ns).HasFile n.file (fileId n.file) ∧ n.file ∈ later) :
    ((v.putNodes ns).putEdges es).Connected later := by
  have hnode : ∀ {id n}, ((v.putNodes ns).putEdges es).node? id = some n →
      (n ∈ ns ∧ n.id = id) ∨ v.node? id = some n := by
    intro id n hn
    rcases Option.or_eq_some_iff.mp hn with hlatest | ⟨-, hold⟩
    · exact .inl ⟨mem_of_latest hlatest, key_of_latest hlatest⟩
    · exact .inr hold
  have hedge : ∀ {k e}, ((v.putNodes ns).putEdges es).edge? k = some e → (e ∈ es ∧ e.key = k) ∨ v.edge? k = some e := by
    intro k e he
    rcases Option.or_eq_some_iff.mp he with hlatest | ⟨-, hold⟩
    · exact .inl ⟨mem_of_latest hlatest, key_of_latest hlatest⟩
    · exact .inr hold
  refine ⟨fun hn => ?_, fun hn => ?_, fun he => ?_, fun {k} hk => ?_, fun {id n} hn hid => ?_, fun {id n} hn hne => ?_⟩
  · exact (hnode hn).elim (·.2) h.id
  · exact (hnode hn).elim (fun hnew => hns _ hnew.1) h.formed
  · exact (hedge he).elim (fun hnew => (hes _ hnew.1).1) h.weight
  · obtain ⟨e, he⟩ := Option.isSome_iff_exists.mp hk
    rcases hedge he with ⟨hnew, rfl⟩ | hold
    · exact (hes e hnew).2
    · have hends := @Connected.ends _ _ h k (by rw [hold]; rfl)
      exact ⟨isSome_putNodes hends.1 ns, isSome_putNodes hends.2 ns⟩
  · rcases hnode hn with ⟨hnew, rfl⟩ | hold
    · exact hbelow n hnew hid
    · obtain ⟨parent, hparent⟩ := h.below hold hid
      refine ⟨parent, hparent.parent, h.hasFile_putNodes hns hparent.node, ?_, hparent.shorter⟩
      simp [putEdges, putNodes, hparent.edge]
  · rcases hnode hn with ⟨hnew, rfl⟩ | hold
    · exact ⟨(hfiled n hnew hne).1, .inr (hfiled n hnew hne).2⟩
    · obtain ⟨hfile, htime⟩ := h.filed hold hne
      exact ⟨h.hasFile_putNodes hns hfile, htime.imp_right (hlater _)⟩

theorem Connected.writeFile (h : v.Connected pending) {f : FileGraph} (hf : ':' ∉ f.path.toList) :
    ((v.putNodes f.nodes).putEdges f.edges).Connected (pending ++ [f.path]) := by
  have hformed : ∀ n ∈ f.nodes, n.Formed := fun n hn => FileGraph.formed_of_mem hf hn
  refine h.write hformed (fun e he => ?_) (fun n hn hid => ?_) (fun p hp => List.mem_append_left _ hp)
    fun n hn hne => ?_
  · have hstructural := FileGraph.structural_of_mem he
    obtain ⟨m, hm, hid⟩ := hstructural.node
    exact ⟨hstructural.weight, (hasFile_putNodes_of_owns hf hstructural.source).isSome,
      hid ▸ (hasFile_putNodes_of_mem hformed hm).isSome⟩
  · rcases FileGraph.mem_nodes.mp hn with rfl | ⟨s, hs, rfl⟩ | ⟨i, -, rfl⟩
    · simp [IsSymbolId, FileGraph.fileNode, fileId, Text.startsWith, Text.dropFront?] at hid
    · refine ⟨f.containerOf s, rfl, hasFile_putNodes_of_owns hf (FileGraph.owns_containerOf s), ?_,
        f.containerOf_shorter s⟩
      have hmem : (⟨f.containerOf s, f.idOf s, .contains, none, []⟩ : Edge) ∈ f.edges :=
        List.mem_append_left _ (List.mem_map_of_mem hs)
      have hsome := @isSome_latest _ _ _ Edge.key _ _ hmem
      change ((latest Edge.key f.edges _).or _).isSome
      rw [Option.isSome_or]
      exact Bool.or_eq_true_iff.mpr (.inl hsome)
    · simp [IsSymbolId, FileGraph.moduleNode, moduleKind, Text.startsWith, Text.dropFront?] at hid
  · have hfile : n.file = f.path := by
      rcases FileGraph.mem_nodes.mp hn with rfl | ⟨s, -, rfl⟩ | ⟨i, -, rfl⟩
      · rfl
      · rfl
      · exact absurd rfl hne
    rw [hfile]
    exact ⟨hasFile_putNodes_of_owns hf f.owns_fileId, List.mem_append_right _ (List.mem_singleton_self _)⟩

theorem Connected.writeResolved (h : v.Connected pending) {r : Resolved} {known : String → Prop}
    (hsound : r.Sound known) (hknown : ∀ id, known id → (v.node? id).isSome)
    (hsources : ∀ e ∈ r.edges, (v.node? e.source).isSome) :
    ((v.putNodes r.externals).putEdges r.edges).Connected pending := by
  refine h.write hsound.formed (fun e he => ⟨hsound.weights e he, isSome_putNodes (hsources e he) _, ?_⟩)
    (fun n hn hid => ?_) (fun _ hp => hp) fun n hn hne => ?_
  · rcases hsound.targets e he with hid | ⟨n, hn, hid⟩
    · exact isSome_putNodes (hknown _ hid) _
    · exact hid ▸ (hasFile_putNodes_of_mem hsound.formed hn).isSome
  · obtain ⟨name, rfl⟩ := hsound.externals n hn
    exact absurd hid (not_isSymbolId_externalNode name)
  · obtain ⟨name, rfl⟩ := hsound.externals n hn
    exact absurd rfl hne

theorem Connected.setTime (h : v.Connected (file :: pending)) (time : Double) :
    (v.setTime file time).Connected pending where
  id := h.id
  formed := h.formed
  weight := h.weight
  ends := h.ends
  below hn hid := by
    obtain ⟨parent, hbelow⟩ := h.below hn hid
    exact ⟨parent, hbelow.parent, hbelow.node, hbelow.edge, hbelow.shorter⟩
  filed {id n} hn hne := by
    obtain ⟨hfile, htime⟩ := h.filed hn hne
    refine ⟨hfile, ?_⟩
    change (if n.file = file then some time else v.time? n.file).isSome ∨ _
    by_cases heq : n.file = file
    · exact .inl (by rw [if_pos heq]; rfl)
    · rw [if_neg heq]
      exact htime.imp_right fun hmem => (List.mem_cons.mp hmem).resolve_left heq

end Write

/-! ### Pruning -/

theorem Connected.prune (h : v.Connected pending) : (v.prune [moduleKind, externalType]).Connected pending where
  id hn := h.id (node?_prune.mp hn).1
  formed hn := h.formed (node?_prune.mp hn).1
  weight := h.weight
  ends {k} hk := by
    have hk : (v.edge? k).isSome := hk
    rw [node?_prune_of_touched ⟨k, hk, .inl rfl⟩, node?_prune_of_touched ⟨k, hk, .inr rfl⟩]
    exact h.ends hk
  below {id n} hn hid := by
    obtain ⟨parent, hbelow⟩ := h.below (node?_prune.mp hn).1 hid
    obtain ⟨m, hm, hfile⟩ := hbelow.node
    have htouched : v.Touched parent := ⟨_, hbelow.edge, .inl rfl⟩
    exact ⟨parent, hbelow.parent, ⟨m, (node?_prune_of_touched htouched).trans hm, hfile⟩, hbelow.edge, hbelow.shorter⟩
  filed {id n} hn hne := by
    obtain ⟨⟨m, hm, hfile⟩, htime⟩ := h.filed (node?_prune.mp hn).1 hne
    refine ⟨⟨m, node?_prune.mpr ⟨hm, .inl ?_⟩, hfile⟩, htime⟩
    rw [(h.formed hm).file (h.id hm)]
    decide

/-- Of what lies outside, pruning leaves only what an edge touches. -/
theorem Connected.touched_of_prune (h : v.Connected pending) {n : Node}
    (hn : (v.prune [moduleKind, externalType]).node? id = some n) (hid : IsOutsideId id) :
    (v.prune [moduleKind, externalType]).Touched id := by
  obtain ⟨hn, hkept⟩ := node?_prune.mp hn
  refine hkept.resolve_left fun hkind => hkind ((h.formed hn).outside ?_)
  rwa [h.id hn]

/-! ### Above a symbol -/

/-- The node of an id names another as the one above it. -/
def ChildOf (v : View) (id parent : String) : Prop := ∃ n, v.node? id = some n ∧ n.parent = some parent

/-- From a symbol upwards ids get shorter until the file is reached. -/
theorem Connected.rooted (h : v.Connected pending) {n : Node} (hn : v.node? id = some n) (hid : IsSymbolId id) :
    Relation.ReflTransGen v.ChildOf id (fileId n.file) ∧ v.HasFile n.file (fileId n.file) := by
  induction hlength : id.length using Nat.strong_induction_on generalizing id n with
  | _ length ih =>
    obtain ⟨parent, hbelow⟩ := h.below hn hid
    have hstep : v.ChildOf id parent := ⟨n, hn, hbelow.parent⟩
    rcases hbelow.shorter with rfl | ⟨hsymbol, hshorter⟩
    · exact ⟨.single hstep, hbelow.node⟩
    · rw [h.id hn, hlength] at hshorter
      obtain ⟨m, hm, hfile⟩ := hbelow.node
      obtain ⟨hpath, hroot⟩ := ih parent.length hshorter hm hsymbol rfl
      rw [hfile] at hpath hroot
      exact ⟨.head hstep hpath, hroot⟩

end View

/-! ## Passes -/

section Pass

open LawfulStore

variable {σ : Type} [Store σ] [LawfulStore σ] {s : σ} {p : Pass σ} {rd : Reader} {hover : Option HoverSource}
  {found : List (Candidate × FileGraph)}

theorem weight_of_mem_detach (h : Valid s) {pending : List String} (hs : (view s).Connected pending) {file : String}
    {d : Detached} (hd : d ∈ detach s file) : d.edge.weight = none := by
  obtain ⟨e, he, hnode⟩ := List.mem_filterMap.mp hd
  obtain ⟨n, -, rfl⟩ := Option.map_eq_some_iff.mp hnode
  exact hs.weight ((mem_incoming h).mp he).1

/-- A pass on its way. The files that it found have their nodes, and their times are still to come. -/
structure Pass.Connected (p : Pass σ) (found : List (Candidate × FileGraph)) : Prop where
  valid : Valid p.store
  connected : (view p.store).Connected (found.map (·.1.path))
  owned : ∀ entry ∈ found, ∀ id, entry.2.Owns id → (view p.store).HasFile entry.1.path id
  weights : ∀ d ∈ p.detached, d.edge.weight = none

theorem Pass.Connected.remove (h : p.Connected found) {file : String} (hnew : ∀ entry ∈ found, entry.1.path ≠ file) :
    (p.remove file).Connected found := by
  have hview : view (p.remove file).store = (view p.store).deleteFile file := view_deleteFile h.valid file
  refine ⟨valid_deleteFile h.valid file, ?_, fun entry hentry id hid => ?_, fun d hd => ?_⟩
  · rw [hview]
    exact h.connected.deleteFile file
  · rw [hview]
    exact (h.owned entry hentry id hid).deleteFile (hnew entry hentry)
  · rcases List.mem_append.mp hd with hold | hmore
    · exact h.weights d hold
    · exact weight_of_mem_detach h.valid h.connected hmore

theorem Pass.Connected.vanish (h : p.Connected []) (files : List String) :
    (files.foldl Pass.vanish p).Connected [] ∧ (files.foldl Pass.vanish p).memo = p.memo := by
  induction files generalizing p with
  | nil => exact ⟨h, rfl⟩
  | cons file rest ih =>
    have hremoved := @Pass.Connected.remove _ _ _ _ _ h file (List.forall_mem_nil _)
    exact @ih (p.vanish file) ⟨hremoved.valid, hremoved.connected, hremoved.owned, hremoved.weights⟩

/-- One file is replaced: it joins those that were found, unless it is no text. -/
theorem Pass.Connected.replace (h : p.Connected found) {c : Candidate} (hpath : ':' ∉ c.path.toList)
    (hnew : ∀ entry ∈ found, entry.1.path ≠ c.path) :
    let next := Pass.replace rd hover (p, found) c
    next.1.Connected next.2 ∧ next.1.memo = p.memo ∧
      ∀ entry ∈ next.2, entry ∈ found ∨ entry.1.path = c.path := by
  have hremoved := h.remove hnew
  cases htext : c.text with
  | error fault =>
    simp only [Pass.replace, htext]
    exact ⟨⟨hremoved.valid, hremoved.connected, hremoved.owned, hremoved.weights⟩, rfl, fun _ => .inl⟩
  | ok text =>
    simp only [Pass.replace, htext]
    set f : FileGraph := ⟨c.path, text, _⟩
    obtain ⟨hvalid, hview⟩ := apply_nodes_edges hremoved.valid f.nodes fun e he =>
      (FileGraph.structural_of_mem he).weight
    have hcolon : ':' ∉ f.path.toList := hpath
    have hformed : ∀ n ∈ f.nodes, n.Formed := fun n hn => FileGraph.formed_of_mem hcolon hn
    refine ⟨⟨hvalid, ?_, fun entry hentry id hid => ?_, hremoved.weights⟩, rfl, fun entry hentry => ?_⟩
    · rw [List.map_append]
      exact hview ▸ hremoved.connected.writeFile hcolon
    · refine hview ▸ ?_
      rcases List.mem_append.mp hentry with hold | hlast
      · exact hremoved.connected.hasFile_putNodes hformed (hremoved.owned entry hold id hid)
      · obtain rfl := List.mem_singleton.mp hlast
        exact View.hasFile_putNodes_of_owns hcolon hid
    · exact (List.mem_append.mp hentry).imp_right fun hlast => by rw [List.mem_singleton.mp hlast]

theorem Pass.Connected.replaceAll (h : p.Connected found) {cs : List Candidate}
    (hpaths : ∀ c ∈ cs, ':' ∉ c.path.toList) (hnodup : (cs.map (·.path)).Nodup)
    (hnew : ∀ c ∈ cs, ∀ entry ∈ found, entry.1.path ≠ c.path) :
    let last := cs.foldl (Pass.replace rd hover) (p, found)
    last.1.Connected last.2 ∧ last.1.memo = p.memo := by
  induction cs generalizing p found with
  | nil => exact ⟨h, rfl⟩
  | cons c cs ih =>
    obtain ⟨hc, hrest⟩ := List.nodup_cons.mp hnodup
    obtain ⟨hnext, hmemo, hfound⟩ := @Pass.Connected.replace _ _ _ _ rd hover _ h _ (hpaths c List.mem_cons_self)
      (hnew c List.mem_cons_self)
    rw [List.foldl_cons, ← hmemo]
    refine ih hnext (fun c' hc' => hpaths c' (List.mem_cons_of_mem c hc')) hrest fun c' hc' entry hentry => ?_
    rcases hfound entry hentry with hold | hlast
    · exact hnew c' (List.mem_cons_of_mem c hc') entry hold
    · rw [hlast]
      exact fun heq => hc (List.mem_map.mpr ⟨c', hc', heq.symm⟩)

/-- Edges and the external types that they need leave the symbols alone, and with them the meaning of names. -/
theorem Pass.Connected.writeResolved (h : p.Connected found) {r : Resolved} {memo : Memo} {known : String → Prop}
    (hsound : r.Sound known) (hknown : ∀ id, known id → ((view p.store).node? id).isSome)
    (hsources : ∀ e ∈ r.edges, ((view p.store).node? e.source).isSome)
    (hmemo : MemoSound (resolve p.store) memo) :
    (p.writeResolved (r, memo)).Connected found ∧ MemoSound (resolve (p.writeResolved (r, memo)).store) memo := by
  obtain ⟨hvalid, hview⟩ := Pass.view_writeResolved h.valid memo hsound.weights
  have hnames : resolve (p.writeResolved (r, memo)).store = resolve p.store := funext fun name =>
    resolve_congr hvalid h.valid (fun id hid => by
      rw [hview]
      change (latest Node.id r.externals id).or _ = _
      rw [hsound.latest_externals (.inl hid), Option.none_or]) name
  refine ⟨⟨hvalid, ?_, fun entry hentry id hid => ?_, h.weights⟩, hnames ▸ hmemo⟩
  · rw [hview]
    exact h.connected.writeResolved hsound hknown hsources
  · rw [hview]
    exact h.connected.hasFile_putNodes hsound.formed (h.owned entry hentry id hid)

theorem Pass.Connected.relate {entry : Candidate × FileGraph} (h : p.Connected (entry :: found))
    (hmemo : MemoSound (resolve p.store) p.memo) :
    (p.relate entry).Connected found ∧ MemoSound (resolve (p.relate entry).store) (p.relate entry).memo := by
  obtain ⟨hedges, hsound, hmemo⟩ := relations_spec (fun _ => rfl) hmemo entry.2
  have howns : ∀ id, entry.2.Owns id → ((view p.store).node? id).isSome := fun id hid =>
    (h.owned entry List.mem_cons_self id hid).isSome
  obtain ⟨hlinked, hmemo⟩ := h.writeResolved hsound
    (fun id hid => hid.elim (howns id) fun ⟨name, hname⟩ => isSome_of_resolve h.valid hname)
    (fun e he => by
      obtain ⟨l, -, -, hsource⟩ := FileGraph.source_of_mem_linkEdges (hedges ▸ he)
      exact howns _ hsource)
    hmemo
  have hvalid : Valid (p.relate entry).store := valid_setMtime hlinked.valid _ _
  have hview : view (p.relate entry).store =
      (view (p.writeResolved (relations p.store entry.2 p.memo)).store).setTime entry.1.path
        entry.1.mtime := view_setMtime hlinked.valid _ entry.1.isTime_mtime
  have hnames : resolve (p.relate entry).store =
      resolve (p.writeResolved (relations p.store entry.2 p.memo)).store := funext fun name =>
    resolve_congr hvalid hlinked.valid (fun id _ => by rw [hview]; rfl) name
  refine ⟨⟨hvalid, ?_, fun other hother id hid => ?_, hlinked.weights⟩, hnames ▸ hmemo⟩
  · rw [hview]
    exact hlinked.connected.setTime _
  · rw [hview]
    exact hlinked.owned other (List.mem_cons_of_mem entry hother) id hid

theorem Pass.Connected.relateAll (h : p.Connected found) (hmemo : MemoSound (resolve p.store) p.memo) :
    (found.foldl Pass.relate p).Connected [] ∧
      MemoSound (resolve (found.foldl Pass.relate p).store) (found.foldl Pass.relate p).memo := by
  induction found generalizing p with
  | nil => exact ⟨h, hmemo⟩
  | cons entry found ih =>
    obtain ⟨hnext, hmemo⟩ := h.relate hmemo
    exact ih hnext hmemo

/-- What was set aside is written only from nodes that are still there. -/
theorem Pass.Connected.reattach (h : p.Connected []) (hmemo : MemoSound (resolve p.store) p.memo)
    (replaced : List String) :
    (p.writeResolved (reattached p.store replaced p.detached p.memo)).Connected [] := by
  obtain ⟨hedges, hsound, hmemo⟩ := reattached_spec (fun _ => rfl) hmemo replaced h.weights
  refine (h.writeResolved hsound (fun id ⟨name, hname⟩ => isSome_of_resolve h.valid hname) (fun e he => ?_) hmemo).1
  rw [hedges] at he
  obtain ⟨d, -, hd⟩ := List.mem_filterMap.mp he
  obtain ⟨source, hsource, hd⟩ := Option.bind_eq_some_iff.mp hd
  split at hd
  · cases hd
  · obtain ⟨t, -, rfl⟩ := Option.map_eq_some_iff.mp hd
    rw [← node?_eq h.valid]
    exact Option.isSome_of_eq_some hsource

/-- What a whole pass keeps, and what its pruning adds. -/
theorem connected_index (h : Valid s) (hs : (view s).Connected []) {force : Bool} {files : Dict Candidate}
    (hnodup : ((staleCandidates s force files).map (·.path)).Nodup)
    (hpaths : ∀ c ∈ staleCandidates s force files, ':' ∉ c.path.toList) (asked : List HoverCall) :
    let t := (index rd hover force files asked s).store
    Valid t ∧ (view t).Connected [] ∧ ∀ id n, (view t).node? id = some n → IsOutsideId id → (view t).Touched id := by
  intro t
  obtain ⟨start, rfl, hdetached, hmemo, hstore⟩ := exists_index_store_of_hover rd hover force files asked s
  have hstart : start.Connected [] := ⟨h, hs, List.forall_mem_nil _, by
    rw [hdetached]
    exact List.forall_mem_nil _⟩
  obtain ⟨hvanished, hmemo₁⟩ := hstart.vanish (vanishedFiles start.store files)
  obtain ⟨hreplaced, hmemo₂⟩ := @Pass.Connected.replaceAll _ _ _ _ rd hover _ hvanished _ hpaths hnodup
    fun _ _ => List.forall_mem_nil _
  obtain ⟨hrelated, hmemo₃⟩ := hreplaced.relateAll (by
    rw [hmemo₂, hmemo₁, hmemo]
    exact MemoSound.nil _)
  have hlinked := hrelated.reattach hmemo₃ (staleFiles start.store force files ++ vanishedFiles start.store files)
  have hview : view t = _ := (congrArg view hstore).trans (view_prune hlinked.valid _)
  rw [hview]
  refine ⟨?_, hlinked.connected.prune, fun id n hn hid => hlinked.connected.touched_of_prune hn hid⟩
  rw [show t = _ from hstore]
  exact valid_prune hlinked.valid _

end Pass

/-! ## Runs -/

section Run

open LawfulStore

variable {σ : Type} [Store σ] {s : σ} {rd : Reader} {policy : IgnorePolicy}

/-- What passes make of an empty graph, each over a tree with no colon in the paths that it finds, forced or not,
and with or without a language server. -/
inductive Reachable (σ : Type) [Store σ] (rd : Reader) (policy : IgnorePolicy) : σ → Prop
  | empty : Reachable σ rd policy Store.empty
  | pass {s : σ} (h : Reachable σ rd policy s) (root : String) (d : Disk)
    (hpaths : ∀ entry ∈ filesIn rd policy root d, ':' ∉ entry.1.toList) (hover : Option HoverSource)
    (asked : List HoverCall) (force : Bool) :
    Reachable σ rd policy (index rd hover force (filesIn rd policy root d) asked s).store

/-- The node of an id names another as the one above it. -/
def ChildOf (s : σ) (id parent : String) : Prop := ∃ n, Store.node? s id = some n ∧ n.parent = some parent

/-- A graph that holds together. -/
structure Intact (s : σ) : Prop where
  /-- An edge joins two nodes. -/
  ends : ∀ e ∈ Store.allEdges s, (Store.node? s e.source).isSome ∧ (Store.node? s e.target).isSome
  /-- The file of a node has a time and a node of its own. -/
  filed : ∀ id n, Store.node? s id = some n → n.file ≠ "" → (Store.mtime? s n.file).isSome ∧
    ∃ m, Store.node? s (fileId n.file) = some m ∧ m.file = n.file ∧ m.kind = "file"
  /-- A symbol is contained in a node of its file. -/
  below : ∀ id n, Store.node? s id = some n → IsSymbolId id → ∃ parent m, n.parent = some parent ∧
    Store.node? s parent = some m ∧ m.file = n.file ∧ ∃ e ∈ Store.allEdges s, e.key = ⟨parent, id, .contains⟩
  /-- From a symbol upwards one gets to the node of its file. -/
  rooted : ∀ id n, Store.node? s id = some n → IsSymbolId id →
    Relation.ReflTransGen (ChildOf s) id (fileId n.file) ∧
      ∃ m, Store.node? s (fileId n.file) = some m ∧ m.file = n.file ∧ m.kind = "file"
  /-- A module or an external type is there for an edge. -/
  touched : ∀ id n, Store.node? s id = some n → IsOutsideId id → ∃ e ∈ Store.allEdges s, e.source = id ∨ e.target = id

theorem nodup_staleCandidates_filesIn (s : σ) (force : Bool) (root : String) (d : Disk) :
    ((staleCandidates s force (filesIn rd policy root d)).map (·.path)).Nodup := by
  rw [staleCandidates, List.map_filterMap]
  refine (nodup_staleFiles (nodup_filesIn rd policy root d)).filterMap fun p q path hp hq => ?_
  obtain ⟨c, hc, rfl⟩ := Option.map_eq_some_iff.mp hp
  obtain ⟨c', hc', heq⟩ := Option.map_eq_some_iff.mp hq
  rw [← path_of_lookup_filesIn hc, ← path_of_lookup_filesIn hc', heq]

variable [LawfulStore σ]

theorem View.Connected.file_node {v : View} {pending : List String} (h : v.Connected pending) {file : String}
    (hfile : v.HasFile file (fileId file)) : ∃ m, v.node? (fileId file) = some m ∧ m.file = file ∧ m.kind = "file" := by
  obtain ⟨m, hm, hmfile⟩ := hfile
  exact ⟨m, hm, hmfile, (h.formed hm).file (h.id hm)⟩

theorem exists_mem_allEdges (h : Valid s) {k : EdgeKey} (hk : ((view s).edge? k).isSome) :
    ∃ e ∈ Store.allEdges s, e.key = k := by
  obtain ⟨e, he⟩ := Option.isSome_iff_exists.mp hk
  have hkey := key_of_edge? h he
  exact ⟨e, (mem_allEdges h).mpr (hkey.symm ▸ he), hkey⟩

theorem intact_of_connected (h : Valid s) (hs : (view s).Connected [])
    (htouched : ∀ id n, (view s).node? id = some n → IsOutsideId id → (view s).Touched id) : Intact s := by
  have hchild : ChildOf s = (view s).ChildOf := by
    funext id parent
    simp only [ChildOf, View.ChildOf, node?_eq h]
  constructor
  · intro e he
    rw [node?_eq h, node?_eq h]
    exact @View.Connected.ends _ _ hs e.key (Option.isSome_of_eq_some ((mem_allEdges h).mp he))
  · intro id n hn hne
    rw [node?_eq h] at hn
    obtain ⟨hfile, htime⟩ := hs.filed hn hne
    simp only [node?_eq h, mtime?_eq h]
    exact ⟨htime.resolve_right List.not_mem_nil, hs.file_node hfile⟩
  · intro id n hn hid
    rw [node?_eq h] at hn
    obtain ⟨parent, hbelow⟩ := hs.below hn hid
    obtain ⟨m, hm, hfile⟩ := hbelow.node
    refine ⟨parent, m, hbelow.parent, (node?_eq h parent).trans hm, hfile, ?_⟩
    exact hs.id hn ▸ exists_mem_allEdges h hbelow.edge
  · intro id n hn hid
    rw [node?_eq h] at hn
    obtain ⟨hpath, hfile⟩ := hs.rooted hn hid
    simp only [node?_eq h, hchild]
    exact ⟨hpath, hs.file_node hfile⟩
  · intro id n hn hid
    rw [node?_eq h] at hn
    obtain ⟨k, hk, hends⟩ := htouched id n hn hid
    obtain ⟨e, he, rfl⟩ := exists_mem_allEdges h hk
    exact ⟨e, he, hends⟩

theorem Reachable.connected (h : Reachable σ rd policy s) : Valid s ∧ (view s).Connected [] ∧
    ∀ id n, (view s).node? id = some n → IsOutsideId id → (view s).Touched id := by
  induction h with
  | empty =>
    rw [view_empty]
    exact ⟨valid_empty, View.connected_empty, fun _ _ hn => nomatch hn⟩
  | @pass s _ root d hpaths hover asked force ih =>
    refine connected_index ih.1 ih.2.1 (nodup_staleCandidates_filesIn s force root d) (fun c hc => ?_) asked
    obtain ⟨p, -, hp⟩ := List.mem_filterMap.mp hc
    rw [path_of_lookup_filesIn hp]
    exact hpaths _ (Dict.mem_of_lookup hp)

/-- After any passes over trees without colons in their paths, the graph holds together. -/
theorem reachable_graph_intact (h : Reachable σ rd policy s) : Intact s :=
  intact_of_connected h.connected.1 h.connected.2.1 h.connected.2.2

/-- The base of a class comes in a later pass: the external type stays for the edge of the class, and both classes
are below their files. -/
theorem reachable_graph_intact_late_base :
    let derived := ({} : Disk).put "b.c" ⟨[66, 32, 65], 10, none⟩
    let earlier := (index classReader none false (filesIn classReader ⟨[]⟩ "" derived) []
      (Store.empty : MemoryGraph)).store
    let s := (index classReader none false (filesIn classReader ⟨[]⟩ "" baseAndDerived) [] earlier).store
    Reachable MemoryGraph classReader ⟨[]⟩ s ∧
      (∃ e ∈ Store.allEdges s, e.source = "external_type:A" ∨ e.target = "external_type:A") ∧
      Relation.ReflTransGen (ChildOf s) "symbol:a.c:A" "file:a.c" ∧
      Relation.ReflTransGen (ChildOf s) "symbol:b.c:B" "file:b.c" := by
  intro derived earlier s
  have hderived : filesIn classReader ⟨[]⟩ "" derived = [("b.c", ⟨"b.c", "classes", ⟨[66, 32, 65], 10, none⟩⟩)] := by
    decide +kernel
  have hearlier : Reachable MemoryGraph classReader ⟨[]⟩ earlier :=
    .pass .empty "" derived (by rw [hderived]; decide) none [] false
  have hs : Reachable MemoryGraph classReader ⟨[]⟩ s :=
    .pass hearlier "" baseAndDerived (by rw [filesIn_baseAndDerived]; decide) none [] false
  have hfiles : (Store.node? s "external_type:A").map (·.file) = some "" ∧
      (Store.node? s "symbol:a.c:A").map (·.file) = some "a.c" ∧
      (Store.node? s "symbol:b.c:B").map (·.file) = some "b.c" := by
    simp only [s, earlier, hderived, filesIn_baseAndDerived]
    decide +kernel
  obtain ⟨hexternal, hbase, hclass⟩ := hfiles
  obtain ⟨t, ht, -⟩ := Option.map_eq_some_iff.mp hexternal
  obtain ⟨m, hm, hmfile⟩ := Option.map_eq_some_iff.mp hbase
  obtain ⟨n, hn, hnfile⟩ := Option.map_eq_some_iff.mp hclass
  have hintact : Intact s := reachable_graph_intact hs
  have hmroot := (hintact.rooted _ m hm rfl).1
  have hnroot := (hintact.rooted _ n hn rfl).1
  rw [hmfile] at hmroot
  rw [hnfile] at hnroot
  exact ⟨hs, hintact.touched _ t ht (.inr rfl), hmroot, hnroot⟩

end Run

end CodeIndex.Graph
