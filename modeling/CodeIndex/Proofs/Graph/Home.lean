import CodeIndex.Proofs.Graph.View

/-!
# Where ids belong

An id tells the file of its node: `homeOf` reads it from the ids of files and symbols, and modules and
external types are at home `nowhere`. As long as paths have no colon, the nodes and edges that a file gives are
at home in it, so that files do not get into each other's way. With colons two files can share an id.
-/

namespace CodeIndex

namespace Text

theorem dropFront?_append [DecidableEq α] (front cs : List α) : dropFront? front (front ++ cs) = some cs := by
  induction front with
  | nil => rfl
  | cons c front ih => simp [dropFront?, ih]

theorem startsWith_append (front s : String) : startsWith (front ++ s) front = true := by
  simp [startsWith, dropFront?_append]

end Text

namespace Graph

/-- The home of what belongs to no file, which is no path. -/
def nowhere : String := ":"

/-- The path of the file that an id names. -/
def homeOf (id : String) : String :=
  match Text.dropFront? "file:".toList id.toList with
  | some rest => String.ofList rest
  | none =>
    match Text.dropFront? "symbol:".toList id.toList with
    | some rest => String.ofList (rest.takeWhile (· != ':'))
    | none => nowhere

/-- The file that a node at a home bears: none is written as the empty path, which a root that is a file has too. -/
def fileAt (home : String) : String := if home = nowhere then "" else home

/-- The path of a file has no colon. -/
structure ProperPath (path : String) : Prop where
  no_colon : ':' ∉ path.toList

example : symbolId "a" "b:c" = symbolId "a:b" "c" := by decide

theorem ProperPath.ne_nowhere {path : String} (h : ProperPath path) : path ≠ nowhere := by
  rintro rfl
  exact h.no_colon (by decide)

theorem fileAt_of_ne {home : String} (h : home ≠ nowhere) : fileAt home = home := if_neg h

theorem eq_of_fileAt {home file : String} (h : fileAt home = file) (hfile : file ≠ "") :
    home = file ∧ home ≠ nowhere := by
  unfold fileAt at h
  split at h
  · exact absurd h.symm hfile
  · next hhome => exact ⟨h, hhome⟩

/-- The path of a file below a directory, which things outside of files do not have. -/
structure InnerPath (path : String) : Prop where
  proper : ProperPath path
  ne_empty : path ≠ ""

theorem InnerPath.fileAt_eq_iff {file : String} (h : InnerPath file) {home : String} :
    fileAt home = file ↔ home = file := by
  refine ⟨fun heq => (eq_of_fileAt heq h.ne_empty).1, ?_⟩
  rintro rfl
  exact fileAt_of_ne h.proper.ne_nowhere

/-- Whether an id is that of a symbol. -/
def IsSymbolId (id : String) : Prop := Text.startsWith id "symbol:" = true

theorem homeOf_fileId (path : String) : homeOf (fileId path) = path := by
  rw [homeOf, fileId, String.toList_append, Text.dropFront?_append]
  exact String.ofList_toList

theorem homeOf_symbolId {path : String} (h : ':' ∉ path.toList) (name : String) :
    homeOf (symbolId path name) = path := by
  have hfile : Text.dropFront? "file:".toList (symbolId path name).toList = none := by
    simp [symbolId, Text.dropFront?]
  have hsymbol : Text.dropFront? "symbol:".toList (symbolId path name).toList =
      some (path.toList ++ ':' :: name.toList) := by
    rw [← Text.dropFront?_append "symbol:".toList]
    simp [symbolId]
  rw [homeOf, hfile, hsymbol]
  dsimp only
  rw [List.takeWhile_append_of_pos, List.takeWhile_cons_of_neg (by simp), List.append_nil, String.ofList_toList]
  intro c hc
  simpa using fun heq : c = ':' => h (heq ▸ hc)

theorem homeOf_externalNode (name : String) : homeOf (externalNode name).id = nowhere := by
  simp [homeOf, externalNode, externalType, Text.dropFront?]

theorem moduleNode_ne_externalNode (i : Import) (name : String) :
    (FileGraph.moduleNode i).id ≠ (externalNode name).id := by
  simp [FileGraph.moduleNode, externalNode, moduleKind, externalType, String.ext_iff]

theorem homeOf_moduleNode (i : Import) : homeOf (FileGraph.moduleNode i).id = nowhere := by
  simp [homeOf, FileGraph.moduleNode, moduleKind, Text.dropFront?]

theorem isSymbolId_symbolId (path name : String) : IsSymbolId (symbolId path name) := by
  rw [symbolId, String.append_assoc, String.append_assoc]
  exact Text.startsWith_append _ _

theorem not_isSymbolId_externalNode (name : String) : ¬IsSymbolId (externalNode name).id := by
  simp [IsSymbolId, externalNode, externalType, Text.startsWith, Text.dropFront?]

theorem externalNode_injective {a b : String} (h : (externalNode a).id = (externalNode b).id) : a = b := by
  simpa [externalNode, String.ext_iff] using h

/-! ## What a file gives -/

namespace FileGraph

variable {f : FileGraph}

/-- The id is that of the file or of one of its symbols. -/
def Owns (f : FileGraph) (id : String) : Prop := id = fileId f.path ∨ ∃ s ∈ f.symbols, id = f.idOf s

theorem mem_nodes {n : Node} : n ∈ f.nodes ↔
    n = f.fileNode ∨ (∃ s ∈ f.symbols, n = f.symbolNode (Text.lineChars f.text.toList).toArray s) ∨
      ∃ i ∈ f.modules, n = moduleNode i := by
  simp only [nodes, List.cons_append, List.mem_cons, List.mem_append, List.mem_map, eq_comm]

theorem Owns.homeOf (hf : ProperPath f.path) {id : String} (h : f.Owns id) : homeOf id = f.path := by
  rcases h with rfl | ⟨s, -, rfl⟩
  · exact homeOf_fileId f.path
  · exact homeOf_symbolId hf.no_colon _

/-- What a file owns is there among its nodes. -/
theorem Owns.exists_node {id : String} (h : f.Owns id) : ∃ n ∈ f.nodes, n.id = id ∧ n.file = f.path := by
  rcases h with rfl | ⟨s, hs, rfl⟩
  · exact ⟨f.fileNode, mem_nodes.mpr (.inl rfl), rfl, rfl⟩
  · exact ⟨_, mem_nodes.mpr (.inr (.inl ⟨s, hs, rfl⟩)), rfl, rfl⟩

theorem owns_fileId (f : FileGraph) : f.Owns (fileId f.path) := .inl rfl

theorem owns_idOf {s : EnrichedSymbol} (h : s ∈ f.symbols) : f.Owns (f.idOf s) := .inr ⟨s, h, rfl⟩

/-- The nodes of a file are its own, or modules. -/
theorem owns_or_nowhere {n : Node} (h : n ∈ f.nodes) :
    f.Owns n.id ∧ n.file = f.path ∨ homeOf n.id = nowhere ∧ n.file = "" ∧ ¬IsSymbolId n.id := by
  rcases mem_nodes.mp h with rfl | ⟨s, hs, rfl⟩ | ⟨i, -, rfl⟩
  · exact .inl ⟨f.owns_fileId, rfl⟩
  · exact .inl ⟨owns_idOf hs, rfl⟩
  · refine .inr ⟨homeOf_moduleNode i, rfl, ?_⟩
    simp [IsSymbolId, moduleNode, moduleKind, Text.startsWith, Text.dropFront?]

theorem owns_qualified {name id : String} (h : f.qualified? name = some id) : f.Owns id := by
  unfold qualified? at h
  split at h
  · next hany =>
    obtain ⟨s, hs, hname⟩ := List.any_eq_true.mp hany
    obtain rfl : s.symbol.qualifiedName = name := by simpa using hname
    obtain rfl := Option.some.inj h
    exact owns_idOf hs
  · cases h

theorem owns_onlyNamed {name id : String} (h : f.onlyNamed? name = some id) : f.Owns id ∧ IsSymbolId id := by
  unfold onlyNamed? at h
  split at h
  · next hids =>
    obtain rfl := Option.some.inj h
    have hmem := hids ▸ List.mem_singleton_self _
    obtain ⟨s, hs, rfl⟩ := List.mem_map.mp hmem
    exact ⟨owns_idOf (List.mem_of_mem_filter hs), isSymbolId_symbolId _ _⟩
  · cases h

theorem owns_containerOf (s : EnrichedSymbol) : f.Owns (f.containerOf s) := by
  unfold containerOf
  cases hid : s.symbol.parent.bind f.qualified? with
  | none => exact f.owns_fileId
  | some id =>
    obtain ⟨parent, -, hparent⟩ := Option.bind_eq_some_iff.mp hid
    exact owns_qualified hparent

theorem owns_sourceOf (l : Link) : f.Owns (f.sourceOf l) := by
  unfold sourceOf
  cases hid : (f.qualified? l.source).or (f.onlyNamed? (bareName l.source)) with
  | none => exact f.owns_fileId
  | some id =>
    rcases Option.or_eq_some_iff.mp hid with h | ⟨-, h⟩
    · exact owns_qualified h
    · exact (owns_onlyNamed h).1

/-- The edges of a file start in it, end in it or at a module, and are of two kinds that no link has. -/
structure Structural (f : FileGraph) (e : Edge) : Prop where
  source : f.Owns e.source
  target : f.Owns e.target ∨ ∃ i, e.target = (moduleNode i).id
  node : ∃ n ∈ f.nodes, n.id = e.target
  weight : e.weight = none
  kind : ∀ k, e.kind ≠ .ofLink k

theorem structural_of_mem {e : Edge} (h : e ∈ f.edges) : f.Structural e := by
  rcases List.mem_append.mp h with h | h
  · obtain ⟨s, hs, rfl⟩ := List.mem_map.mp h
    obtain ⟨n, hn, hid, -⟩ := (owns_idOf hs).exists_node
    exact ⟨owns_containerOf s, .inl (owns_idOf hs), ⟨n, hn, hid⟩, rfl, fun k => by cases k <;> exact nofun⟩
  · obtain ⟨i, hi, rfl⟩ := List.mem_map.mp h
    have hn := mem_nodes.mpr (.inr (.inr ⟨i, hi, rfl⟩))
    exact ⟨f.owns_fileId, .inr ⟨i, rfl⟩, ⟨_, hn, rfl⟩, rfl, fun k => by cases k <;> exact nofun⟩

/-- A symbol of whatever kind hangs below its container, and a module below the file. -/
theorem exists_edge_of_mem {n : Node} (h : n ∈ f.nodes) (hkind : n.kind ∈ [moduleKind, externalType]) :
    ∃ e ∈ f.edges, e.target = n.id := by
  rcases mem_nodes.mp h with rfl | ⟨s, hs, rfl⟩ | ⟨i, hi, rfl⟩
  · simp [fileNode, moduleKind, externalType] at hkind
  · exact ⟨_, List.mem_append_left _ (List.mem_map_of_mem hs), rfl⟩
  · exact ⟨_, List.mem_append_right _ (List.mem_map_of_mem hi), rfl⟩

end FileGraph

end Graph

end CodeIndex
