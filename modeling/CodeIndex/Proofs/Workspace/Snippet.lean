import CodeIndex.Proofs.Chunk.Naming
import CodeIndex.Proofs.Embedding.Convergence
import CodeIndex.Proofs.Extraction.Symbols
import CodeIndex.Proofs.Graph.Containment
import CodeIndex.Proofs.Graph.Incremental
import CodeIndex.Proofs.Graph.Agreement
import CodeIndex.Workspace.Snippet

/-!
# Whose lines a hit shows

A hit without text shows the lines of the first node of its file that has the short name of its symbol. On a graph
that is up to date that is the node of a symbol (`FileGraph.Shown`): the one that starts first among those of the name
that have a node of their own, unless the file has the name too. So a hit shows the lines of the symbol that its chunk
was cut for exactly if the shown symbol is that one or has the same lines (`own_lines_shown_iff`).
-/

namespace CodeIndex

/-! ## The nodes of a file -/

namespace Graph

/-- The first node of an answer stands before all others in the order of answers. -/
theorem TableGraph.le_of_head?_find {g : TableGraph} {q : NodeQuery} {n m : Node}
    (hn : (Store.find g q).head? = some n) (hm : m ∈ Store.find g q) : n.le m = true := by
  obtain ⟨rest, hfind⟩ : ∃ rest, Store.find g q = n :: rest := List.head?_eq_some_iff.mp hn
  have hsorted : (Store.find g q).Pairwise fun a b => a.le b = true := pairwise_mergeSort_node _
  rw [hfind] at hsorted hm
  rcases List.mem_cons.mp hm with rfl | hm
  · exact (Node.le_iff m m).mpr le_rfl
  · exact (List.pairwise_cons.mp hsorted).1 m hm

theorem TableGraph.mem_find_name {g : TableGraph} {name file : String} {n : Node} :
    n ∈ Store.find g { name := some name, file := some file } ↔ n ∈ Store.nodesOf g file ∧ n.name = name := by
  have hmem : ∀ q : NodeQuery, n ∈ Store.find g q ↔ n ∈ g.nodes ∧ q.holds n = true := fun q =>
    List.mem_mergeSort.trans List.mem_filter
  rw [Store.nodesOf, hmem, hmem]
  simp only [NodeQuery.holds, Option.all_some, Option.all_none, Bool.true_and, Bool.and_true, Bool.and_eq_true,
    decide_eq_true_eq]
  grind

namespace FileGraph

variable {f : FileGraph} {s s' : EnrichedSymbol} {name : String}

/-- The lines of the text, as signatures are taken from them. -/
def textLines (f : FileGraph) : Array (List Char) := (Text.lineChars f.text.toList).toArray

/-- The node under the id of a symbol is its own: no later symbol has its qualified name. -/
def HasNode (f : FileGraph) (s : EnrichedSymbol) : Prop := latest f.idOf f.symbols (f.idOf s) = some s

theorem HasNode.mem (h : f.HasNode s) : s ∈ f.symbols := mem_of_latest h

theorem moduleNode_id_ne_idOf (i : Import) (s : EnrichedSymbol) : (moduleNode i).id ≠ f.idOf s := by
  simp [moduleNode, moduleKind, idOf, symbolId, String.ext_iff]

theorem moduleNode_id_ne_fileId (i : Import) (path : String) : (moduleNode i).id ≠ fileId path := by
  simp [moduleNode, moduleKind, fileId, String.ext_iff]

theorem latest_nodes_fileId (f : FileGraph) : latest Node.id f.nodes (fileId f.path) = some f.fileNode := by
  have hmodules : latest Node.id (f.modules.map moduleNode) (fileId f.path) = none :=
    latest_eq_none_iff.mpr (List.forall_mem_map.mpr fun i _ => moduleNode_id_ne_fileId i f.path)
  have hsymbols : latest Node.id (f.symbols.map (f.symbolNode f.textLines)) (fileId f.path) = none :=
    latest_eq_none_iff.mpr (List.forall_mem_map.mpr fun s _ => symbolId_ne_fileId f.path _ f.path)
  have hnodes : f.nodes = f.fileNode :: f.symbols.map (f.symbolNode f.textLines) ++ f.modules.map moduleNode := rfl
  rw [hnodes, latest_append, latest_cons, hmodules, hsymbols]
  simp [fileNode]

theorem latest_nodes_idOf (f : FileGraph) (s : EnrichedSymbol) : latest Node.id f.nodes (f.idOf s) =
    (latest f.idOf f.symbols (f.idOf s)).map (f.symbolNode f.textLines) := by
  have hmodules : latest Node.id (f.modules.map moduleNode) (f.idOf s) = none :=
    latest_eq_none_iff.mpr (List.forall_mem_map.mpr fun i _ => moduleNode_id_ne_idOf i s)
  have hfile : f.fileNode.id ≠ f.idOf s := (symbolId_ne_fileId f.path _ f.path).symm
  have hnodes : f.nodes = f.fileNode :: f.symbols.map (f.symbolNode f.textLines) ++ f.modules.map moduleNode := rfl
  rw [hnodes, latest_append, latest_cons, hmodules, latest_map]
  simp [hfile]
  rfl

/-- What a graph keeps of a file: its node, and those that symbols have of their own. -/
theorem latest_nodes_iff (hpath : f.path ≠ "") {n : Node} :
    n.file = f.path ∧ latest Node.id f.nodes n.id = some n ↔
      n = f.fileNode ∨ ∃ s, f.HasNode s ∧ n = f.symbolNode f.textLines s := by
  constructor
  · rintro ⟨hfile, hlatest⟩
    rcases mem_nodes.mp (mem_of_latest hlatest) with hn | ⟨s, -, hn⟩ | ⟨i, -, rfl⟩
    · exact .inl hn
    · rw [show n.id = f.idOf s by rw [hn]; rfl, latest_nodes_idOf] at hlatest
      obtain ⟨s', hs', rfl⟩ := Option.map_eq_some_iff.mp hlatest
      have hown : f.HasNode s' := by
        rw [HasNode, show f.idOf s' = f.idOf s from key_of_latest hs']
        exact hs'
      exact .inr ⟨s', hown, rfl⟩
    · exact absurd hfile.symm hpath
  · rintro (rfl | ⟨s, hs, rfl⟩)
    · exact ⟨rfl, f.latest_nodes_fileId⟩
    · refine ⟨rfl, (f.latest_nodes_idOf s).trans ?_⟩
      rw [hs]
      rfl

/-- The symbol whose lines a name shows: the first of that name among those with nodes of their own, where the file is
not called so. -/
structure Shown (f : FileGraph) (name : String) (s : EnrichedSymbol) : Prop where
  hasNode : f.HasNode s
  name_eq : s.symbol.name = name
  file_ne : f.fileNode.name ≠ name
  first : ∀ s', f.HasNode s' → s'.symbol.name = name → s.symbol.startLine ≤ s'.symbol.startLine

theorem startLine_le_of_le (h : (f.symbolNode f.textLines s).le (f.symbolNode f.textLines s') = true) :
    s.symbol.startLine ≤ s'.symbol.startLine := by
  simp only [Node.le, symbolNode, lt_irrefl, decide_false, Bool.false_or, decide_true, Bool.true_and,
    Option.some.injEq, Int.natCast_inj] at h
  split at h
  · next heq => exact heq.le
  · simpa [leLine] using h

/-- The lines of a symbol. -/
def linesOf (f : FileGraph) (s : EnrichedSymbol) : String :=
  Workspace.linesOf f.text s.symbol.startLine s.symbol.endLine

/-- Symbols that are told by name and first line. -/
theorem toldApart_of? {rd : Reader} {c : Candidate} (h : of? rd c = some f) :
    ToldApart (f.symbols.map (·.symbol)) := by
  unfold of? at h
  split at h
  · cases h
    exact (map_symbol_extractSource _ _ _ _ _).symm ▸ toldApart_extract _ _ _ _ _
  · cases h

end FileGraph

end Graph

/-! ## Hits of a table -/

section Hits

open Vectors (TableIndex Index Filter Hit Row LawfulIndex)
open Vectors.LawfulIndex (Kept kept? Valid)

/-- A hit is what a table keeps under its id. -/
theorem Vectors.TableIndex.exists_row_of_search {x : TableIndex} (hx : Valid x) {collection : String}
    {v : List Single} {limit : Nat} {wanted : Filter} {hits : List Hit}
    (h : Index.search x collection v limit wanted = .ok hits) {hit : Hit} (hhit : hit ∈ hits) :
    ∃ row : Row, kept? x collection hit.id = some row ∧ hit.payload = TableIndex.Row.payload row := by
  have hhits := TableIndex.eq_of_guarded h
  split at hhits
  · cases hhits
    obtain ⟨row, hrow, rfl⟩ := List.mem_map.mp (List.mem_mergeSort.mp (List.mem_of_mem_take hhit))
    obtain ⟨hmem, hcollection⟩ := List.mem_filter.mp (List.mem_of_mem_filter hrow)
    refine ⟨row, ?_, rfl⟩
    refine (Keyed.find?_eq_some (TableIndex.OneRowAnId.keyed hx)).mpr ⟨hmem, ?_⟩
    exact Prod.ext (of_decide_eq_true hcollection) rfl
  · cases hhits

theorem Chunk.lookup_symbol_document {c : Chunk} {name : String} (h : c.symbolName = some name) :
    c.document.lookup "symbol_name" = some (.str name) := by
  unfold document
  refine Dict.lookup_foldl_putNew ?_
  cases c.symbolType <;> cases c.parentId <;> simp [h, Dict.ofList, Dict.lookup_put]

theorem Vectors.TableIndex.symbol_rowOf {collection name : String} {point : Vectors.Point}
    (h : point.payload.lookup "symbol_name" = some (.str name)) :
    (TableIndex.Row.payload (TableIndex.rowOf collection point)).lookup "symbol_name" = some (.str name) := by
  have hsymbol : (TableIndex.rowOf collection point).symbol = some name := by
    simp [TableIndex.rowOf, h, Json.str?]
  simp [TableIndex.Row.payload, hsymbol, Dict.lookup_put]

namespace Provider

variable {p q : Provider TableIndex} {c : Chunk} {query : String} {limit : Nat} {wanted : Dict Json}
  {results : List SearchResult} {r : SearchResult}

/-- A result tells what the table keeps under its id. -/
theorem exists_row_of_search (hvalid : Valid p.index) (hsearch : p.search query limit wanted = (q, .ok results))
    (hr : r ∈ results) :
    ∃ row : Row, kept? p.index p.collection r.id = some row ∧
      r.file = (((TableIndex.Row.payload row).lookup "file_path").bind Json.str?).getD "" ∧
      r.symbol = ((TableIndex.Row.payload row).lookup "symbol_name").bind Json.str? := by
  unfold Provider.search at hsearch
  split at hsearch
  · cases hsearch
    cases hr
  unfold Provider.embedText at hsearch
  rcases hprepare : p.prepare with ⟨p', answer⟩
  rw [hprepare] at hsearch
  cases answer with
  | error e => cases hsearch
  | ok n =>
    have hholds : p.Holds p.model p.collection (kept? p.index p.collection) := ⟨rfl, rfl, hvalid, fun _ => rfl⟩
    obtain ⟨hprepared, -⟩ := hholds.prepare hprepare
    dsimp only at hsearch
    cases hvector : p'.embedSized n query with
    | error e =>
      rw [hvector] at hsearch
      cases hsearch
    | ok v =>
      rw [hvector] at hsearch
      have hanswer := eq_of_lift (Prod.ext_iff.mp hsearch).2
      cases hhits : Index.search p'.index p'.collection v limit (filterOf wanted) with
      | error e =>
        rw [hhits] at hanswer
        cases hanswer
      | ok hits =>
        rw [hhits] at hanswer
        cases hanswer
        obtain ⟨hit, hhit, rfl⟩ := List.mem_map.mp hr
        obtain ⟨row, hrow, hpayload⟩ := Vectors.TableIndex.exists_row_of_search hprepared.valid hhits hhit
        rw [hprepared.collection_eq, hprepared.kept_eq] at hrow
        exact ⟨row, hrow, by rw [← hpayload]; rfl, by rw [← hpayload]; rfl⟩

/-- The table has the document of a chunk. -/
structure Keeps (p : Provider TableIndex) (c : Chunk) : Prop where
  valid : Valid p.index
  kept : ∃ model, kept? p.index p.collection c.id = some (c.keptBy model p.collection)

/-- After a run a table has the document of the last chunk with an id. -/
theorem keeps_of_embed (hvalid : Valid p.index) {force : Bool} {chunks : List Chunk} {count : Nat}
    (hembed : Workspace.embed p force chunks = (q, .ok count)) (hc : Graph.latest Chunk.id chunks c.id = some c) :
    q.Keeps c := by
  have hholds : p.Holds p.model p.collection (kept? p.index p.collection) := ⟨rfl, rfl, hvalid, fun _ => rfl⟩
  have hafter := Workspace.holds_embed hholds hembed
  refine ⟨hafter.valid, p.model, ?_⟩
  rw [hafter.collection_eq, hafter.kept_eq, Workspace.keptAfter, hc]
  rfl

/-- What is found under the id of a chunk has the path and the name of the chunk. -/
theorem Keeps.file_and_symbol (h : p.Keeps c) (hsearch : p.search query limit wanted = (q, .ok results))
    (hr : r ∈ results) (hid : r.id = c.id) {name : String} (hname : c.symbolName = some name) :
    r.file = c.path ∧ r.symbol = some name := by
  obtain ⟨row, hrow, hfile, hsymbol⟩ := exists_row_of_search h.valid hsearch hr
  obtain ⟨model, hkept⟩ := h.kept
  rw [hid, hkept] at hrow
  cases hrow
  have hpayload : ∀ key, key ≠ "content" → key ≠ "doc_id" →
      (pointOf c.toDocument ((model.embed c.content).toOption.getD [])).payload.lookup key = c.document.lookup key := by
    intro key hcontent hdoc
    simp [pointOf, Dict.lookup_put, Chunk.toDocument, hcontent, hdoc]
  have hpath := (hpayload "file_path" (by decide) (by decide)).trans c.lookup_file_document
  have hnamed := (hpayload "symbol_name" (by decide) (by decide)).trans (Chunk.lookup_symbol_document hname)
  constructor
  · rw [hfile, show (TableIndex.Row.payload (c.keptBy model p.collection : Kept TableIndex)).lookup "file_path" =
      some (.str c.path) from Vectors.LawfulIndex.file_keep (σ := TableIndex) hpath]
    rfl
  · rw [hsymbol, show (TableIndex.Row.payload (c.keptBy model p.collection : Kept TableIndex)).lookup "symbol_name" =
      some (.str name) from Vectors.TableIndex.symbol_rowOf hnamed]
    rfl

end Provider

end Hits

/-! ## What is shown -/

namespace Workspace

open CodeIndex.Graph (FileGraph Node Store reached filesIn graphOf Addressed Later latest)

theorem lineRange?_symbolNode (f : FileGraph) {s : EnrichedSymbol} (h : s.symbol.Spans) :
    lineRange? (f.symbolNode f.textLines s) = some (s.symbol.startLine, s.symbol.endLine) := by
  have hfirst := h.one_le
  have hlast := h.start_le_end
  simp [lineRange?, FileGraph.symbolNode, hfirst, hlast]

/-- The graph is that of passes over trees, the last of which found a file under its path as it reads now. It is not the
root itself, as a path is read below the root. No path has a colon (`Addressed`): with colons a symbol of another file
can have the id of one of this file, and the graph keeps a single node of both, which may show the lines of neither. -/
structure Shows (w : Workspace) (t : Tools) (h : Host) (f : FileGraph) : Prop where
  path_ne : f.path ≠ ""
  text_eq : w.text? h f.path = some f.text
  exists_passes : ∃ earlier d force,
    w.graph h = reached _ (reader t) w.settings.ignorePolicy w.root (earlier ++ [(d, force)]) ∧
    graphOf (reader t) (filesIn (reader t) w.settings.ignorePolicy w.root d) f.path = some f ∧
    (∀ pass ∈ earlier ++ [(d, force)], Addressed (reader t) w.settings.ignorePolicy w.root pass.1) ∧
    (force = false → ∀ pass ∈ earlier, ∀ p c c',
      (filesIn (reader t) w.settings.ignorePolicy w.root pass.1).lookup p = some c →
        (filesIn (reader t) w.settings.ignorePolicy w.root d).lookup p = some c' → Later c c')

variable {w : Workspace} {t : Tools} {h : Host} {f : FileGraph}

theorem Shows.toldApart (hf : w.Shows t h f) : ToldApart (f.symbols.map (·.symbol)) := by
  obtain ⟨earlier, d, force, -, hgraph, -⟩ := hf.exists_passes
  obtain ⟨c, -, hof⟩ := Graph.graphOf_eq_some.mp hgraph
  exact FileGraph.toldApart_of? hof

/-- The nodes of the file with a name. -/
theorem Shows.mem_find (hf : w.Shows t h f) {name : String} {n : Node} :
    n ∈ Store.find (w.graph h) { name := some name, file := some f.path } ↔
      (n = f.fileNode ∨ ∃ s, f.HasNode s ∧ n = f.symbolNode f.textLines s) ∧ n.name = name := by
  obtain ⟨earlier, d, force, hstore, hgraph, haddressed, hlater⟩ := hf.exists_passes
  have hfiles := Graph.filed_filesIn (haddressed (d, force) (by simp))
  obtain ⟨hvalid, hfaithful⟩ := Graph.faithful_reached (σ := Graph.TableGraph) fun pass hpass =>
    haddressed pass (List.mem_append_left _ hpass)
  obtain ⟨hvalid', moved, hindexed⟩ := hfaithful.index_indexed hvalid hfiles force
  have hcurrent := hfaithful.current_index hvalid hfiles
    (fun hforce c ⟨pass, hpass, hc⟩ c' hc' => hlater hforce pass hpass c.path c c' hc hc') hindexed
  rw [reached, List.foldl_append] at hstore
  have hnodes : n ∈ Store.nodesOf (w.graph h) f.path ↔
      n = f.fileNode ∨ ∃ s, f.HasNode s ∧ n = f.symbolNode f.textLines s := by
    rw [hstore, ← FileGraph.latest_nodes_iff hf.path_ne]
    refine (hcurrent.mem_nodesOf hvalid' hindexed.wf hfiles (.inl hf.path_ne)).trans (and_congr_right fun _ => ?_)
    simp [hgraph]
  rw [← hnodes]
  exact Graph.TableGraph.mem_find_name

theorem Shows.spans (hf : w.Shows t h f) {s : EnrichedSymbol} (hs : s ∈ f.symbols) : s.symbol.Spans :=
  hf.toldApart.spans s.symbol (List.mem_map_of_mem hs)

/-- Symbols of one name that start on one line are one. -/
theorem Shows.eq_of_key (hf : w.Shows t h f) {s s' : EnrichedSymbol} (hs : s ∈ f.symbols) (hs' : s' ∈ f.symbols)
    (hkey : s.symbol.key = s'.symbol.key) : s = s' := by
  have hnodup := hf.toldApart.nodup
  rw [List.map_map] at hnodup
  exact List.inj_on_of_nodup_map hnodup hs hs' hkey

/-- The first node of a name is that of the symbol which the name shows. -/
theorem Shows.head?_find_iff (hf : w.Shows t h f) {name : String} {s : EnrichedSymbol} :
    (f.HasNode s ∧ (Store.find (w.graph h) { name := some name, file := some f.path }).head? =
      some (f.symbolNode f.textLines s)) ↔ f.Shown name s := by
  constructor
  · rintro ⟨hnode, hhead⟩
    have hmem := hf.mem_find.mp (List.mem_of_head? hhead)
    refine ⟨hnode, hmem.2, fun hfile => ?_, fun s' hs' hname => ?_⟩
    · -- the node of the file has no line, so that it would come first
      have hle := Graph.TableGraph.le_of_head?_find hhead (hf.mem_find.mpr ⟨.inl rfl, hfile⟩)
      simp [Node.le, FileGraph.symbolNode, FileGraph.fileNode, Graph.leLine] at hle
    · have hle := Graph.TableGraph.le_of_head?_find hhead (hf.mem_find.mpr ⟨.inr ⟨s', hs', rfl⟩, hname⟩)
      exact FileGraph.startLine_le_of_le hle
  · intro hshown
    have hmem : f.symbolNode f.textLines s ∈
        Store.find (w.graph h) { name := some name, file := some f.path } :=
      hf.mem_find.mpr ⟨.inr ⟨s, hshown.hasNode, rfl⟩, hshown.name_eq⟩
    obtain ⟨n, hhead⟩ := Option.isSome_iff_exists.mp (List.isSome_head?.mpr (List.ne_nil_of_mem hmem))
    obtain ⟨rfl | ⟨s', hs', rfl⟩, hname⟩ := hf.mem_find.mp (List.mem_of_head? hhead)
    · exact absurd hname hshown.file_ne
    · have hle := FileGraph.startLine_le_of_le (Graph.TableGraph.le_of_head?_find hhead hmem)
      have hge := hshown.first s' hs' hname
      have heq : s = s' := hf.eq_of_key hshown.hasNode.mem hs'.mem
        (Prod.ext (hshown.name_eq.trans hname.symm) (le_antisymm hge hle))
      exact ⟨hshown.hasNode, heq ▸ hhead⟩

/-- The text of a hit that names a symbol of the file. -/
theorem Shows.snippet?_eq_some_iff (hf : w.Shows t h f) {r : SearchResult} (hfile : r.file = f.path) {name : String}
    (hsymbol : r.symbol = some name) {text : String} :
    snippet? (w.graph h) (w.text? h) r = some text ↔ ∃ s, f.Shown (shortName name) s ∧ f.linesOf s = text := by
  have hsnippet : snippet? (w.graph h) (w.text? h) r =
      (Store.find (w.graph h) { name := some (shortName name), file := some f.path }).head?.bind fun n =>
        (lineRange? n).bind fun range => some (Workspace.linesOf f.text range.1 range.2) := by
    simp only [snippet?, hsymbol, hfile, hf.text_eq, Option.bind_eq_bind, Option.bind_some]
    rfl
  rw [hsnippet, Option.bind_eq_some_iff]
  constructor
  · rintro ⟨n, hhead, htext⟩
    obtain ⟨rfl | ⟨s, hs, rfl⟩, -⟩ := hf.mem_find.mp (List.mem_of_head? hhead)
    · cases htext
    · rw [lineRange?_symbolNode f (hf.spans hs.mem)] at htext
      exact ⟨s, hf.head?_find_iff.mp ⟨hs, hhead⟩, Option.some.inj htext⟩
  · rintro ⟨s, hshown, rfl⟩
    refine ⟨_, (hf.head?_find_iff.mpr hshown).2, ?_⟩
    rw [lineRange?_symbolNode f (hf.spans hshown.hasNode.mem)]
    rfl

/-- On a graph that is up to date, a hit without text for a chunk that was cut for a symbol shows the lines of the
symbol exactly if the short name of the symbol shows it or another symbol with the same lines. -/
theorem own_lines_shown_iff (hf : w.Shows t h f) {s : EnrichedSymbol} {c : Chunk} (hc : c.CutFor f.path s.symbol)
    {p q : Provider Vectors.TableIndex} (hkeeps : p.Keeps c) {query : String} {limit : Nat} {wanted : Dict Json}
    {results : List SearchResult} (hsearch : p.search query limit wanted = (q, .ok results)) {r : SearchResult}
    (hr : r ∈ results) (hid : r.id = c.id) (hcontent : r.content = none) :
    (w.withSnippet h r).content = some (f.linesOf s) ↔
      ∃ s', f.Shown (shortName s.symbol.name) s' ∧ f.linesOf s' = f.linesOf s := by
  obtain ⟨hpath, hname⟩ := hc.path_and_name
  obtain ⟨hfile, hsymbol⟩ := hkeeps.file_and_symbol hsearch hr hid hname
  have hshown : (w.withSnippet h r).content = snippet? (w.graph h) (w.text? h) r := by
    simp [withSnippet, hcontent]
  rw [hshown, hf.snippet?_eq_some_iff (hfile.trans hpath) hsymbol]

/-! ## Two symbols of one name -/

/-- The graph after a pass. -/
theorem graph_index (w : Workspace) (t : Tools) (force : Bool) (h : Host) :
    w.graph (w.index t force h).1 = (Graph.index (reader t) none force
      (filesIn (reader t) w.settings.ignorePolicy w.root h.disk) [] (w.graph h)).store := by
  simp [graph, index, Dict.lookup_put]
  rfl

/-- A pass over the present tree brings the graph up to date. -/
theorem shows_index (passes : List (Disk × Bool)) {force : Bool}
    (hgraph : w.graph h = reached _ (reader t) w.settings.ignorePolicy w.root passes)
    (haddressed : ∀ pass ∈ passes ++ [(h.disk, force)], Addressed (reader t) w.settings.ignorePolicy w.root pass.1)
    (hlater : force = false → ∀ pass ∈ passes, ∀ p c c',
      (filesIn (reader t) w.settings.ignorePolicy w.root pass.1).lookup p = some c →
        (filesIn (reader t) w.settings.ignorePolicy w.root h.disk).lookup p = some c' → Later c c')
    (hf : graphOf (reader t) (filesIn (reader t) w.settings.ignorePolicy w.root h.disk) f.path = some f)
    (hpath : f.path ≠ "") (htext : w.text? h f.path = some f.text) : w.Shows t (w.index t force h).1 f where
  path_ne := hpath
  text_eq := htext
  exists_passes := by
    refine ⟨passes, h.disk, force, ?_, hf, haddressed, hlater⟩
    rw [graph_index, hgraph, reached, reached, List.foldl_append]
    rfl

/-- A class with a method, and a function of the same name. -/
def namesakes : String := "class A:\n def f():\n  return 1\ndef f():\n return 2\n"

open Parsed (branch definition) in
def namesakeRoot : Tree.Node :=
  branch "module" none 0 49
    [definition "class_definition" 0 6
        (definition "function_definition" 10 14 (branch "return_statement" none 21 29 [])),
      definition "function_definition" 30 34 (branch "return_statement" none 40 48 [])]

def namesakeTools : Tools :=
  { grammars := { parse := fun _ _ => some namesakeRoot }, send := fun _ => .error .notInitialized }

/-- A repository with that file. -/
def namesakeTree : Host := { disk := { files := [("a.py", ⟨namesakes.toUTF8.data.toList, 0, none⟩)] } }

def namesakeClass : Symbol :=
  { name := "A", kind := "class", file := "a.py", startLine := 1, endLine := 3, parent := none }

def namesakeMethod : Symbol :=
  { name := "f", kind := "method", file := "a.py", startLine := 2, endLine := 3, parent := some "A" }

def namesakeFunction : Symbol :=
  { name := "f", kind := "function", file := "a.py", startLine := 4, endLine := 5, parent := none }

theorem symbols_namesakes : (extract .builtin namesakeTools.grammars "a.py" "python" namesakes).symbols =
    [namesakeClass, namesakeMethod, namesakeFunction] := by
  have hlookup : Registry.builtin.lookup? "python" = some Catalog.python := rfl
  let p : Parsed := { file := "a.py", language := Catalog.python, source := .ofString namesakes, root := namesakeRoot }
  have hsymbols : (extract .builtin namesakeTools.grammars "a.py" "python" namesakes).symbols = p.symbols := by
    rw [extract, hlookup]
    rfl
  have hordered : ∀ rule ∈ p.language.rules.symbols, (rule.query.patterns.flatMap fun pattern =>
      (Tree.preorder [] p.root).flatMap (pattern.matchAt p.source)).Pairwise
        fun a b => decide (a.lastStart ≤ b.lastStart) = true := by
    decide
  have hhits : p.language.rules.symbols.flatMap (fun rule =>
      (p.found (some rule.query)).filterMap (p.symbolOf rule.kind)) =
      [namesakeClass, namesakeMethod, namesakeFunction] := by
    refine (List.flatMap_congr fun rule hrule => ?_).trans
      (b := p.language.rules.symbols.flatMap fun rule => (rule.query.patterns.flatMap fun pattern =>
        (Tree.preorder [] p.root).flatMap (pattern.matchAt p.source)).filterMap (p.symbolOf rule.kind)) ?_
    · have hcompiles : rule.query.compiles = true := by
        revert rule
        decide
      rw [show p.found (some rule.query) = rule.query.run p.source p.root from rfl, Tree.Query.run, if_pos hcompiles,
        List.mergeSort_of_pairwise (hordered rule hrule)]
    · decide
  rw [hsymbols, Parsed.symbols, hhits, List.mergeSort_of_pairwise]
  · decide
  · decide

def namesakeGraph : FileGraph :=
  { path := "a.py", text := namesakes
    extraction := extractSource .builtin namesakeTools.grammars "a.py" "python" namesakes }

/-- The repository after a pass. -/
def namesakeHost : Host := (noteWorkspace.index namesakeTools true namesakeTree).1

theorem filesIn_namesakeTree :
    filesIn (reader namesakeTools) noteWorkspace.settings.ignorePolicy "" namesakeTree.disk =
      [("a.py", ⟨"a.py", "python", ⟨namesakes.toUTF8.data.toList, 0, none⟩⟩)] := by
  have hwalk : noteWorkspace.settings.ignorePolicy.walk namesakeTree.disk "" =
      [("a.py", ⟨namesakes.toUTF8.data.toList, 0, none⟩)] := by
    refine (IgnorePolicy.walk_withSkipped [] _ _).trans ?_
    decide +kernel
  rw [filesIn, candidates, hwalk]
  decide +kernel

theorem shows_namesakes : noteWorkspace.Shows namesakeTools namesakeHost namesakeGraph := by
  have htext : Candidate.text ⟨"a.py", "python", ⟨namesakes.toUTF8.data.toList, 0, none⟩⟩ = .ok namesakes :=
    eq_ok_of_toOption (by decide)
  refine shows_index [] rfl ?_ nofun ?_ (by decide) ?_
  · intro pass hpass
    obtain rfl := List.mem_singleton.mp hpass
    exact (Graph.nested_of_forall filesIn_namesakeTree (by decide)).addressed
  · rw [show noteWorkspace.root = "" from rfl, filesIn_namesakeTree]
    exact Graph.graphOf_eq_some.mpr ⟨_, rfl, FileGraph.of?_of_text _ htext⟩
  · decide

theorem linesOf_namesakes : linesOf namesakes 2 3 = " def f():\n  return 1" ∧
    linesOf namesakes 4 5 = "def f():\n return 2" := by decide

/-- The name of both shows the method. -/
theorem shown_namesake : ∃ m, namesakeGraph.Shown "f" m ∧ m.symbol = namesakeMethod ∧
    namesakeGraph.linesOf m = " def f():\n  return 1" := by
  have hsymbols := map_symbol_extractSource .builtin namesakeTools.grammars "a.py" "python" namesakes
  rw [show ((Registry.builtin.lookup? "python").map (·.name)).getD (Text.lower "python") = "python" by decide,
    symbols_namesakes] at hsymbols
  obtain ⟨a, rest, hlist, ha, hrest⟩ := List.map_eq_cons_iff.mp hsymbols
  obtain ⟨m, rest, rfl, hm, hrest⟩ := List.map_eq_cons_iff.mp hrest
  obtain ⟨g, rest, rfl, hg, hrest⟩ := List.map_eq_cons_iff.mp hrest
  obtain rfl := List.map_eq_nil_iff.mp hrest
  have hsymbols : namesakeGraph.symbols = [a, m, g] := hlist
  have hlines : namesakeGraph.linesOf m = " def f():\n  return 1" := by
    rw [FileGraph.linesOf, hm]
    exact linesOf_namesakes.1
  refine ⟨m, ⟨?_, hm ▸ rfl, by decide, fun s hs hname => ?_⟩, hm, hlines⟩
  · simp [FileGraph.HasNode, hsymbols, FileGraph.idOf, Graph.symbolId_inj, latest, hm, hg, namesakeMethod,
      namesakeFunction, Symbol.qualifiedName]
  · have hmem := hs.mem
    simp only [hsymbols, List.mem_cons, List.not_mem_nil, or_false] at hmem
    rcases hmem with rfl | rfl | rfl
    · simp [ha, namesakeClass] at hname
    · exact le_rfl
    · simp [hm, hg, namesakeMethod, namesakeFunction]

def namesakeJob : Job :=
  { settings := noteWorkspace.settings.chunking, source := .ofString namesakes, path := "a.py", language := "python" }

def methodChunk : Chunk :=
  { id := "a.py:A.f", content := " def f():\n  return 1\n", kind := .method, path := "a.py"
    symbolName := some "f", symbolType := some "method", lineStart := 2, lineEnd := 3
    parentId := some "a.py:A", metadata := [("language", "python"), ("line_count", "2")] }

def functionChunk : Chunk :=
  { id := "a.py:f", content := "def f():\n return 2\n", kind := .function, path := "a.py"
    symbolName := some "f", symbolType := some "function", lineStart := 4, lineEnd := 5
    metadata := [("language", "python"), ("line_count", "2")] }

theorem cutFor_methodChunk : methodChunk.CutFor "a.py" namesakeMethod := by
  refine ⟨namesakeJob, ⟨{ methodChunk with content := "" }, 9, 30⟩, rfl, ?_, eq_ok_of_toOption (by decide)⟩
  have hdrafts : namesakeJob.symbolDrafts
      { namesakeMethod with kind := "method", parent := some namesakeClass.name } 2 3 (some "a.py:A") =
        .ok [⟨{ methodChunk with content := "" }, 9, 30⟩] := eq_ok_of_toOption (by decide)
  exact .member hdrafts List.mem_cons_self

theorem cutFor_functionChunk : functionChunk.CutFor "a.py" namesakeFunction := by
  refine ⟨namesakeJob, ⟨{ functionChunk with content := "" }, 30, 49⟩, rfl, ?_, eq_ok_of_toOption (by decide)⟩
  have hdrafts : namesakeJob.symbolDrafts namesakeFunction 4 5 none =
      .ok [⟨{ functionChunk with content := "" }, 30, 49⟩] := eq_ok_of_toOption (by decide)
  exact .symbol hdrafts List.mem_cons_self

/-- The provider after a run over one chunk. -/
def chunkProvider (c : Chunk) : Provider Vectors.TableIndex :=
  (Workspace.embed (noteProvider { metric := .cosine }) false [c]).1

theorem keeps_chunkProvider {c : Chunk} (hc : c ∈ [methodChunk, functionChunk]) : (chunkProvider c).Keeps c := by
  have hcount : ∀ c ∈ [methodChunk, functionChunk],
      (Workspace.embed (noteProvider { metric := .cosine }) false [c]).2.toOption = some 1 := by decide +kernel
  refine Provider.keeps_of_embed (p := noteProvider { metric := .cosine }) ⟨.nil, List.forall_mem_nil _⟩
    (Prod.ext rfl (eq_ok_of_toOption (hcount c hc))) ?_
  simp [latest]

theorem exists_hit {c : Chunk} (hc : c ∈ [methodChunk, functionChunk]) : ∃ q results r,
    (chunkProvider c).search "f" 1 [] = (q, .ok results) ∧ r ∈ results ∧ r.id = c.id ∧ r.content = none := by
  have hfound : ∀ c ∈ [methodChunk, functionChunk], ((chunkProvider c).search "f" 1 []).2.toOption.map
      (·.map fun r => (r.id, r.content)) = some [(c.id, none)] := by decide +kernel
  obtain ⟨results, hresults, hmap⟩ := Option.map_eq_some_iff.mp (hfound c hc)
  obtain ⟨r, rest, rfl, hr, -⟩ := List.map_eq_cons_iff.mp hmap
  obtain ⟨hid, hcontent⟩ := Prod.mk.inj hr
  exact ⟨_, _, r, Prod.ext rfl (eq_ok_of_toOption hresults), List.mem_cons_self, hid, hcontent⟩

/-- The hit for the method shows the method. -/
theorem own_lines_shown_iff_method : ∃ q results r,
    noteWorkspace.Shows namesakeTools namesakeHost namesakeGraph ∧
      methodChunk.CutFor "a.py" namesakeMethod ∧ (chunkProvider methodChunk).Keeps methodChunk ∧
      (chunkProvider methodChunk).search "f" 1 [] = (q, .ok results) ∧ r ∈ results ∧ r.id = methodChunk.id ∧
      r.content = none ∧ (noteWorkspace.withSnippet namesakeHost r).content = some " def f():\n  return 1" := by
  obtain ⟨q, results, r, hsearch, hr, hid, hcontent⟩ := exists_hit (c := methodChunk) (by simp)
  have hkeeps : (chunkProvider methodChunk).Keeps methodChunk := keeps_chunkProvider (by simp)
  obtain ⟨m, hshown, hm, hlines⟩ := shown_namesake
  have hcut : methodChunk.CutFor namesakeGraph.path m.symbol := hm ▸ cutFor_methodChunk
  have hiff := own_lines_shown_iff shows_namesakes hcut hkeeps hsearch hr hid hcontent
  have hshort : shortName m.symbol.name = "f" := by rw [hm]; decide +kernel
  rw [hlines, hshort] at hiff
  exact ⟨q, results, r, shows_namesakes, cutFor_methodChunk, hkeeps, hsearch, hr, hid, hcontent,
    hiff.mpr ⟨m, hshown, hlines⟩⟩

/-- The hit for the function shows the method. -/
theorem hit_shows_namesake : ∃ q results r,
    noteWorkspace.Shows namesakeTools namesakeHost namesakeGraph ∧
      functionChunk.CutFor "a.py" namesakeFunction ∧ (chunkProvider functionChunk).Keeps functionChunk ∧
      (chunkProvider functionChunk).search "f" 1 [] = (q, .ok results) ∧ r ∈ results ∧ r.id = functionChunk.id ∧
      r.content = none ∧ (noteWorkspace.withSnippet namesakeHost r).content = some " def f():\n  return 1" ∧
      linesOf namesakes namesakeFunction.startLine namesakeFunction.endLine = "def f():\n return 2" := by
  obtain ⟨q, results, r, hsearch, hr, hid, hcontent⟩ := exists_hit (c := functionChunk) (by simp)
  have hkeeps : (chunkProvider functionChunk).Keeps functionChunk := keeps_chunkProvider (by simp)
  obtain ⟨hfile, hsymbol⟩ := hkeeps.file_and_symbol hsearch hr hid rfl
  obtain ⟨m, hshown, -, hlines⟩ := shown_namesake
  have hsnippet : snippet? (noteWorkspace.graph namesakeHost) (noteWorkspace.text? namesakeHost) r =
      some " def f():\n  return 1" := by
    refine (shows_namesakes.snippet?_eq_some_iff hfile hsymbol).mpr ⟨m, ?_, hlines⟩
    rw [show shortName "f" = "f" by decide +kernel]
    exact hshown
  refine ⟨q, results, r, shows_namesakes, cutFor_functionChunk, hkeeps, hsearch, hr, hid, hcontent, ?_,
    linesOf_namesakes.2⟩
  simp [withSnippet, hcontent, hsnippet]

end Workspace

end CodeIndex
