import CodeIndex.Proofs.Dict
import CodeIndex.Proofs.Graph.Home

/-!
# Finding the ends of links

A name means the only symbol that has it (`resolve_eq_some_iff`). Remembering what names meant changes nothing
as long as the symbols stay (`MemoSound`), so that the links of a file become the edges `linkEdges`, and edges
that were set aside become those of `reattachedEdge`.
-/

namespace CodeIndex.Graph

/-- The node of the id is the only symbol of the name. -/
def View.Only (v : View) (name id : String) : Prop :=
  (∃ n, v.node? id = some n ∧ n.name = name ∧ IsSymbolId id) ∧
    ∀ id' n', v.node? id' = some n' → n'.name = name → IsSymbolId id' → id' = id

/-- Which symbol is the only one of a name depends on symbols alone. -/
theorem View.only_congr {v w : View} (h : ∀ id, IsSymbolId id → v.node? id = w.node? id) (name id : String) :
    v.Only name id ↔ w.Only name id := by
  refine and_congr (exists_congr fun n => ?_) (forall₂_congr fun id' n' => ?_)
  · exact ⟨fun ⟨hn, hname, hid⟩ => ⟨h id hid ▸ hn, hname, hid⟩, fun ⟨hn, hname, hid⟩ => ⟨h id hid ▸ hn, hname, hid⟩⟩
  · exact ⟨fun hall hn hname hid => hall (h id' hid ▸ hn) hname hid,
      fun hall hn hname hid => hall (h id' hid ▸ hn) hname hid⟩

variable {σ : Type} [Store σ]

def symbolsNamed (s : σ) (name : String) : List Node :=
  (Store.find s { name := some name }).filter fun n => Text.startsWith n.id "symbol:"

theorem resolve_eq_some {s : σ} {name id : String} :
    resolve s name = some id ↔ ∃ n, symbolsNamed s name = [n] ∧ n.id = id := by
  rw [resolve, ← symbolsNamed]
  split
  · next n hn => simp [hn]
  · next hne =>
    simp only [reduceCtorEq, false_iff, not_exists, not_and]
    exact fun n hn => absurd hn (hne n)

section Lawful

open LawfulStore

variable [LawfulStore σ] {s : σ} {name id : String}

theorem mem_symbolsNamed (h : Valid s) {n : Node} :
    n ∈ symbolsNamed s name ↔ (view s).node? n.id = some n ∧ n.name = name ∧ IsSymbolId n.id := by
  have hholds : NodeQuery.holds { name := some name } n = true ↔ n.name = name := by
    simp only [NodeQuery.holds, Option.all_some, Option.all_none, Bool.and_true, decide_eq_true_eq]
    exact eq_comm
  rw [symbolsNamed, List.mem_filter, mem_find h, hholds, IsSymbolId, and_assoc]

theorem resolve_eq_some_iff (h : Valid s) : resolve s name = some id ↔ (view s).Only name id := by
  rw [resolve_eq_some]
  constructor
  · rintro ⟨n, hsingle, rfl⟩
    obtain ⟨hn, hname, hsymbol⟩ := (mem_symbolsNamed h).mp (hsingle ▸ List.mem_singleton_self n)
    refine ⟨⟨n, hn, hname, hsymbol⟩, fun id' n' hn' hname' hsymbol' => ?_⟩
    obtain rfl := id_of_node? h hn'
    have hmem : n' ∈ symbolsNamed s name := (mem_symbolsNamed h).mpr ⟨hn', hname', hsymbol'⟩
    rw [hsingle, List.mem_singleton] at hmem
    rw [hmem]
  · rintro ⟨⟨n, hn, hname, hsymbol⟩, hunique⟩
    obtain rfl := id_of_node? h hn
    refine ⟨n, List.perm_singleton.mp ((List.perm_ext_iff_of_nodup ?_ (List.nodup_singleton n)).mpr ?_), rfl⟩
    · exact (nodup_find h _).filter _
    · intro m
      rw [mem_symbolsNamed h, List.mem_singleton]
      refine ⟨fun ⟨hm, hmname, hmsymbol⟩ => ?_, fun heq => heq ▸ ⟨hn, hname, hsymbol⟩⟩
      rw [hunique m.id m hm hmname hmsymbol, hn, Option.some.injEq] at hm
      exact hm.symm

/-- Names mean the same in stores with the same symbols. -/
theorem resolve_congr {τ : Type} [Store τ] [LawfulStore τ] {t : τ} (hs : Valid s) (ht : Valid t)
    (h : ∀ id, IsSymbolId id → (view s).node? id = (view t).node? id) (name : String) :
    resolve s name = resolve t name := by
  ext id
  rw [resolve_eq_some_iff hs, resolve_eq_some_iff ht, View.only_congr h]

end Lawful

/-! ## Remembered names -/

/-- What is remembered of names is what `ρ` says of them. -/
def MemoSound (ρ : String → Option String) (memo : Memo) : Prop :=
  ∀ name hit, memo.lookup name = some hit → hit = ρ name

theorem MemoSound.nil (ρ : String → Option String) : MemoSound ρ [] := fun _ _ h => nomatch h

variable {s : σ} {ρ : String → Option String} {memo : Memo}

theorem MemoSound.resolveOnce (h : MemoSound ρ memo) (hρ : ∀ name, resolve s name = ρ name) (name : String) :
    (resolveOnce s memo name).1 = ρ name ∧ MemoSound ρ (resolveOnce s memo name).2 := by
  unfold Graph.resolveOnce
  split
  · next hit hhit => exact ⟨h name hit hhit, h⟩
  · refine ⟨hρ name, fun other hit hhit => ?_⟩
    rw [Dict.lookup_put] at hhit
    split at hhit
    · next heq =>
      cases hhit
      rw [heq, hρ]
    · exact h other hit hhit

/-! ## Links and edges that were set aside -/

/-- Edges and nodes that belong together: an edge ends at a known node or at an external type found with it. -/
structure Resolved.Sound (known : String → Prop) (r : Resolved) : Prop where
  externals : ∀ n ∈ r.externals, ∃ name, n = externalNode name
  targets : ∀ e ∈ r.edges, known e.target ∨ ∃ n ∈ r.externals, n.id = e.target
  weights : ∀ e ∈ r.edges, e.weight = none

variable {known : String → Prop}

theorem Resolved.Sound.empty : Resolved.Sound known {} where
  externals _ h := absurd h List.not_mem_nil
  targets _ h := absurd h List.not_mem_nil
  weights _ h := absurd h List.not_mem_nil

theorem Resolved.edges_add (r : Resolved) (e : Edge) (found : Option (String × List Node)) :
    (r.add e found).edges = r.edges ++ (found.map fun t => { e with target := t.1 }).toList := by
  cases found with
  | none => exact (List.append_nil _).symm
  | some t => rfl

theorem Resolved.Sound.add {r : Resolved} (h : r.Sound known) {e : Edge} (hweight : e.weight = none)
    {found : Option String} (hfound : ∀ id, found = some id → known id) (kind : EdgeKind) (name : String) :
    (r.add e (endOf found kind name)).Sound known := by
  cases found with
  | some id =>
    refine ⟨?_, fun e' he' => ?_, fun e' he' => ?_⟩
    · simpa [Resolved.add, endOf] using h.externals
    · rcases List.mem_append.mp he' with he' | he'
      · simpa [Resolved.add, endOf] using h.targets e' he'
      · obtain rfl := List.mem_singleton.mp he'
        exact .inl (hfound id rfl)
    · rcases List.mem_append.mp he' with he' | he'
      · exact h.weights e' he'
      · obtain rfl := List.mem_singleton.mp he'
        exact hweight
  | none =>
    unfold endOf
    dsimp only
    split
    · refine ⟨fun n hn => ?_, fun e' he' => ?_, fun e' he' => ?_⟩
      · rcases List.mem_append.mp hn with hn | hn
        · exact h.externals n hn
        · exact ⟨name, List.mem_singleton.mp hn⟩
      · rcases List.mem_append.mp he' with he' | he'
        · exact (h.targets e' he').imp_right fun ⟨n, hn, hid⟩ => ⟨n, List.mem_append_left _ hn, hid⟩
        · obtain rfl := List.mem_singleton.mp he'
          exact .inr ⟨_, List.mem_append_right _ (List.mem_singleton_self _), rfl⟩
      · rcases List.mem_append.mp he' with he' | he'
        · exact h.weights e' he'
        · obtain rfl := List.mem_singleton.mp he'
          exact hweight
    · exact ⟨h.externals, h.targets, h.weights⟩

/-- Steps that each add the edge that `g` says, if any, add them all in order. -/
theorem foldl_resolved {α : Type} {step : Resolved × Memo → α → Resolved × Memo} {g : α → Option Edge}
    {xs : List α} (hstep : ∀ acc, ∀ x ∈ xs, acc.1.Sound known → MemoSound ρ acc.2 →
      (step acc x).1.edges = acc.1.edges ++ (g x).toList ∧ (step acc x).1.Sound known ∧
        MemoSound ρ (step acc x).2)
    {acc : Resolved × Memo} (hsound : acc.1.Sound known) (hmemo : MemoSound ρ acc.2) :
    (xs.foldl step acc).1.edges = acc.1.edges ++ xs.filterMap g ∧ (xs.foldl step acc).1.Sound known ∧
      MemoSound ρ (xs.foldl step acc).2 := by
  induction xs generalizing acc with
  | nil => exact ⟨(List.append_nil _).symm, hsound, hmemo⟩
  | cons x xs ih =>
    obtain ⟨hedges, hsound, hmemo⟩ := hstep acc x List.mem_cons_self hsound hmemo
    obtain ⟨hrest, hsound, hmemo⟩ :=
      ih (fun acc y hy => hstep acc y (List.mem_cons_of_mem x hy)) hsound hmemo
    refine ⟨?_, hsound, hmemo⟩
    rw [List.foldl_cons, hrest, hedges, List.filterMap_cons, List.append_assoc]
    cases g x <;> rfl

namespace FileGraph

/-- A name means a symbol of the file if only one has it, else what `ρ` says. -/
def seek (f : FileGraph) (ρ : String → Option String) (name : String) : Option String :=
  (f.onlyNamed? name).or (ρ name)

/-- The edge of a link, if a link of its kind has an end where names mean what `ρ` says. -/
def linkEdge (f : FileGraph) (ρ : String → Option String) (l : Link) : Option Edge :=
  let name := bareName l.target
  (endOf (f.seek ρ name) (.ofLink l.kind) name).map fun t => { f.openEdge l with target := t.1 }

def linkEdges (f : FileGraph) (ρ : String → Option String) : List Edge :=
  f.extraction.links.filterMap (f.linkEdge ρ)

end FileGraph

theorem relations_spec (hρ : ∀ name, resolve s name = ρ name) (hmemo : MemoSound ρ memo) (f : FileGraph) :
    (relations s f memo).1.edges = f.linkEdges ρ ∧
      (relations s f memo).1.Sound (fun id => f.Owns id ∨ ∃ name, ρ name = some id) ∧
      MemoSound ρ (relations s f memo).2 := by
  have hstep : ∀ acc l, acc.1.Sound (fun id => f.Owns id ∨ ∃ name, ρ name = some id) → MemoSound ρ acc.2 →
      (relate s f acc l).1.edges = acc.1.edges ++ (f.linkEdge ρ l).toList ∧
        (relate s f acc l).1.Sound (fun id => f.Owns id ∨ ∃ name, ρ name = some id) ∧
        MemoSound ρ (relate s f acc l).2 := by
    intro acc l hsound hmemo
    cases hlocal : f.onlyNamed? (bareName l.target) with
    | some id =>
      simp only [relate, hlocal]
      refine ⟨?_, hsound.add rfl (fun _ heq => .inl ?_) _ _, hmemo⟩
      · rw [Resolved.edges_add, FileGraph.linkEdge, FileGraph.seek, hlocal, Option.some_or]
      · cases heq
        exact (FileGraph.owns_onlyNamed hlocal).1
    | none =>
      obtain ⟨hhit, hmemo⟩ := hmemo.resolveOnce hρ (bareName l.target)
      simp only [relate, hlocal, hhit]
      refine ⟨?_, hsound.add rfl (fun _ heq => .inr ⟨_, heq⟩) _ _, hmemo⟩
      rw [Resolved.edges_add, FileGraph.linkEdge, FileGraph.seek, hlocal, Option.none_or]
  exact foldl_resolved (fun acc l _ => hstep acc l) .empty hmemo

/-- The edge that an edge which was set aside becomes: none if it starts in a replaced file or has no end. -/
def reattachedEdge (s : σ) (replaced : List String) (ρ : String → Option String) (d : Detached) : Option Edge :=
  (Store.node? s d.edge.source).bind fun source =>
    if replaced.contains source.file then none
    else (endOf (ρ d.target) d.edge.kind d.target).map fun t => { d.edge with target := t.1 }

theorem reattached_spec (hρ : ∀ name, resolve s name = ρ name) (hmemo : MemoSound ρ memo)
    (replaced : List String) {detached : List Detached} (hweights : ∀ d ∈ detached, d.edge.weight = none) :
    (reattached s replaced detached memo).1.edges = detached.filterMap (reattachedEdge s replaced ρ) ∧
      (reattached s replaced detached memo).1.Sound (fun id => ∃ name, ρ name = some id) ∧
      MemoSound ρ (reattached s replaced detached memo).2 := by
  refine foldl_resolved (fun acc d hd hsound hmemo => ?_) .empty hmemo
  unfold reattach reattachedEdge
  cases Store.node? s d.edge.source with
  | none => exact ⟨(List.append_nil _).symm, hsound, hmemo⟩
  | some source =>
    dsimp only [Option.bind_some]
    split
    · exact ⟨(List.append_nil _).symm, hsound, hmemo⟩
    · obtain ⟨hhit, hmemo⟩ := hmemo.resolveOnce hρ d.target
      rw [hhit]
      exact ⟨Resolved.edges_add _ _ _, hsound.add (hweights d hd) (fun _ heq => ⟨_, heq⟩) _ _, hmemo⟩

end CodeIndex.Graph
