import Mathlib.Data.List.TakeWhile
import CodeIndex.Proofs.Graph.Agreement
import CodeIndex.Proofs.Graph.Escaping

/-!
# Two stores searched for one text

A search in memory ranks all nodes. A search in tables ranks the rows that a wildcard pattern lets through, and
the pattern knows the case of ASCII letters only and no text behind a zero character. Both rank alike, so they
find the same where the pattern lets every node through that has a rank (`searches_agree_iff`).
-/

namespace CodeIndex.Graph

/-! ## The size of a pattern -/

namespace TableGraph

/-- The octets of the pattern for a needle. -/
def patternSize (needle : String) : Nat :=
  needle.utf8ByteSize + needle.toList.countP isSpecial + 2

theorem size_escaped (needle rest : List Char) :
    ((escaped needle ++ rest).map Char.utf8Size).foldr (· + ·) 0 =
      String.utf8Len needle + needle.countP isSpecial + (rest.map Char.utf8Size).foldr (· + ·) 0 := by
  induction needle with
  | nil => simp
  | cons c needle ih =>
    cases hc : isSpecial c with
    | true =>
      have hescape : '\\'.utf8Size = 1 := rfl
      simp only [escaped_cons_special hc, List.cons_append, List.map_cons, List.foldr_cons, ih,
        String.utf8Len_cons, List.countP_cons_of_pos hc, hescape]
      omega
    | false =>
      simp only [escaped_cons_plain hc, List.cons_append, List.map_cons, List.foldr_cons, ih,
        String.utf8Len_cons, List.countP_cons_of_neg (Bool.eq_false_iff.mp hc)]
      omega

theorem size_likePattern (needle : String) :
    ((likePattern needle.toList).map Char.utf8Size).foldr (· + ·) 0 = patternSize needle := by
  have hrun : '%'.utf8Size = 1 := rfl
  have hsize : needle.utf8ByteSize = String.utf8Len needle.toList := by
    rw [← String.utf8ByteSize_ofList, String.ofList_toList]
  rw [likePattern, List.cons_append, List.map_cons, List.foldr_cons, size_escaped, patternSize, hsize]
  simp only [List.map_cons, List.map_nil, List.foldr_cons, List.foldr_nil, hrun]
  omega

end TableGraph

/-! ## Ranks -/

/-- The texts in which a search looks. -/
def Node.texts (n : Node) : List String :=
  n.name :: (n.signature.toList ++ n.docstring.toList)

theorem isSome_searchRank (needle : String) (n : Node) :
    (searchRank needle n).isSome = true ↔ ∃ text ∈ n.texts, Text.contains (Text.lower text) needle = true := by
  unfold searchRank Node.texts
  rw [List.exists_mem_cons_iff]
  have hequal : Text.lower n.name = needle → Text.contains (Text.lower n.name) needle = true := by
    rintro rfl
    exact (Text.contains_iff _ _).mpr (List.infix_refl _)
  have hstart : Text.startsWith (Text.lower n.name) needle = true → Text.contains (Text.lower n.name) needle = true :=
    fun h => (Text.contains_iff _ _).mpr ((Text.startsWith_iff _ _).mp h).isInfix
  dsimp only
  split_ifs with h0 h1 h2 h3
  · simp [hequal h0]
  · simp [hstart h1]
  · simp [h2]
  · rw [List.any_eq_true] at h3
    exact iff_of_true rfl (.inr h3)
  · rw [List.any_eq_true] at h3
    exact iff_of_false Bool.false_ne_true (not_or.mpr ⟨h2, h3⟩)

/-- The nodes of the allowed kinds that have a rank. -/
def rankedNodes (needle : String) (kinds : Option (List String)) (nodes : List Node) : List Node :=
  nodes.filter fun n => kinds.all (·.contains n.kind) && (searchRank needle n).isSome

/-- Rank and name, compared in this order. -/
def searchPlace (needle : String) (n : Node) : Nat ×ₗ String :=
  toLex ((searchRank needle n).getD 0, n.name)

theorem map_snd_hits (needle : String) (nodes : List Node) :
    (hits needle nodes).map (·.2) = nodes.filter fun n => (searchRank needle n).isSome := by
  induction nodes with
  | nil => rfl
  | cons n nodes ih =>
    unfold hits at ih ⊢
    cases h : searchRank needle n <;> simp [h, ih]

theorem searchPlace_of_hit {needle : String} {nodes : List Node} {hit : Nat × Node} (h : hit ∈ hits needle nodes) :
    searchPlace needle hit.2 = toLex (hit.1, hit.2.name) := by
  obtain ⟨n, -, hn⟩ := List.mem_filterMap.mp h
  obtain ⟨r, hr, rfl⟩ := Option.map_eq_some_iff.mp hn
  simp [searchPlace, hr]

theorem leHit_iff (a b : Nat × Node) : leHit a b = true ↔ toLex (a.1, a.2.name) ≤ toLex (b.1, b.2.name) := by
  simp [leHit, Prod.Lex.toLex_le_toLex]

/-- With room for all nodes, a search gives every node that has a rank. -/
theorem ranked_perm (needle : String) (kinds : Option (List String)) {limit : Nat} {nodes : List Node}
    (hlimit : nodes.length ≤ limit) :
    (ranked needle kinds limit nodes).Perm (rankedNodes needle kinds nodes) := by
  unfold ranked rankedNodes
  dsimp only
  rw [List.take_of_length_le]
  · refine ((List.mergeSort_perm _ _).map _).trans (.of_eq ?_)
    rw [map_snd_hits, List.filter_filter]
    simp only [Bool.and_comm]
  · rw [List.length_mergeSort]
    exact (List.length_filterMap_le _ _).trans ((List.length_filter_le _ _).trans hlimit)

theorem ranked_sorted (needle : String) (kinds : Option (List String)) (limit : Nat) (nodes : List Node) :
    (ranked needle kinds limit nodes).Pairwise fun a b => searchPlace needle a ≤ searchPlace needle b := by
  unfold ranked
  dsimp only
  generalize (nodes.filter fun n => kinds.all (·.contains n.kind)) = allowed
  have hsorted : ((hits needle allowed).mergeSort leHit).Pairwise fun a b => leHit a b = true := by
    refine List.pairwise_mergeSort (fun a b c => ?_) (fun a b => ?_) _
    · simp only [leHit_iff]
      exact le_trans
    · simp only [Bool.or_eq_true, leHit_iff]
      exact le_total _ _
  rw [List.pairwise_map]
  refine (hsorted.imp_of_mem fun {a b} ha hb h => ?_).sublist (List.take_sublist _ _)
  rw [searchPlace_of_hit (List.mem_mergeSort.mp ha), searchPlace_of_hit (List.mem_mergeSort.mp hb)]
  exact (leHit_iff a b).mp h

/-- Two answers with the same nodes have them in the same order of rank and name. -/
theorem map_searchPlace_eq {needle : String} {found other : List Node} (hperm : other.Perm found)
    (hfound : found.Pairwise fun a b => searchPlace needle a ≤ searchPlace needle b)
    (hother : other.Pairwise fun a b => searchPlace needle a ≤ searchPlace needle b) :
    other.map (searchPlace needle) = found.map (searchPlace needle) :=
  (hperm.map _).eq_of_pairwise (fun _ _ _ _ => le_antisymm) (List.pairwise_map.mpr hother) (List.pairwise_map.mpr hfound)

/-! ## The two searches -/

theorem search_memory (m : MemoryGraph) (query : String) (limit : Nat) (kinds : Option (List String)) :
    Store.search m query limit kinds = .ok (ranked (Text.lower query) kinds limit (m.nodes.map (·.2))) :=
  rfl

theorem searchable_table (t : TableGraph) (needle : String) :
    Store.searchable t needle = t.nodes.filter fun n => n.texts.any (TableGraph.likeNeedle needle) := by
  refine List.filter_congr fun n _ => ?_
  cases hsignature : n.signature <;> cases hdocstring : n.docstring <;>
    simp [Node.texts, hsignature, hdocstring, Bool.or_assoc]

/-- A pattern that is too long is refused as soon as there is a row to look at. -/
theorem search_table (t : TableGraph) (query : String) (limit : Nat) (kinds : Option (List String)) :
    Store.search t query limit kinds =
      if t.nodes = [] ∨ TableGraph.patternSize (Text.lower query) ≤ Like.maxPattern then
        .ok (ranked (Text.lower query) kinds limit (Store.searchable t (Text.lower query)))
      else .error (.database Like.tooComplex) := by
  have hfault : Store.searchFault t (Text.lower query) =
      if t.nodes = [] ∨ TableGraph.patternSize (Text.lower query) ≤ Like.maxPattern then none
      else some (.database Like.tooComplex) := by
    rw [← ite_not]
    change ite _ _ _ = _
    simp [TableGraph.size_likePattern]
  unfold Store.search
  dsimp only
  rw [hfault]
  split_ifs <;> rfl

/-- The nodes that a search in tables gives are those with a rank that the pattern lets through. -/
theorem rankedNodes_searchable (t : TableGraph) (needle : String) (kinds : Option (List String)) :
    rankedNodes needle kinds (Store.searchable t needle) =
      (rankedNodes needle kinds t.nodes).filter fun n => n.texts.any (TableGraph.likeNeedle needle) := by
  rw [searchable_table, rankedNodes, rankedNodes, List.filter_filter, List.filter_filter]
  simp only [Bool.and_comm]

theorem any_likeNeedle (needle : String) (n : Node) :
    n.texts.any (TableGraph.likeNeedle needle) = true ↔ ∃ text ∈ n.texts, TableGraph.Shows text needle := by
  simp only [List.any_eq_true, TableGraph.likeNeedle_iff]

/-- In ASCII texts there is no case that the pattern does not know. -/
theorem shows_of_ascii {text needle : String} (htext : ∀ c ∈ text.toList, c ≠ '\x00' ∧ c.toNat < 128)
    (h : Text.contains (Text.lower text) needle = true) : TableGraph.Shows text needle := by
  rw [Text.contains_iff, Text.lower, Text.lowerFrom_of_ascii (fun c hc => (htext c hc).2), String.toList_ofList] at h
  have hzero : ∀ c ∈ needle.toList, c ≠ '\x00' := by
    intro c hc
    obtain ⟨d, hd, rfl⟩ := List.mem_map.mp (h.subset hc)
    exact fun heq => (htext d hd).1 ((Text.toLower_of_ascii (htext d hd).2).2 heq)
  have hneedle : Like.visible needle = needle.toList :=
    List.takeWhile_eq_self_iff.mpr fun c hc => bne_iff_ne.mpr (hzero c hc)
  have hshown : Like.visible text = text.toList :=
    List.takeWhile_eq_self_iff.mpr fun c hc => bne_iff_ne.mpr (htext c hc).1
  have htwice : (text.toList.map Char.toLower).map Char.toLower = text.toList.map Char.toLower := by
    rw [List.map_map]
    exact List.map_congr_left fun c hc => (Text.toLower_of_ascii (htext c hc).2).1
  rw [TableGraph.Shows, if_neg fun hmem => hzero _ hmem rfl, hneedle, hshown]
  rw [Like.folded, Like.folded, ← htwice]
  exact h.map Char.toLower

section SameNodes

variable {m : MemoryGraph} {t : TableGraph} (hsame : (m.nodes.map (·.2)).Perm t.nodes) {limit : Nat}
  (hlimit : t.nodes.length ≤ limit)

include hsame hlimit

theorem ranked_memory_perm (needle : String) (kinds : Option (List String)) :
    (ranked needle kinds limit (m.nodes.map (·.2))).Perm (rankedNodes needle kinds t.nodes) :=
  (ranked_perm needle kinds (hsame.length_eq ▸ hlimit)).trans (hsame.filter _)

theorem ranked_table_perm_iff (needle : String) (kinds : Option (List String)) :
    (ranked needle kinds limit (Store.searchable t needle)).Perm (ranked needle kinds limit (m.nodes.map (·.2))) ↔
      ∀ n ∈ rankedNodes needle kinds t.nodes, ∃ text ∈ n.texts, TableGraph.Shows text needle := by
  have hmemory := ranked_memory_perm hsame hlimit needle kinds
  have htable : (ranked needle kinds limit (Store.searchable t needle)).Perm
      ((rankedNodes needle kinds t.nodes).filter fun n => n.texts.any (TableGraph.likeNeedle needle)) := by
    rw [← rankedNodes_searchable]
    exact ranked_perm needle kinds ((List.length_filter_le _ _).trans hlimit)
  simp only [← any_likeNeedle]
  constructor
  · intro hperm
    exact List.length_filter_eq_length_iff.mp ((htable.symm.trans (hperm.trans hmemory)).length_eq)
  · intro hall
    rw [List.filter_eq_self.mpr hall] at htable
    exact htable.trans hmemory.symm

/-- A search in memory gives exactly the nodes with a rank, by rank and name. A search in tables gives the same
nodes in the same order if and only if the pattern is not too long and lets every one of them through. It does let
them through where all texts are ASCII. -/
theorem searches_agree_iff (query : String) (kinds : Option (List String)) :
    (∃ found, Store.search m query limit kinds = .ok found ∧
      found.Perm (rankedNodes (Text.lower query) kinds t.nodes) ∧
      found.Pairwise fun a b => searchPlace (Text.lower query) a ≤ searchPlace (Text.lower query) b) ∧
    ((∃ found other, Store.search m query limit kinds = .ok found ∧ Store.search t query limit kinds = .ok other ∧
        other.Perm found ∧ other.map (searchPlace (Text.lower query)) = found.map (searchPlace (Text.lower query))) ↔
      (t.nodes = [] ∨ TableGraph.patternSize (Text.lower query) ≤ Like.maxPattern) ∧
        ∀ n ∈ rankedNodes (Text.lower query) kinds t.nodes,
          ∃ text ∈ n.texts, TableGraph.Shows text (Text.lower query)) ∧
    ((∀ n ∈ t.nodes, ∀ text ∈ n.texts, ∀ c ∈ text.toList, c ≠ '\x00' ∧ c.toNat < 128) →
      ∀ n ∈ rankedNodes (Text.lower query) kinds t.nodes,
        ∃ text ∈ n.texts, TableGraph.Shows text (Text.lower query)) := by
  have hiff := ranked_table_perm_iff hsame hlimit (Text.lower query) kinds
  refine ⟨⟨_, search_memory .., ranked_memory_perm hsame hlimit _ _, ranked_sorted ..⟩, ⟨?_, ?_⟩, ?_⟩
  · rintro ⟨found, other, hfound, hother, hperm, -⟩
    rw [search_memory, Except.ok.injEq] at hfound
    rw [search_table] at hother
    split at hother
    · next hroom =>
      rw [Except.ok.injEq] at hother
      subst hfound hother
      exact ⟨hroom, hiff.mp hperm⟩
    · cases hother
  · rintro ⟨hroom, hshows⟩
    have hperm := hiff.mpr hshows
    refine ⟨_, _, search_memory .., (search_table ..).trans (if_pos hroom), hperm, ?_⟩
    exact map_searchPlace_eq hperm (ranked_sorted ..) (ranked_sorted ..)
  · intro hascii n hn
    obtain ⟨hmem, hrank⟩ := List.mem_filter.mp hn
    obtain ⟨text, htext, hcontains⟩ := (isSome_searchRank _ n).mp (Bool.and_eq_true_iff.mp hrank).2
    exact ⟨text, htext, shows_of_ascii (hascii n hmem text htext) hcontains⟩

end SameNodes

/-- Two nodes with characters that mean something in a pattern, one of them also with a letter outside ASCII. -/
def wildcardNodes : List Node :=
  [{ id := "b", kind := "function", name := "über_50%", file := "a" },
    { id := "a", kind := "function", name := "f", file := "a", docstring := some "Takes BER_50% of it\\" }]

theorem searches_agree_iff_wildcards :
    ((Write.apply (Store.empty : MemoryGraph) (.nodes wildcardNodes)).nodes.map (·.2)).Perm
        (Write.apply (Store.empty : TableGraph) (.nodes wildcardNodes)).nodes ∧
      (Write.apply (Store.empty : TableGraph) (.nodes wildcardNodes)).nodes.length ≤ 2 ∧
      ∃ found other,
        Store.search (Write.apply (Store.empty : MemoryGraph) (.nodes wildcardNodes)) "Ber_50%" 2 none = .ok found ∧
        Store.search (Write.apply (Store.empty : TableGraph) (.nodes wildcardNodes)) "Ber_50%" 2 none = .ok other ∧
        other.Perm found ∧ other.map (searchPlace "ber_50%") = found.map (searchPlace "ber_50%") := by
  have hsame : ((Write.apply (Store.empty : MemoryGraph) (.nodes wildcardNodes)).nodes.map (·.2)).Perm
      (Write.apply (Store.empty : TableGraph) (.nodes wildcardNodes)).nodes := by decide +kernel
  have hlimit : (Write.apply (Store.empty : TableGraph) (.nodes wildcardNodes)).nodes.length ≤ 2 := by decide +kernel
  have hlower : Text.lower "Ber_50%" = "ber_50%" := by decide +kernel
  have hagree := (searches_agree_iff hsame hlimit "Ber_50%" none).2.1.mpr
  simp only [hlower, ← any_likeNeedle] at hagree
  exact ⟨hsame, hlimit, hagree ⟨.inr (by decide +kernel), by decide +kernel⟩⟩

/-- A capital letter outside ASCII: the memory finds it by its small form, and the tables do not. -/
theorem umlaut_missed_by_tables :
    let n : Node := { id := "n", kind := "function", name := "Ä", file := "a.py" }
    Store.search (Write.apply (Store.empty : MemoryGraph) (.nodes [n])) "ä" 20 none = .ok [n] ∧
      Store.search (Write.apply (Store.empty : TableGraph) (.nodes [n])) "ä" 20 none = .ok [] := by
  decide +kernel

end CodeIndex.Graph
