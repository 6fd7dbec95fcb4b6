import CodeIndex.Chunk.Sections
import CodeIndex.Proofs.Chunk.Drafts

/-!
# Sections part a configuration file

Heads of sections stand on ascending lines. Each section reaches to the line before the next head and the
first one is moved to the first line, so the sections take all lines one after the other
(`Section.all_spec`), and their drafts span the file (`Job.sectionsDrafts_spec`).
-/

namespace CodeIndex

/-- A run over a list that fails nowhere, with what is known of each result. -/
theorem exists_mapM {α β ε : Type} {f : α → Except ε β} {R : α → β → Prop} {l : List α}
    (h : ∀ x ∈ l, ∃ y, f x = .ok y ∧ R x y) : ∃ ys, l.mapM f = .ok ys ∧ List.Forall₂ R l ys := by
  induction l with
  | nil => exact ⟨[], rfl, .nil⟩
  | cons x xs ih =>
    obtain ⟨y, hy, hR⟩ := h x List.mem_cons_self
    obtain ⟨ys, hys, hRs⟩ := ih fun z hz => h z (List.mem_cons_of_mem _ hz)
    refine ⟨y :: ys, ?_, .cons hR hRs⟩
    rw [List.mapM_cons, hy, hys]
    rfl

theorem exists_of_forall₂ {α β : Type} {R : α → β → Prop} {as : List α} {bs : List β} (h : List.Forall₂ R as bs)
    {b : β} (hb : b ∈ bs) : ∃ a ∈ as, R a b := by
  induction h with
  | nil => cases hb
  | cons hab _ ih =>
    rcases List.mem_cons.mp hb with rfl | hb
    · exact ⟨_, List.mem_cons_self, hab⟩
    · obtain ⟨a, hmem, ha⟩ := ih hb
      exact ⟨a, List.mem_cons_of_mem _ hmem, ha⟩

namespace Section

/-! ## Heads -/

/-- Heads on ascending lines among the first `n`. -/
def Ascending (n : Nat) (hs : List (String × Nat)) : Prop :=
  (hs.map (·.2)).Pairwise (· < ·) ∧ ∀ h ∈ hs, 1 ≤ h.2 ∧ h.2 ≤ n

theorem numberedLines_spec {s : Source} (hs : s.Intact) (h0 : 0 < s.size) :
    ∃ lines, numberedLines s = .ok lines ∧ lines.map (·.1) = (List.range s.lineCount).map (· + 1) := by
  obtain ⟨lines, hlines, hfirst⟩ := exists_mapM (R := fun n (p : Nat × String) => p.1 = n)
    (f := fun n => (do return (n, ← s.lineText n n) : Except Source.Fault (Nat × String)))
    (l := (List.range s.lineCount).map (· + 1)) (by
      intro n hn
      obtain ⟨k, hk, rfl⟩ := List.mem_map.mp hn
      rw [List.mem_range] at hk
      obtain ⟨text, -, htext⟩ := hs.exists_lineText h0 (Nat.le_add_left 1 k) (Nat.le_succ _) hk
      exact ⟨(k + 1, text), by rw [htext]; rfl, rfl⟩)
  refine ⟨lines, hlines, ?_⟩
  clear hlines
  generalize (List.range s.lineCount).map (· + 1) = numbers at hfirst
  induction hfirst with
  | nil => rfl
  | cons h _ ih => rw [List.map_cons, h, ih]

theorem heads_sublist (head? : String → Option String) (lines : List (Nat × String)) :
    ((heads head? lines).map (·.2)).Sublist (lines.map (·.1)) := by
  induction lines with
  | nil => exact .slnil
  | cons line rest ih =>
    unfold heads at ih ⊢
    rw [List.filterMap_cons, List.map_cons]
    cases hhead : head? line.2 with
    | none => simpa [hhead] using ih.cons line.1
    | some name => simpa [hhead] using ih.cons_cons line.1

theorem heads_ascending {s : Source} {lines : List (Nat × String)} (head? : String → Option String)
    (h : lines.map (·.1) = (List.range s.lineCount).map (· + 1)) :
    Ascending s.lineCount (heads head? lines) := by
  have hsub := heads_sublist head? lines
  rw [h] at hsub
  refine ⟨?_, fun hd hmem => ?_⟩
  · refine List.Pairwise.sublist hsub (List.pairwise_map.mpr ?_)
    exact List.pairwise_lt_range.imp (by omega)
  · have := hsub.subset (List.mem_map_of_mem hmem)
    simp only [List.mem_map, List.mem_range] at this
    omega

theorem startAtTop_ascending {n : Nat} {hs : List (String × Nat)} (h : Ascending n hs) :
    Ascending n (startAtTop hs) ∧ ∀ hd ∈ (startAtTop hs).head?, hd.2 = 1 := by
  cases hs with
  | nil => exact ⟨h, by simp [startAtTop]⟩
  | cons hd rest =>
    obtain ⟨hpair, hbounds⟩ := h
    rw [List.map_cons, List.pairwise_cons] at hpair
    have hhd := hbounds hd List.mem_cons_self
    refine ⟨⟨List.pairwise_cons.mpr ⟨fun x hx => ?_, hpair.2⟩, fun x hx => ?_⟩, by simp [startAtTop]⟩
    · have := hpair.1 x hx
      simp only
      omega
    · rcases List.mem_cons.mp hx with rfl | hx
      · exact ⟨Nat.le_refl _, by simp only; omega⟩
      · exact hbounds x (List.mem_cons_of_mem _ hx)

/-- Naming the lines in front of the first table keeps the heads ascending. -/
theorem withRoot_ascending {s : Source} (hs : s.Intact) (h0 : 0 < s.size) {found : List (String × Nat)}
    (h : Ascending s.lineCount found) :
    ∃ all, withRoot s found = .ok all ∧ Ascending s.lineCount all := by
  cases found with
  | nil => exact ⟨[], rfl, h⟩
  | cons hd rest =>
    obtain ⟨name, line⟩ := hd
    have hline := h.2 _ List.mem_cons_self
    have hcount := hs.lineCount_pos h0
    obtain ⟨text, -, htext⟩ := hs.exists_lineText h0 (Nat.le_refl 1) (Nat.le_add_left 1 (line - 1)) hcount
    simp only [withRoot, htext, bind, Except.bind]
    split
    · next hroot =>
      simp only [Bool.and_eq_true, decide_eq_true_eq] at hroot
      refine ⟨_, rfl, List.pairwise_cons.mpr ⟨fun x hx => ?_, h.1⟩, fun x hx => ?_⟩
      · have hfirst := List.pairwise_cons.mp h.1
        rcases List.mem_cons.mp hx with rfl | hx
        · exact hroot.1
        · have := hfirst.1 x hx
          simp only at this ⊢
          omega
      · rcases List.mem_cons.mp hx with rfl | hx
        · exact ⟨Nat.le_refl _, by simp only; omega⟩
        · exact h.2 x hx
    · exact ⟨_, rfl, h⟩

/-! ## Sections -/

/-- Sections of consecutive lines from `lo` on; `next` is the line behind the last one. -/
def Parts (lo next : Nat) : List Section → Prop
  | [] => lo = next
  | sec :: rest => sec.first = lo ∧ sec.first ≤ sec.last ∧ Parts (sec.last + 1) next rest

theorem Parts.le {lo next : Nat} {secs : List Section} (h : Parts lo next secs) : lo ≤ next := by
  induction secs generalizing lo with
  | nil => exact Nat.le_of_eq h
  | cons sec rest ih =>
    have := ih h.2.2
    have := h.1
    have := h.2.1
    omega

theorem Parts.bounds {lo next : Nat} {secs : List Section} (h : Parts lo next secs) {sec : Section}
    (hsec : sec ∈ secs) : lo ≤ sec.first ∧ sec.first ≤ sec.last ∧ sec.last < next := by
  induction secs generalizing lo with
  | nil => cases hsec
  | cons first rest ih =>
    obtain ⟨h1, h2, h3⟩ := h
    have := h3.le
    rcases List.mem_cons.mp hsec with rfl | hrest
    · omega
    · have := ih h3 hrest
      omega

theorem close_parts {n : Nat} {name : String} {first : Nat} {rest : List (String × Nat)}
    (h : Ascending n ((name, first) :: rest)) : Parts first (n + 1) (close n ((name, first) :: rest)) := by
  induction rest generalizing name first with
  | nil =>
    have := h.2 _ List.mem_cons_self
    simp only at this
    exact ⟨rfl, by simp only; omega, by simp only [Parts]; omega⟩
  | cons next rest ih =>
    obtain ⟨name', line⟩ := next
    have hlt : first < line := (List.pairwise_cons.mp h.1).1 line (by simp)
    have hnext := ih ⟨(List.pairwise_cons.mp h.1).2, fun x hx => h.2 x (List.mem_cons_of_mem _ hx)⟩
    refine ⟨rfl, by simp only; omega, ?_⟩
    rwa [show max (line - 1) first + 1 = line by omega]

/-- The sections of a file, if there are any, take all its lines one after the other. -/
theorem all_spec {s : Source} (hs : s.Intact) (h0 : 0 < s.size) (language : String) :
    ∃ secs, all language s = .ok secs ∧ (secs ≠ [] → Parts 1 (s.lineCount + 1) secs) := by
  obtain ⟨lines, hlines, hnumbers⟩ := numberedLines_spec hs h0
  have hclosed : ∀ found, Ascending s.lineCount found →
      close s.lineCount (startAtTop found) ≠ [] →
      Parts 1 (s.lineCount + 1) (close s.lineCount (startAtTop found)) := by
    intro found hfound hne
    obtain ⟨hasc, hone⟩ := startAtTop_ascending hfound
    cases found with
    | nil => exact absurd rfl hne
    | cons hd rest => exact close_parts hasc
  simp only [all, hlines, bind, Except.bind, pure, Except.pure]
  split
  · exact ⟨_, rfl, hclosed _ (heads_ascending yamlHead? hnumbers)⟩
  · split
    · obtain ⟨found, hfound, hasc⟩ := withRoot_ascending hs h0 (heads_ascending tomlHead? hnumbers)
      rw [hfound]
      exact ⟨_, rfl, hclosed _ hasc⟩
    · exact ⟨[], rfl, fun h => absurd rfl h⟩

end Section

namespace Job

variable {j : Job}

theorem sectionDrafts_spec (hj : j.Ready) (sec : Section) (h1 : 1 ≤ sec.first) (hle : sec.first ≤ sec.last)
    (hn : sec.last ≤ j.source.lineCount) :
    ∃ ds, j.sectionDrafts sec = .ok ds ∧
      j.Drafted (j.source.lineStart sec.first) (j.source.lineStart (sec.last + 1)) ds := by
  have hkeeps : Chunk.Keeps fun c =>
      { c with symbolName := some sec.name, symbolType := some "config_section" } :=
    ⟨fun _ => rfl, fun _ => rfl, fun _ => rfl, fun _ => rfl⟩
  simp only [sectionDrafts, lineSize_eq hj.nonempty sec.last h1 (Nat.le_trans hle hn), bind, Except.bind, pure,
    Except.pure]
  split
  · next hfit =>
    obtain ⟨d, hd, hdrafted⟩ := fitting_lines_spec hj s!"{j.path}:section:{sec.name}" .configSection h1 hle
      hn rfl hkeeps hfit
    rw [hd]
    exact ⟨_, rfl, hdrafted⟩
  · obtain ⟨ps, hps, hsound, hspans⟩ := pieces_spec hj true h1 hle (Nat.le_trans hle hn)
    rw [hps]
    refine ⟨_, rfl, numbered_drafted hspans (fun p hp i => ?_) fun _ _ => rfl⟩
    exact draft_sound (hsound p hp).1 rfl hkeeps

theorem sectionsDrafts_spec (hj : j.Ready) {secs : List Section} {lo next : Nat} (h1 : 1 ≤ lo)
    (hparts : Section.Parts lo next secs) (hn : next ≤ j.source.lineCount + 1) :
    ∃ dss, secs.mapM j.sectionDrafts = .ok dss ∧
      j.Drafted (j.source.lineStart lo) (j.source.lineStart next) dss.flatten := by
  induction secs generalizing lo with
  | nil =>
    obtain rfl := hparts
    exact ⟨[], rfl, .nil⟩
  | cons sec rest ih =>
    obtain ⟨rfl, hle, hrest⟩ := hparts
    have hnext := hrest.le
    obtain ⟨own, hown, hdrafted⟩ := sectionDrafts_spec hj sec h1 hle (by omega)
    obtain ⟨more, hmore, hdrafted'⟩ := ih (by omega) hrest
    refine ⟨own :: more, ?_, ?_⟩
    · rw [List.mapM_cons, hown, hmore]
      rfl
    · rw [List.flatten_cons]
      exact hdrafted.append hdrafted'

end Job

end CodeIndex
