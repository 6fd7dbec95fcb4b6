import Mathlib.Data.List.Forall2
import CodeIndex.Chunk.Window
import CodeIndex.Proofs.Source.Lines

/-!
# The pieces of a sliding window

`Linked p q cuts`: the ranges `cuts` lead from `p` to `q`, each starting no later than the one before
it ended. `Spans` asks that the first starts exactly at `p`.

`slide` gives the pieces of a window as if every sum were a word, and a window fails exactly if one of them has a sum
that is none (`pieces_eq`). A piece is a slice that fits its budget or is a single character (`mem_slide`), and with
enough pieces allowed they span the text between the two ends (`slide_spans`).
-/

namespace CodeIndex

/-! ## Linked ranges -/

/-- Ranges that go on from `p` without a gap and end at `q`. -/
def Linked (p q : Nat) : List (Nat × Nat) → Prop
  | [] => p = q
  | (start, stop) :: rest => start ≤ p ∧ Linked stop q rest

/-- Ranges that start at `p` and go on without a gap up to `q`. -/
def Spans (p q : Nat) : List (Nat × Nat) → Prop
  | [] => p = q
  | (start, stop) :: rest => start = p ∧ Linked stop q rest

theorem Spans.linked {p q : Nat} {cuts : List (Nat × Nat)} (h : Spans p q cuts) : Linked p q cuts := by
  cases cuts with
  | nil => exact h
  | cons cut rest => exact ⟨Nat.le_of_eq h.1, h.2⟩

theorem Linked.append {p q r : Nat} {cuts more : List (Nat × Nat)} (h : Linked p q cuts)
    (h' : Linked q r more) : Linked p r (cuts ++ more) := by
  induction cuts generalizing p with
  | nil => obtain rfl := h; exact h'
  | cons cut rest ih => exact ⟨h.1, ih h.2⟩

theorem Spans.append {p q r : Nat} {cuts more : List (Nat × Nat)} (h : Spans p q cuts)
    (h' : Spans q r more) : Spans p r (cuts ++ more) := by
  cases cuts with
  | nil => obtain rfl := h; exact h'
  | cons cut rest => exact ⟨h.1, h.2.append h'.linked⟩

theorem Spans.single {p q : Nat} : Spans p q [(p, q)] := ⟨rfl, rfl⟩

/-- The last of linked ranges ends where they lead. -/
theorem Linked.getLast? {p q : Nat} {cuts : List (Nat × Nat)} (h : Linked p q cuts) (hne : cuts ≠ []) :
    cuts.getLast?.map (·.2) = some q := by
  induction cuts generalizing p with
  | nil => exact absurd rfl hne
  | cons cut rest ih =>
    cases rest with
    | nil => exact congrArg some h.2
    | cons next rest => exact ih h.2 (by simp)

theorem Linked.isChain {p q : Nat} {cuts : List (Nat × Nat)} (h : Linked p q cuts) :
    cuts.IsChain fun a b => b.1 ≤ a.2 := by
  induction cuts generalizing p with
  | nil => exact .nil
  | cons cut rest ih =>
    cases rest with
    | nil => exact .singleton _
    | cons next rest => exact .cons_cons h.2.1 (ih h.2)

namespace Piece

def range (p : Piece) : Nat × Nat := (p.start, p.stop)

/-- A non-empty range between characters. -/
structure Cuts (s : Source) (p : Piece) : Prop where
  lt : p.start < p.stop
  start : s.isBoundary p.start = true
  stop : s.isBoundary p.stop = true

end Piece

/-- Lines that are there: not empty, between characters and inside the text. -/
theorem Source.Intact.lines_cut {s : Source} (hs : s.Intact) (h0 : 0 < s.size) {first last : Nat} (h1 : 1 ≤ first)
    (hle : first ≤ last) (hn : first ≤ s.lineCount) :
    Piece.Cuts s ⟨s.lineStart first, s.lineStart (last + 1), false⟩ where
  lt := hs.lineStart_lt h0 h1 (by omega) hn
  start := hs.isBoundary_lineStart first
  stop := hs.isBoundary_lineStart (last + 1)

/-- No character starts between two offsets. -/
def Source.Solid (s : Source) (start stop : Nat) : Prop :=
  ∀ k, start < k → k < stop → s.isBoundary k = false

theorem Source.Solid.mono {s : Source} {start stop stop' : Nat} (h : s.Solid start stop)
    (hle : stop' ≤ stop) : s.Solid start stop' :=
  fun k hk hk' => h k hk (Nat.lt_of_lt_of_le hk' hle)

namespace Window

variable {s : Source} {budget overlap start stop : Nat}

/-! ## One piece -/

theorem lastFeed?_eq_some {n k : Nat} (h : lastFeed? s start n = some k) :
    k < n ∧ s.octets[start + k]? = some Source.lineFeed := by
  induction n with
  | zero => cases h
  | succ n ih =>
    rw [lastFeed?] at h
    split at h
    · next hfeed =>
      cases h
      exact ⟨Nat.lt_succ_self _, hfeed⟩
    · exact ⟨Nat.lt_succ_of_lt (ih h).1, (ih h).2⟩

/-- The end that a budget sets, of whatever size, lies behind the start and not behind the stop. -/
theorem budgetEnd_bounds (budget : Nat) (hs : s.Intact) (hlt : start < stop) (hstop : s.isBoundary stop = true) :
    start < budgetEnd s budget start stop ∧ budgetEnd s budget start stop ≤ stop ∧
      s.isBoundary (budgetEnd s budget start stop) = true := by
  have hsize := hs.le_size hstop
  unfold budgetEnd
  simp only
  split
  · exact ⟨Source.le_ceilBoundary s (start + 1), Source.ceilBoundary_le hstop hlt,
      hs.isBoundary_ceilBoundary (by omega)⟩
  · next hreach =>
    have hfloor := Source.floorBoundary_le s (min (start + budget) stop)
    exact ⟨by omega, by omega, hs.isBoundary_floorBoundary _⟩

theorem pieceEnd_bounds (budget : Nat) (hs : s.Intact) (hlt : start < stop) (hstop : s.isBoundary stop = true) :
    start < pieceEnd s budget start stop ∧ pieceEnd s budget start stop ≤ stop ∧
      s.isBoundary (pieceEnd s budget start stop) = true := by
  have hreach := budgetEnd_bounds budget hs hlt hstop
  unfold pieceEnd
  simp only
  split
  · split
    · next n hfeed =>
      obtain ⟨hn, hoctet⟩ := lastFeed?_eq_some hfeed
      split
      · exact ⟨by omega, by omega, hs.isBoundary_after_feed hoctet⟩
      · exact hreach
    · exact hreach
  · exact hreach

/-- The end that a budget sets fits the budget or ends a single character. -/
theorem budgetEnd_fits (s : Source) (budget start stop : Nat) :
    budgetEnd s budget start stop - start ≤ budget ∨ s.Solid start (budgetEnd s budget start stop) := by
  unfold budgetEnd
  simp only
  split
  · -- no character ends within the budget, so the first one is taken whole
    exact .inr fun k hk hk' => Source.not_isBoundary_of_lt_ceilBoundary hk hk'
  · have hfloor := Source.floorBoundary_le s (min (start + budget) stop)
    exact .inl (by omega)

theorem pieceEnd_fits (s : Source) (budget start stop : Nat) :
    pieceEnd s budget start stop - start ≤ budget ∨ s.Solid start (pieceEnd s budget start stop) := by
  have hfits := budgetEnd_fits s budget start stop
  unfold pieceEnd
  simp only
  split
  · split
    · next n hfeed =>
      have hn := (lastFeed?_eq_some hfeed).1
      split
      · exact hfits.imp (fun h => by omega) fun h => h.mono (by omega)
      · exact hfits
    · exact hfits
  · exact hfits

/-- The next piece starts later than this one and not behind its end. -/
theorem nextStart_spec (budget overlap : Nat) (hs : s.Intact) (hlt : start < stop)
    (hstop : s.isBoundary stop = true) :
    start < nextStart s budget overlap start stop ∧ nextStart s budget overlap start stop ≤ stop ∧
      s.isBoundary (nextStart s budget overlap start stop) = true := by
  have hsize := hs.le_size hstop
  unfold nextStart minStep
  generalize hnext : min (max (stop - overlap) (start + max (budget / 2) 100)) stop = next
  have hle := Source.le_ceilBoundary s next
  exact ⟨by omega, Source.ceilBoundary_le hstop (by omega), hs.isBoundary_ceilBoundary (by omega)⟩

/-! ## All pieces -/

/-- The pieces from `start` on, whether their sums are words or not. -/
def slideFrom (s : Source) (budget overlap stop : Nat) : (limit start : Nat) → List Piece
  | 0, _ => []
  | limit + 1, start =>
    let reach := pieceEnd s budget start stop
    ⟨start, reach, false⟩ ::
      if stop ≤ reach then []
      else slideFrom s budget overlap stop limit (nextStart s budget overlap start reach)

/-- The pieces of the text between two offsets, whether their sums are words or not. -/
def slide (s : Source) (start stop budget overlap limit : Nat) : List Piece :=
  if stop ≤ start then [] else slideFrom s budget overlap stop limit start

/-- The start of every piece and the budget have a sum among the words. -/
def InRange (budget : Nat) (ps : List Piece) : Prop := ∀ p ∈ ps, p.start + budget < wordSize

instance (budget : Nat) (ps : List Piece) : Decidable (InRange budget ps) :=
  inferInstanceAs (Decidable (∀ p ∈ ps, p.start + budget < wordSize))

/-- What is to be had only if sums are words. -/
def checked {α : Type} (p : Prop) [Decidable p] (a : α) : Except Source.Fault α :=
  if p then .ok a else .error .overflow

section Checked

variable {α β : Type} {p q : Prop} [Decidable p] [Decidable q] {a : α}

theorem checked_eq_ok_iff {b : α} : checked p a = .ok b ↔ p ∧ a = b := by
  unfold checked
  split <;> simp_all

theorem checked_of (h : p) : checked p a = .ok a := if_pos h

theorem checked_congr (h : p ↔ q) : checked p a = checked q a := by
  simp only [checked, h]

/-- A step whose sums have to be words, and then another one. -/
theorem checked_bind {f : α → Except Source.Fault β} {b : β} (h : f a = checked q b) :
    checked p a >>= f = checked (p ∧ q) b := by
  by_cases hp : p
  · rw [checked_of hp]
    exact h.trans (checked_congr (by simp [hp]))
  · simp [checked, hp, bind, Except.bind]

theorem checked_map (f : α → β) : (checked p a).map f = checked p (f a) := by
  unfold checked
  split <;> rfl

/-- A step that does not fail, after one that is checked. -/
theorem exists_checked_bind {P : β → Prop} {f : α → Except Source.Fault β} (h : ∃ b, P b ∧ f a = .ok b) :
    ∃ b, P b ∧ checked p a >>= f = checked p b := by
  obtain ⟨b, hb, hf⟩ := h
  refine ⟨b, hb, (checked_bind (q := True) ?_).trans (checked_congr (iff_of_eq (and_true p)))⟩
  rw [hf, checked_of trivial]

end Checked

/-- From every place a window goes on as `slideFrom` does, until a sum is no word. -/
theorem piecesFrom_eq (s : Source) (budget overlap stop limit start : Nat) :
    piecesFrom s budget overlap stop limit start =
      checked (InRange budget (slideFrom s budget overlap stop limit start))
        (slideFrom s budget overlap stop limit start) := by
  induction limit generalizing start with
  | zero => exact (checked_of (List.forall_mem_nil _)).symm
  | succ limit ih =>
    rw [piecesFrom, slideFrom]
    by_cases hsum : wordSize ≤ start + budget
    · rw [if_pos hsum, checked]
      exact (if_neg fun h => Nat.not_lt.mpr hsum (h _ List.mem_cons_self)).symm
    · rw [if_neg hsum]
      have hrange : ∀ ps, InRange budget (⟨start, pieceEnd s budget start stop, false⟩ :: ps) ↔ InRange budget ps :=
        fun ps => List.forall_mem_cons.trans (and_iff_right (Nat.lt_of_not_le hsum))
      split
      · exact (checked_of ((hrange []).mpr (List.forall_mem_nil _))).symm
      · rw [ih, checked_map, checked_congr (hrange _)]

/-- A window gives the pieces of `slide`, and fails if one of their sums is no word. -/
theorem pieces_eq (hpos : 1 ≤ budget) (limit : Nat) :
    pieces s start stop budget overlap limit =
      checked (InRange budget (slide s start stop budget overlap limit)) (slide s start stop budget overlap limit) := by
  unfold pieces slide
  rw [Nat.max_eq_left hpos]
  split
  · exact (checked_of (List.forall_mem_nil _)).symm
  · exact piecesFrom_eq s budget overlap stop limit start

/-- Every piece starts between characters and ends where a piece from there ends. -/
theorem exists_of_mem_slideFrom (hs : s.Intact) (hstop : s.isBoundary stop = true) {limit : Nat}
    (hlt : start < stop) (hstart : s.isBoundary start = true) {p : Piece}
    (hp : p ∈ slideFrom s budget overlap stop limit start) :
    ∃ pos, p = ⟨pos, pieceEnd s budget pos stop, false⟩ ∧ start ≤ pos ∧ pos < stop ∧
      s.isBoundary pos = true := by
  induction limit generalizing start with
  | zero => simp [slideFrom] at hp
  | succ limit ih =>
    rw [slideFrom, List.mem_cons] at hp
    rcases hp with rfl | hp
    · exact ⟨start, rfl, Nat.le_refl _, hlt, hstart⟩
    · split at hp
      · cases hp
      · next hmore =>
        obtain ⟨h1, -, h3⟩ := pieceEnd_bounds budget hs hlt hstop
        obtain ⟨hn1, hn2, hn3⟩ := nextStart_spec budget overlap hs h1 h3
        obtain ⟨pos, rfl, hle, hpos, hbound⟩ := ih (by omega) hn3 hp
        exact ⟨pos, rfl, by omega, hpos, hbound⟩

/-- Every piece is a slice, within the budget or a single character. -/
theorem mem_slideFrom (hs : s.Intact) (hstop : s.isBoundary stop = true) {limit : Nat} (hlt : start < stop)
    (hstart : s.isBoundary start = true) {p : Piece} (hp : p ∈ slideFrom s budget overlap stop limit start) :
    p.Cuts s ∧ p.oversized = false ∧ (p.stop - p.start ≤ budget ∨ s.Solid p.start p.stop) := by
  obtain ⟨pos, rfl, -, hpos, hbound⟩ := exists_of_mem_slideFrom hs hstop hlt hstart hp
  obtain ⟨h1, -, h3⟩ := pieceEnd_bounds budget hs hpos hstop
  exact ⟨⟨h1, hbound, h3⟩, rfl, pieceEnd_fits s budget pos stop⟩

/-- With a piece allowed for every octet, the pieces span the text up to `stop`. -/
theorem slideFrom_spans (hs : s.Intact) (hstop : s.isBoundary stop = true) {limit : Nat} (hlt : start < stop)
    (hlimit : stop - start ≤ limit) :
    Spans start stop ((slideFrom s budget overlap stop limit start).map Piece.range) := by
  induction limit generalizing start with
  | zero => omega
  | succ limit ih =>
    obtain ⟨h1, h2, h3⟩ := pieceEnd_bounds budget hs hlt hstop
    rw [slideFrom, List.map_cons]
    refine ⟨rfl, ?_⟩
    split
    · exact Nat.le_antisymm h2 (by assumption)
    · next hmore =>
      obtain ⟨hn1, hn2, -⟩ := nextStart_spec budget overlap hs h1 h3
      generalize nextStart s budget overlap start (pieceEnd s budget start stop) = next at hn1 hn2 ⊢
      have hrest := @ih next (by omega) (by omega)
      -- the rest starts within this piece
      cases hmap : (slideFrom s budget overlap stop limit next).map Piece.range with
      | nil =>
        rw [hmap] at hrest
        simp only [Spans] at hrest
        omega
      | cons cut rest =>
        rw [hmap] at hrest
        exact ⟨by rw [hrest.1]; exact hn2, hrest.2⟩

/-- The pieces of a text, as those from its start on. -/
theorem exists_of_mem_slide (hs : s.Intact) (hstart : s.isBoundary start = true)
    (hstop : s.isBoundary stop = true) {limit : Nat} {p : Piece}
    (hp : p ∈ slide s start stop budget overlap limit) :
    ∃ pos, p = ⟨pos, pieceEnd s budget pos stop, false⟩ ∧ start ≤ pos ∧ pos < stop ∧
      s.isBoundary pos = true := by
  unfold slide at hp
  split at hp
  · cases hp
  · exact exists_of_mem_slideFrom hs hstop (by omega) hstart hp

theorem mem_slide (hs : s.Intact) (hstart : s.isBoundary start = true) (hstop : s.isBoundary stop = true)
    {limit : Nat} {p : Piece} (hp : p ∈ slide s start stop budget overlap limit) :
    p.Cuts s ∧ p.oversized = false ∧ (p.stop - p.start ≤ budget ∨ s.Solid p.start p.stop) := by
  unfold slide at hp
  split at hp
  · cases hp
  · exact mem_slideFrom hs hstop (by omega) hstart hp

theorem slide_spans (hs : s.Intact) (hstop : s.isBoundary stop = true) {limit : Nat} (hle : start ≤ stop)
    (hlimit : stop - start ≤ limit) : Spans start stop ((slide s start stop budget overlap limit).map Piece.range) := by
  unfold slide
  split
  · exact Nat.le_antisymm hle (by assumption)
  · exact slideFrom_spans hs hstop (by omega) hlimit

/-- A budget that stays in range behind the text does so in front of every piece. -/
theorem inRange_slide (hs : s.Intact) (hstart : s.isBoundary start = true) (hstop : s.isBoundary stop = true)
    (hbudget : stop + budget ≤ wordSize) (limit : Nat) :
    InRange budget (slide s start stop budget overlap limit) := by
  intro p hp
  obtain ⟨pos, rfl, -, hlt, -⟩ := exists_of_mem_slide hs hstart hstop hp
  dsimp only
  omega

end Window

end CodeIndex
