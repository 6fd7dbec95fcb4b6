import CodeIndex.Proofs.Chunk.Window

/-!
# How a window slides

A window with no limit on its pieces goes over a text from end to end: its starts and its ends go up
strictly, no text is left out between two pieces, and none of it is taken twice but the overlap asked for.
The step bounds how close two starts can be, so the window gets to the end for every overlap
(`pieces_slide`). A limit only leaves out the pieces behind it (`slideFrom_eq_take`).

That the ends go up is the part that needs an argument. Where a piece starts inside the one before it, that
one was longer than the step, so the budget reaches over its end by more than a character, and a line feed
that cuts the new piece short lies in its second half, which is behind that end
(`pieceEnd_lt_pieceEnd`).
-/

namespace CodeIndex

/-! ## The nearest boundaries -/

namespace Source

variable {s : Source}

theorem le_floorBoundary {i k : Nat} (hk : s.isBoundary k = true) (hki : k ≤ i) : k ≤ s.floorBoundary i := by
  induction i with
  | zero => omega
  | succ i ih =>
    rw [floorBoundary]
    split
    · exact hki
    · next hi =>
      have hne : k ≠ i + 1 := fun h => hi (h ▸ hk)
      exact ih (by omega)

/-- A character has at most four octets. -/
theorem Intact.ceilBoundary_succ_le (hs : s.Intact) {a : Nat} (ha : s.isBoundary a = true) (hlt : a < s.size) :
    s.ceilBoundary (a + 1) ≤ a + 4 := by
  obtain ⟨front, back, hsplit, rfl⟩ := hs.isBoundary_iff.mp ha
  cases back with
  | nil =>
    rw [hs.size_eq, hsplit, List.append_nil] at hlt
    omega
  | cons c back =>
    have hlength : (encode (front ++ [c])).length = (encode front).length + c.utf8Size := by
      simp [encode_cons]
    have hk : s.isBoundary (encode (front ++ [c])).length = true :=
      hs.isBoundary_iff.mpr ⟨front ++ [c], back, by simp [hsplit], rfl⟩
    have hpos := c.utf8Size_pos
    have hle := c.utf8Size_le_four
    have := ceilBoundary_le hk (by omega : (encode front).length + 1 ≤ _)
    omega

theorem Intact.le_of_solid (hs : s.Intact) {start stop : Nat} (hstart : s.isBoundary start = true)
    (hstop : s.isBoundary stop = true) (hlt : start < stop) (h : s.Solid start stop) : stop ≤ start + 4 := by
  have hsize := hs.le_size hstop
  have hfour := hs.ceilBoundary_succ_le hstart (by omega)
  have hceil := hs.isBoundary_ceilBoundary (by omega : start + 1 ≤ s.size)
  have hle := le_ceilBoundary s (start + 1)
  rcases Nat.lt_or_ge (s.ceilBoundary (start + 1)) stop with hin | hout
  · rw [h _ (by omega) hin] at hceil
    cases hceil
  · omega

end Source

/-- How a window goes from one piece to the next. -/
structure Piece.Follows (budget overlap : Nat) (p q : Piece) : Prop where
  start_lt : p.start < q.start
  stop_lt : p.stop < q.stop
  touches : q.start ≤ p.stop
  overlaps : p.stop - q.start ≤ overlap
  steps : p.start + min (max (budget / 2) 100) (p.stop - p.start) ≤ q.start

namespace Window

variable {s : Source} {budget overlap start stop : Nat}

/-! ## One step -/

/-- A budget that leaves room for one more character reaches past a boundary. -/
theorem lt_budgetEnd (hs : s.Intact) (hstop : s.isBoundary stop = true)
    {mid : Nat} (hmid : s.isBoundary mid = true) (hle : start ≤ mid) (hlt : mid < stop)
    (hroom : mid + 4 ≤ start + budget) : mid < budgetEnd s budget start stop := by
  have hsize := hs.le_size hstop
  have hfour := hs.ceilBoundary_succ_le hmid (by omega)
  have hreach := Source.le_floorBoundary (i := min (start + budget) stop)
    (hs.isBoundary_ceilBoundary (by omega : mid + 1 ≤ s.size))
    (Nat.le_min.mpr ⟨by omega, Source.ceilBoundary_le hstop hlt⟩)
  have hafter := Source.le_ceilBoundary s (mid + 1)
  unfold budgetEnd
  simp only
  rw [if_neg (by omega)]
  omega

/-- A piece ends where the budget does, or after a line feed in its second half. -/
theorem pieceEnd_cases (s : Source) (budget start stop : Nat) :
    pieceEnd s budget start stop = budgetEnd s budget start stop ∨
      start + budget / 2 + 2 ≤ pieceEnd s budget start stop := by
  unfold pieceEnd
  simp only
  split
  · split
    · split
      · exact .inr (by omega)
      · exact .inl rfl
    · exact .inl rfl
  · exact .inl rfl

/-- The next piece starts at the end of this one, or at least a step on. -/
theorem nextStart_bounds (s : Source) (budget overlap start stop : Nat) :
    stop - overlap ≤ nextStart s budget overlap start stop ∧
      min (start + max (budget / 2) 100) stop ≤ nextStart s budget overlap start stop := by
  have hle := Source.le_ceilBoundary s (min (max (stop - overlap) (start + max (budget / 2) minStep)) stop)
  unfold nextStart
  unfold minStep at hle ⊢
  omega

/-- The piece after one that does not get to the end reaches farther. -/
theorem pieceEnd_lt_pieceEnd (overlap : Nat) (hs : s.Intact) (hstart : s.isBoundary start = true)
    (hstop : s.isBoundary stop = true) (hlt : start < stop)
    (hmore : pieceEnd s budget start stop < stop) :
    pieceEnd s budget start stop <
      pieceEnd s budget (nextStart s budget overlap start (pieceEnd s budget start stop)) stop := by
  have hfits := pieceEnd_fits s budget start stop
  obtain ⟨hfrom, -, hend⟩ := pieceEnd_bounds budget hs hlt hstop
  obtain ⟨-, hnext, -⟩ := nextStart_spec budget overlap hs hfrom hend
  obtain ⟨-, hstep⟩ := nextStart_bounds s budget overlap start (pieceEnd s budget start stop)
  generalize pieceEnd s budget start stop = mid at *
  generalize nextStart s budget overlap start mid = next at *
  obtain ⟨hgrows, -⟩ := pieceEnd_bounds budget hs (by omega : next < stop) hstop
  rcases Nat.lt_or_ge next mid with hinside | hbehind
  · -- more than a step was taken, so the piece was no single character
    have hlength : mid - start ≤ budget := hfits.elim id fun hsolid => by
      have := hs.le_of_solid hstart hend hfrom hsolid
      omega
    rcases pieceEnd_cases s budget next stop with heq | hfeed
    · rw [heq]
      exact lt_budgetEnd hs hstop hend hnext hmore (by omega)
    · omega
  · omega

theorem follows_next (overlap : Nat) (hs : s.Intact) (hstart : s.isBoundary start = true)
    (hstop : s.isBoundary stop = true) (hlt : start < stop)
    (hmore : pieceEnd s budget start stop < stop) {next : Nat}
    (hnext : next = nextStart s budget overlap start (pieceEnd s budget start stop)) :
    Piece.Follows budget overlap ⟨start, pieceEnd s budget start stop, false⟩
      ⟨next, pieceEnd s budget next stop, false⟩ := by
  obtain ⟨hfrom, -, hend⟩ := pieceEnd_bounds budget hs hlt hstop
  obtain ⟨hn1, hn2, -⟩ := nextStart_spec budget overlap hs hfrom hend
  obtain ⟨hback, hstep⟩ := nextStart_bounds s budget overlap start (pieceEnd s budget start stop)
  have hgrows := pieceEnd_lt_pieceEnd overlap hs hstart hstop hlt hmore
  rw [← hnext] at hn1 hn2 hback hstep hgrows
  exact ⟨hn1, hgrows, hn2, by simp only; omega, by simp only; omega⟩

/-! ## All pieces -/

theorem slideFrom_chain (overlap limit : Nat) (hs : s.Intact) (hstart : s.isBoundary start = true)
    (hstop : s.isBoundary stop = true) (hlt : start < stop) :
    (slideFrom s budget overlap stop limit start).IsChain (Piece.Follows budget overlap) := by
  induction limit generalizing start with
  | zero => exact .nil
  | succ limit ih =>
    obtain ⟨hfrom, -, hend⟩ := pieceEnd_bounds budget hs hlt hstop
    obtain ⟨-, hn2, hn3⟩ := nextStart_spec budget overlap hs hfrom hend
    rw [slideFrom]
    split
    · exact .singleton _
    · next hmore =>
      have hrest := ih hn3 (by omega)
      have hfollows := follows_next overlap hs hstart hstop hlt (Nat.lt_of_not_le hmore) rfl
      cases limit with
      | zero => exact .singleton _
      | succ limit => exact .cons_cons hfollows hrest

/-- Pieces stay between the ends of the text they are cut from. -/
theorem slideFrom_within (hs : s.Intact) (hstop : s.isBoundary stop = true) {limit : Nat} (hlt : start < stop) {p : Piece}
    (hp : p ∈ slideFrom s budget overlap stop limit start) : start ≤ p.start ∧ p.stop ≤ stop := by
  induction limit generalizing start with
  | zero => cases hp
  | succ limit ih =>
    obtain ⟨hfrom, hle, hend⟩ := pieceEnd_bounds budget hs hlt hstop
    obtain ⟨hn1, hn2, -⟩ := nextStart_spec budget overlap hs hfrom hend
    rw [slideFrom, List.mem_cons] at hp
    rcases hp with rfl | hp
    · exact ⟨Nat.le_refl _, hle⟩
    · split at hp
      · cases hp
      · have := ih (by omega) hp
        omega

/-- With a piece allowed for every octet, allowing fewer or more keeps to the first of them. -/
theorem slideFrom_eq_take (hs : s.Intact) (hstop : s.isBoundary stop = true) (hlt : start < stop) {room : Nat}
    (hroom : stop - start ≤ room) (limit : Nat) :
    slideFrom s budget overlap stop limit start = (slideFrom s budget overlap stop room start).take limit := by
  induction limit generalizing start room with
  | zero => rfl
  | succ limit ih =>
    cases room with
    | zero => omega
    | succ room =>
      obtain ⟨hfrom, -, hend⟩ := pieceEnd_bounds budget hs hlt hstop
      obtain ⟨hn1, hn2, -⟩ := nextStart_spec budget overlap hs hfrom hend
      rw [slideFrom, slideFrom, List.take_succ_cons]
      split
      · rw [List.take_nil]
      · exact congrArg _ (ih (by omega) (by omega))

theorem length_slideFrom_le (s : Source) (budget overlap stop limit start : Nat) :
    (slideFrom s budget overlap stop limit start).length ≤ limit := by
  induction limit generalizing start with
  | zero => exact Nat.le_refl 0
  | succ limit ih =>
    rw [slideFrom, List.length_cons]
    split
    · simp
    · exact Nat.succ_le_succ (ih _)

/-- The pieces of a text between two offsets, when as many are allowed as it takes. -/
structure Slides (s : Source) (start stop budget overlap : Nat) (ps : List Piece) : Prop where
  cuts : ∀ p ∈ ps, p.Cuts s ∧ start ≤ p.start ∧ p.stop ≤ stop
  fits : ∀ p ∈ ps, p.stop - p.start ≤ budget ∨
    ∃ text, s.slice? p.start p.stop = some text ∧ text.length = 1
  first : ps.head?.map (·.start) = some start
  last : ps.getLast?.map (·.stop) = some stop
  ascending : ps.Pairwise fun p q => p.start < q.start ∧ p.stop < q.stop
  follows : ps.IsChain (Piece.Follows budget overlap)

theorem slideFrom_slides (hs : s.Intact) (hstart : s.isBoundary start = true) (hstop : s.isBoundary stop = true)
    (hlt : start < stop) :
    Slides s start stop budget overlap (slideFrom s budget overlap stop (stop - start) start) := by
  have hmem := @mem_slideFrom s budget overlap start stop hs hstop (stop - start) hlt hstart
  have hwithin := @slideFrom_within s budget overlap start stop hs hstop (stop - start) hlt
  have hspans := @slideFrom_spans s budget overlap start stop hs hstop (stop - start) hlt (Nat.le_refl _)
  have hfollows := @slideFrom_chain s budget start stop overlap (stop - start) hs hstart hstop hlt
  have hne : slideFrom s budget overlap stop (stop - start) start ≠ [] := by
    rw [show stop - start = stop - start - 1 + 1 by omega, slideFrom]
    exact List.cons_ne_nil _ _
  generalize slideFrom s budget overlap stop (stop - start) start = ps at *
  have hlast := hspans.linked.getLast? (by simpa using hne)
  refine ⟨fun p hp => ⟨(hmem hp).1, hwithin hp⟩, fun p hp => ?_, ?_, ?_, ?_, hfollows⟩
  · obtain ⟨hcuts, -, hfits⟩ := hmem hp
    refine hfits.imp_right fun hsolid => ?_
    obtain ⟨text, htext⟩ := hs.exists_slice hcuts.start hcuts.stop (Nat.le_of_lt hcuts.lt)
    exact ⟨text, htext, hs.length_slice hcuts.start hcuts.stop hcuts.lt hsolid htext⟩
  · cases ps with
    | nil => exact absurd rfl hne
    | cons p rest => exact congrArg some hspans.1
  · rw [List.getLast?_map, Option.map_map] at hlast
    exact hlast
  · have : IsTrans Piece fun p q => p.start < q.start ∧ p.stop < q.stop :=
      ⟨fun p q r h h' => ⟨Nat.lt_trans h.1 h'.1, Nat.lt_trans h.2 h'.2⟩⟩
    exact List.isChain_iff_pairwise.mp (hfollows.imp fun p q h => ⟨h.start_lt, h.stop_lt⟩)

/-- A window slides over the text between two boundaries, for every overlap, and a limit leaves its first
pieces. -/
theorem pieces_slide (text : String) (start stop budget overlap : Nat)
    (hstart : (Source.ofString text).isBoundary start = true)
    (hstop : (Source.ofString text).isBoundary stop = true) (hlt : start < stop) (hpos : 1 ≤ budget)
    (hbudget : stop + budget ≤ wordSize) :
    ∃ all, Slides (Source.ofString text) start stop budget overlap all ∧ all.length ≤ stop - start ∧
      ∀ limit, pieces (Source.ofString text) start stop budget overlap limit = .ok (all.take limit) := by
  have hs := Source.intact_ofString text
  refine ⟨_, slideFrom_slides hs hstart hstop hlt, length_slideFrom_le .., fun limit => ?_⟩
  rw [pieces_eq hpos, checked_of (inRange_slide hs hstart hstop hbudget limit), slide, if_neg (by omega),
    slideFrom_eq_take hs hstop hlt (Nat.le_refl _) limit]

/-- Letters of two octets under an overlap that is longer than the text. -/
theorem pieces_slide_letters :
    let text := String.ofList (List.replicate 130 'π')
    let s := Source.ofString text
    s.isBoundary 2 = true ∧ s.isBoundary 260 = true ∧
      pieces s 2 260 121 1000 9 = .ok [⟨2, 122, false⟩, ⟨102, 222, false⟩, ⟨202, 260, false⟩] ∧
      ∃ all, Slides s 2 260 121 1000 all ∧ all.length ≤ 258 ∧
        ∀ limit, pieces s 2 260 121 1000 limit = .ok (all.take limit) := by
  intro text s
  have hstart : s.isBoundary 2 = true := by decide +kernel
  have hstop : s.isBoundary 260 = true := by decide +kernel
  exact ⟨hstart, hstop, by decide +kernel,
    pieces_slide text 2 260 121 1000 hstart hstop (by decide) (by decide) (by decide)⟩

end Window

end CodeIndex
