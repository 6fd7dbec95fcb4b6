import CodeIndex.Proofs.Source.Characters

/-!
# The line table

`lineStart k` is where line `k` starts. Lines are not empty (`Intact.lineStart_lt`), start between
characters (`Intact.isBoundary_lineStart`), and the line of an offset is one more than the line feeds
before it (`Intact.lineAt_eq_row`).
-/

namespace CodeIndex.Source

variable {s : Source}

/-! ## Starts of lines -/

/-- The starts among later octets are ascending, and each lies after `offset` and in the text. -/
theorem startsFrom_ascending (size offset : Nat) (l : List UInt8) :
    (startsFrom size offset l).Pairwise (· < ·) ∧
      ∀ x ∈ startsFrom size offset l, offset < x ∧ x < size := by
  induction l generalizing offset with
  | nil => simp [startsFrom]
  | cons b rest ih =>
    obtain ⟨hsorted, hbounds⟩ := ih (offset + 1)
    rw [startsFrom]
    split
    · next hb =>
      simp only [Bool.and_eq_true, decide_eq_true_eq] at hb
      refine ⟨List.pairwise_cons.mpr ⟨fun x hx => (hbounds x hx).1, hsorted⟩, fun x hx => ?_⟩
      rcases List.mem_cons.mp hx with rfl | hx
      · omega
      · have := hbounds x hx; omega
    · exact ⟨hsorted, fun x hx => by have := hbounds x hx; omega⟩

/-- A line starts just after a line feed. -/
theorem octet_before_start {size offset : Nat} {l : List UInt8} {x : Nat}
    (hx : x ∈ startsFrom size offset l) : l[x - offset - 1]? = some lineFeed := by
  induction l generalizing offset with
  | nil => simp [startsFrom] at hx
  | cons b rest ih =>
    have hlater : x ∈ startsFrom size (offset + 1) rest → (b :: rest)[x - offset - 1]? = some lineFeed := by
      intro h
      have hlt := ((startsFrom_ascending size (offset + 1) rest).2 x h).1
      rw [← ih h, show x - offset - 1 = x - (offset + 1) - 1 + 1 by omega, List.getElem?_cons_succ]
    rw [startsFrom] at hx
    split at hx
    · next hb =>
      rcases List.mem_cons.mp hx with rfl | h
      · simp only [Bool.and_eq_true, decide_eq_true_eq] at hb
        simp [hb.1]
      · exact hlater h
    · exact hlater hx

/-- The starts up to an offset are as many as the line feeds before it. -/
theorem countP_startsFrom {size offset x : Nat} (l : List UInt8) (hsize : offset + l.length = size)
    (hx : offset ≤ x) (hlt : x < size) :
    (startsFrom size offset l).countP (· ≤ x) = (l.take (x - offset)).countP (· == lineFeed) := by
  induction l generalizing offset with
  | nil => simp [startsFrom]
  | cons b rest ih =>
    simp only [List.length_cons] at hsize
    rcases Nat.eq_or_lt_of_le hx with rfl | hlt'
    · -- nothing starts at or before `offset`
      rw [Nat.sub_self, List.take_zero, List.countP_nil, List.countP_eq_zero]
      intro y hy
      have := ((startsFrom_ascending size offset (b :: rest)).2 y hy).1
      simp only [decide_eq_true_eq]
      omega
    · have ih' := @ih (offset + 1) (by omega) hlt'
      rw [show x - offset = x - (offset + 1) + 1 by omega, List.take_succ_cons, List.countP_cons, ← ih',
        startsFrom]
      by_cases hb : b = lineFeed
      · rw [if_pos (by simp [hb]; omega), List.countP_cons]
        have h1 : offset + 1 ≤ x := hlt'
        simp [hb, h1]
      · rw [if_neg (by simp [hb])]
        simp [hb]

/-- Where a line starts; behind the last one, the end of the text. -/
def lineStart (s : Source) (line : Nat) : Nat :=
  (s.starts[line - 1]?).getD s.size

theorem Intact.starts_eq (hs : s.Intact) :
    s.starts.toList = 0 :: startsFrom s.size 0 s.octets.toList := by
  rw [hs]; rfl

theorem Intact.starts_ascending (hs : s.Intact) : s.starts.toList.Pairwise (· < ·) := by
  rw [hs.starts_eq]
  obtain ⟨hsorted, hbounds⟩ := startsFrom_ascending s.size 0 s.octets.toList
  exact List.pairwise_cons.mpr ⟨fun x hx => (hbounds x hx).1, hsorted⟩

/-- The line of an offset is one more than the line feeds before it. -/
theorem Intact.lineAt_eq_row (hs : s.Intact) {x : Nat} (hx : x < s.size) : s.lineAt x = s.row x + 1 := by
  have hcount := countP_startsFrom s.octets.toList
    (by rw [Nat.zero_add, Array.length_toList]; rfl) (Nat.zero_le x) hx
  unfold lineAt row
  rw [hs.starts_eq, List.countP_cons, hcount, Array.toList_extract]
  simp [List.extract]

theorem Intact.starts_lt_size (hs : s.Intact) (h0 : 0 < s.size) {x : Nat} (hx : x ∈ s.starts.toList) :
    x < s.size := by
  rw [hs.starts_eq] at hx
  rcases List.mem_cons.mp hx with rfl | hx
  · exact h0
  · exact ((startsFrom_ascending s.size 0 s.octets.toList).2 x hx).2

theorem lineCount_eq (h0 : 0 < s.size) : s.lineCount = s.starts.size := by
  rw [lineCount, if_neg (by omega)]

theorem Intact.lineCount_pos (hs : s.Intact) (h0 : 0 < s.size) : 0 < s.lineCount := by
  have := congrArg List.length hs.starts_eq
  rw [Array.length_toList] at this
  rw [lineCount_eq h0, this]
  simp

theorem lineStart_eq (s : Source) {line : Nat} (h1 : 1 ≤ line) (h : line ≤ s.starts.size) :
    s.starts[line - 1]? = some (s.lineStart line) := by
  rw [lineStart, Array.getElem?_eq_getElem (by omega)]
  rfl

theorem Intact.lineStart_one (hs : s.Intact) : s.lineStart 1 = 0 := by
  rw [lineStart, ← Array.getElem?_toList, hs.starts_eq]
  rfl

theorem lineStart_end (h0 : 0 < s.size) : s.lineStart (s.lineCount + 1) = s.size := by
  rw [lineStart, lineCount_eq h0, Nat.add_sub_cancel, Array.getElem?_eq_none (Nat.le_refl _)]
  rfl

/-- Lines behind the last one start at the end of the text. -/
theorem lineStart_of_lt (h0 : 0 < s.size) {line : Nat} (h : s.lineCount < line) : s.lineStart line = s.size := by
  rw [lineCount_eq h0] at h
  rw [lineStart, Array.getElem?_eq_none (by omega)]
  rfl

/-- Each line starts before the next. -/
theorem Intact.lineStart_lt (hs : s.Intact) (h0 : 0 < s.size) {i j : Nat} (h1 : 1 ≤ i) (hij : i < j)
    (hi : i ≤ s.lineCount) : s.lineStart i < s.lineStart j := by
  rw [lineCount_eq h0] at hi
  have hi' := lineStart_eq s h1 hi
  rw [← Array.getElem?_toList] at hi'
  rcases Nat.lt_or_ge s.starts.size j with hj | hj
  · have : s.lineStart j = s.size := by
      rw [lineStart, Array.getElem?_eq_none (by omega)]; rfl
    rw [this]
    exact hs.starts_lt_size h0 (List.mem_of_getElem? hi')
  · have hj' := lineStart_eq s (by omega : 1 ≤ j) hj
    rw [← Array.getElem?_toList] at hj'
    obtain ⟨hli, hi'⟩ := List.getElem?_eq_some_iff.mp hi'
    obtain ⟨hlj, hj'⟩ := List.getElem?_eq_some_iff.mp hj'
    rw [← hi', ← hj']
    exact List.pairwise_iff_getElem.mp hs.starts_ascending _ _ hli hlj (by omega)

theorem Intact.lineStart_le (hs : s.Intact) (h0 : 0 < s.size) {i j : Nat} (h1 : 1 ≤ i) (hij : i ≤ j)
    (hi : i ≤ s.lineCount + 1) : s.lineStart i ≤ s.lineStart j := by
  rcases Nat.eq_or_lt_of_le hij with rfl | hlt
  · exact Nat.le_refl _
  rcases Nat.lt_or_ge s.lineCount i with h | h
  · exact Nat.le_of_eq ((lineStart_of_lt h0 h).trans (lineStart_of_lt h0 (by omega)).symm)
  · exact Nat.le_of_lt (hs.lineStart_lt h0 h1 hlt h)

theorem span_eq (h0 : 0 < s.size) {first : Nat} (last : Nat) (h1 : 1 ≤ first) (h : first ≤ s.lineCount) :
    s.span first last = .ok (s.lineStart first, s.lineStart (last + 1)) := by
  rw [lineCount_eq h0] at h
  have hstart := lineStart_eq s h1 h
  unfold span
  cases first with
  | zero => omega
  | succ k =>
    simp only [Nat.add_sub_cancel] at hstart
    simp only [hstart]
    rfl

/-- A line behind the last one has no start to ask for. -/
theorem span_of_lt (h0 : 0 < s.size) {first : Nat} (last : Nat) (h : s.lineCount < first) :
    s.span first last = .error .outOfRange := by
  rw [lineCount_eq h0] at h
  unfold span
  cases first with
  | zero => rfl
  | succ k => simp only [Array.getElem?_eq_none (by omega : s.starts.size ≤ k)]

/-- An offset between the starts of a line and of the next lies on that line. -/
theorem Intact.lineAt_eq (hs : s.Intact) (h0 : 0 < s.size) {line x : Nat} (h1 : 1 ≤ line)
    (hl : line ≤ s.lineCount) (hx : s.lineStart line ≤ x) (hx' : x < s.lineStart (line + 1)) :
    s.lineAt x = line := by
  have hl' := hl
  rw [lineCount_eq h0] at hl'
  have hat : ∀ i (h : i < s.starts.toList.length), s.starts.toList[i] = s.lineStart (i + 1) := by
    intro i h
    have := lineStart_eq s (Nat.le_add_left 1 i) (by rw [Array.length_toList] at h; omega)
    rw [← Array.getElem?_toList, Nat.add_sub_cancel, List.getElem?_eq_getElem h] at this
    exact Option.some.inj this
  have hfront : (s.starts.toList.take line).countP (· ≤ x) = line := by
    rw [List.countP_eq_length.mpr, List.length_take, Array.length_toList, Nat.min_eq_left hl']
    intro y hy
    obtain ⟨i, hi, rfl⟩ := List.mem_iff_getElem.mp hy
    rw [List.length_take] at hi
    rw [List.getElem_take, hat i (by omega), decide_eq_true_eq]
    exact Nat.le_trans (hs.lineStart_le h0 (by omega) (by omega) (by omega)) hx
  have hback : (s.starts.toList.drop line).countP (· ≤ x) = 0 := by
    rw [List.countP_eq_zero]
    intro y hy
    obtain ⟨i, hi, rfl⟩ := List.mem_iff_getElem.mp hy
    rw [List.length_drop, Array.length_toList] at hi
    rw [List.getElem_drop, hat (line + i) (by rw [Array.length_toList]; omega), decide_eq_true_eq]
    have := hs.lineStart_le h0 (i := line + 1) (j := line + i + 1) (by omega) (by omega) (by omega)
    omega
  unfold lineAt
  rw [← List.take_append_drop line s.starts.toList, List.countP_append, hfront, hback]
  omega

theorem lineAt_mono (s : Source) {x y : Nat} (h : x ≤ y) : s.lineAt x ≤ s.lineAt y := by
  have : s.starts.toList.countP (· ≤ x) ≤ s.starts.toList.countP (· ≤ y) :=
    List.countP_mono_left fun z _ hz => by
      simp only [decide_eq_true_eq] at hz ⊢
      omega
  unfold lineAt
  omega

theorem one_le_lineAt (s : Source) (x : Nat) : 1 ≤ s.lineAt x := Nat.le_max_right _ _

theorem Intact.lineAt_le (hs : s.Intact) (h0 : 0 < s.size) (x : Nat) : s.lineAt x ≤ s.lineCount := by
  have hpos := hs.lineCount_pos h0
  have hcount := List.countP_le_length (p := fun start => decide (start ≤ x)) (l := s.starts.toList)
  rw [Array.length_toList, ← lineCount_eq h0] at hcount
  exact Nat.max_le.mpr ⟨hcount, hpos⟩

/-- A line is made of the offsets from its start to that of the next line, and of no others. -/
theorem Intact.lineAt_eq_iff (hs : s.Intact) (h0 : 0 < s.size) {line x : Nat} (h1 : 1 ≤ line)
    (hl : line ≤ s.lineCount) (hx : x < s.size) :
    s.lineAt x = line ↔ s.lineStart line ≤ x ∧ x < s.lineStart (line + 1) := by
  refine ⟨fun hline => ⟨Nat.le_of_not_lt fun hlt => ?_, Nat.lt_of_not_le fun hge => ?_⟩,
    fun h => hs.lineAt_eq h0 h1 hl h.1 h.2⟩
  · -- the octet in front of the line lies on the line before
    obtain ⟨k, rfl⟩ : ∃ k, line = k + 1 := ⟨line - 1, by omega⟩
    have hk : 1 ≤ k := by
      rcases Nat.eq_zero_or_pos k with rfl | h
      · rw [Nat.zero_add, hs.lineStart_one] at hlt
        omega
      · exact h
    have hbefore := hs.lineStart_lt h0 hk (Nat.lt_add_one k) (by omega)
    have hat := hs.lineAt_eq (x := s.lineStart (k + 1) - 1) h0 hk (by omega) (by omega) (by omega)
    have := s.lineAt_mono (x := x) (y := s.lineStart (k + 1) - 1) (by omega)
    omega
  · have hnext : line + 1 ≤ s.lineCount := by
      rcases Nat.eq_or_lt_of_le hl with rfl | h
      · rw [lineStart_end h0] at hge
        omega
      · exact h
    have hlt := hs.lineStart_lt h0 (Nat.le_add_left 1 line) (Nat.lt_add_one _) hnext
    have hat := hs.lineAt_eq h0 (Nat.le_add_left 1 line) hnext (Nat.le_refl _) hlt
    have := s.lineAt_mono hge
    omega

/-- The octet before a line that is not the first is a line feed. -/
theorem Intact.feed_before_start (hs : s.Intact) {k x : Nat} (h : s.starts[k + 1]? = some x) :
    0 < x ∧ s.octets[x - 1]? = some lineFeed := by
  rw [← Array.getElem?_toList, hs.starts_eq, List.getElem?_cons_succ] at h
  have hmem := List.mem_of_getElem? h
  have hfeed := octet_before_start hmem
  rw [Array.getElem?_toList, Nat.sub_zero] at hfeed
  exact ⟨((startsFrom_ascending s.size 0 s.octets.toList).2 x hmem).1, hfeed⟩

/-- A line starts between characters. -/
theorem Intact.isBoundary_lineStart (hs : s.Intact) (line : Nat) :
    s.isBoundary (s.lineStart line) = true := by
  unfold lineStart
  rcases hstart : s.starts[line - 1]? with _ | x
  · exact hs.isBoundary_size
  · cases hline : line - 1 with
    | zero =>
      rw [hline, ← Array.getElem?_toList, hs.starts_eq] at hstart
      cases hstart
      exact hs.isBoundary_zero
    | succ k =>
      rw [hline] at hstart
      obtain ⟨hpos, hfeed⟩ := hs.feed_before_start hstart
      have := hs.isBoundary_after_feed hfeed
      rwa [Nat.sub_add_cancel hpos] at this

/-- Lines that are there have a text, and no lines have the empty one. -/
theorem Intact.exists_lineText (hs : s.Intact) (h0 : 0 < s.size) {first last : Nat} (h1 : 1 ≤ first)
    (hle : first ≤ last + 1) (h : first ≤ s.lineCount) :
    ∃ text, s.slice? (s.lineStart first) (s.lineStart (last + 1)) = some text ∧
      s.lineText first last = .ok text := by
  obtain ⟨text, htext⟩ := hs.exists_slice (hs.isBoundary_lineStart first)
    (hs.isBoundary_lineStart (last + 1)) (hs.lineStart_le h0 h1 hle (by omega))
  refine ⟨text, htext, ?_⟩
  rw [lineText, span_eq h0 last h1 h]
  simp only [bind, Except.bind, slice, htext]

end CodeIndex.Source
