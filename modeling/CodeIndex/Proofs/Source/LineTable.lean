import Mathlib.Data.String.Basic
import CodeIndex.Proofs.Source.Lines

/-!
# Lines tile the text

The line table and the line feeds tell the same lines: an offset lies between the start of line `i` and the end of
line `j` exactly when its line is one of them (`Intact.covers_iff`). So the spans of the lines follow each other from
the start of the text to its end, and their texts make up the text (`LineTable`), however it ends.
-/

namespace CodeIndex.Source

variable {s : Source}

/-! ## Offsets on lines -/

/-- An offset lies on the lines from `first` to `last`. -/
def Covers (s : Source) (first last x : Nat) : Prop :=
  ∃ start stop, s.span first last = .ok (start, stop) ∧ start ≤ x ∧ x < stop

/-- A line starts at an offset or before it if and only if it is the offset's line or comes before that. -/
theorem Intact.lineStart_le_iff (hs : s.Intact) (h0 : 0 < s.size) {line x : Nat} (h1 : 1 ≤ line)
    (hl : line ≤ s.lineCount) (hx : x < s.size) : s.lineStart line ≤ x ↔ line ≤ s.lineAt x := by
  have hat := (hs.lineAt_eq_iff h0 (s.one_le_lineAt x) (hs.lineAt_le h0 x) hx).mp rfl
  constructor
  · intro hle
    have hline := hs.lineAt_eq h0 h1 hl (Nat.le_refl _) (hs.lineStart_lt h0 h1 (Nat.lt_add_one line) hl)
    rw [← hline]
    exact s.lineAt_mono hle
  · intro hle
    exact Nat.le_trans (hs.lineStart_le h0 h1 hle (by omega)) hat.1

/-- The lines from `first` to `last` are made of the offsets whose line is one of them. -/
theorem Intact.covers_iff (hs : s.Intact) (h0 : 0 < s.size) {first : Nat} (h1 : 1 ≤ first) (last x : Nat) :
    s.Covers first last x ↔ x < s.size ∧ first ≤ s.lineAt x ∧ s.lineAt x ≤ last := by
  have hcount := hs.lineAt_le h0 x
  rcases Nat.lt_or_ge s.lineCount first with hbehind | hfirst
  · -- there is no such line
    unfold Covers
    rw [span_of_lt h0 last hbehind]
    refine iff_of_false ?_ (by omega)
    rintro ⟨_, _, h, -⟩
    cases h
  · have hspan : s.Covers first last x ↔ s.lineStart first ≤ x ∧ x < s.lineStart (last + 1) := by
      unfold Covers
      rw [span_eq h0 last h1 hfirst]
      simp
    have hsize : s.lineStart (last + 1) ≤ s.size := hs.le_size (hs.isBoundary_lineStart _)
    rw [hspan]
    rcases Nat.lt_or_ge x s.size with hx | hx
    · rw [hs.lineStart_le_iff h0 h1 hfirst hx, ← Nat.not_le (a := s.lineStart (last + 1))]
      rcases Nat.lt_or_ge s.lineCount (last + 1) with hlast | hlast
      · -- the last line of the text is among them
        rw [lineStart_of_lt h0 hlast]
        omega
      · rw [hs.lineStart_le_iff h0 (by omega) hlast hx]
        omega
    · omega

/-! ## Ends of lines -/

/-- A line ends just after a line feed or with the text. -/
theorem Intact.line_ends (hs : s.Intact) (h0 : 0 < s.size) {line : Nat} (h1 : 1 ≤ line) (hl : line ≤ s.lineCount) :
    s.octets[s.lineStart (line + 1) - 1]? = some lineFeed ∨ s.lineStart (line + 1) = s.size := by
  obtain ⟨k, rfl⟩ : ∃ k, line = k + 1 := ⟨line - 1, by omega⟩
  rcases Nat.eq_or_lt_of_le hl with heq | hlt
  · rw [heq]
    exact .inr (lineStart_end h0)
  · rw [lineCount_eq h0] at hlt
    exact .inl (hs.feed_before_start (lineStart_eq s (Nat.le_add_left 1 (k + 1)) hlt)).2

/-! ## Ranges that follow each other -/

/-- Ranges that lead from `p` to `q`, each starting where the one before it ended. -/
def Tiles (p q : Nat) : List (Nat × Nat) → Prop
  | [] => p = q
  | range :: rest => range.1 = p ∧ Tiles range.2 q rest

theorem tiles_lines (s : Source) (first n : Nat) :
    Tiles (s.lineStart first) (s.lineStart (first + n))
      ((List.range' first n).map fun line => (s.lineStart line, s.lineStart (line + 1))) := by
  induction n generalizing first with
  | zero => rfl
  | succ n ih =>
    rw [List.range'_succ, List.map_cons]
    refine ⟨rfl, ?_⟩
    have := ih (first + 1)
    rwa [Nat.add_right_comm, Nat.add_assoc] at this

theorem fromUTF8?_toByteArray (text : String) : String.fromUTF8? text.toByteArray = some text := by
  rw [String.fromUTF8?, dif_pos text.isValidUTF8]
  rfl

theorem slice?_self {a : Nat} (h : a ≤ s.size) : s.slice? a a = some "" := by
  have hdata : s.octets.extract a a = "".toByteArray.data := by
    rw [Array.extract_empty_of_stop_le_start (Nat.le_refl a)]
    rfl
  unfold slice?
  rw [if_pos (by simpa using h), hdata]
  exact fromUTF8?_toByteArray ""

/-- The texts of two ranges of which one goes on from the other make up the text of both. -/
theorem slice?_append {a b c : Nat} {front back : String} (hfront : s.slice? a b = some front)
    (hback : s.slice? b c = some back) : s.slice? a c = some (front ++ back) := by
  obtain ⟨hfdata, hab, -⟩ := toByteArray_of_slice? hfront
  obtain ⟨hbdata, hbc, hc⟩ := toByteArray_of_slice? hback
  have hdata : s.octets.extract a c = (front ++ back).toByteArray.data := by
    rw [String.toByteArray_append, ByteArray.data_append, hfdata, hbdata, Array.extract_append_extract,
      Nat.min_eq_left hab, Nat.max_eq_right hbc]
  unfold slice?
  rw [if_pos (by simp only [Bool.and_eq_true, decide_eq_true_eq]; omega), hdata]
  exact fromUTF8?_toByteArray _

theorem join_cons (first : String) (rest : List String) : String.join (first :: rest) = first ++ String.join rest := by
  rw [String.join_eq, String.join_eq, List.map_cons, List.flatten_cons, String.ofList_append, String.ofList_toList]

/-- The text of a line, with the line feed that ends it. -/
def lineOf (s : Source) (line : Nat) : String :=
  (s.slice? (s.lineStart line) (s.lineStart (line + 1))).getD ""

theorem Intact.lineText_eq (hs : s.Intact) (h0 : 0 < s.size) {line : Nat} (h1 : 1 ≤ line) (hl : line ≤ s.lineCount) :
    s.slice? (s.lineStart line) (s.lineStart (line + 1)) = some (s.lineOf line) ∧
      s.lineText line line = .ok (s.lineOf line) := by
  obtain ⟨text, hslice, htext⟩ := hs.exists_lineText h0 h1 (Nat.le_succ line) hl
  rw [lineOf, hslice]
  exact ⟨rfl, htext⟩

/-- Lines one after the other make up the text between the first and the last of them. -/
theorem Intact.slice?_lines (hs : s.Intact) (h0 : 0 < s.size) (n : Nat) {first : Nat} (h1 : 1 ≤ first)
    (hn : first + n ≤ s.lineCount + 1) :
    s.slice? (s.lineStart first) (s.lineStart (first + n)) =
      some (String.join ((List.range' first n).map s.lineOf)) := by
  induction n generalizing first with
  | zero => exact slice?_self (hs.le_size (hs.isBoundary_lineStart first))
  | succ n ih =>
    have hline := (hs.lineText_eq h0 h1 (by omega)).1
    have hrest := ih (Nat.le_add_left 1 first) (by omega)
    rw [Nat.add_right_comm, Nat.add_assoc] at hrest
    rw [slice?_append hline hrest, List.range'_succ, List.map_cons, join_cons]

/-! ## The table -/

/-- The lines of a table, against the octets of its text. -/
structure LineTable (s : Source) : Prop where
  /-- The spans of the lines follow each other from the start of the text to its end. None is empty, and each ends just
  after a line feed or with the text. -/
  spans : ∃ spans, (List.range' 1 s.lineCount).map (fun line => s.span line line) = spans.map .ok ∧
    Tiles 0 s.size spans ∧
      ∀ span ∈ spans, span.1 < span.2 ∧ (s.octets[span.2 - 1]? = some lineFeed ∨ span.2 = s.size)
  /-- The texts of the lines make up the text. -/
  texts : ∃ texts, (List.range' 1 s.lineCount).map (fun line => s.lineText line line) = texts.map .ok ∧
    String.join texts = s.text
  /-- Several lines are together what each of them is. -/
  union : ∀ i j, 1 ≤ i → i ≤ j → ∀ x, s.Covers i j x ↔ ∃ line, i ≤ line ∧ line ≤ j ∧ s.Covers line line x
  /-- There is a span from every line of the text on, and from no other. -/
  isOk : ∀ i j, 1 ≤ i → i ≤ j → ((∃ span, s.span i j = .ok span) ↔ i ≤ s.lineCount)
  /-- An offset lies on one line, the one after as many lines as there are line feeds before the offset. -/
  lineAt : ∀ x < s.size, (∀ line, s.Covers line line x ↔ line = s.lineAt x) ∧ s.lineAt x = s.row x + 1
  /-- The starts up to an offset come before those behind it, and the line of the offset is where they part. -/
  parted : ∀ x < s.size, ∀ k start, s.starts[k]? = some start → (start ≤ x ↔ k < s.lineAt x)

theorem Intact.spans_tile (hs : s.Intact) (h0 : 0 < s.size) :
    ∃ spans, (List.range' 1 s.lineCount).map (fun line => s.span line line) = spans.map .ok ∧
      Tiles 0 s.size spans ∧
        ∀ span ∈ spans, span.1 < span.2 ∧ (s.octets[span.2 - 1]? = some lineFeed ∨ span.2 = s.size) := by
  refine ⟨(List.range' 1 s.lineCount).map fun line => (s.lineStart line, s.lineStart (line + 1)), ?_, ?_, ?_⟩
  · rw [List.map_map]
    refine List.map_congr_left fun line hline => ?_
    obtain ⟨h1, hl⟩ := List.mem_range'_1.mp hline
    exact span_eq h0 line h1 (by omega)
  · have htiles := s.tiles_lines 1 s.lineCount
    rwa [hs.lineStart_one, Nat.add_comm, lineStart_end h0] at htiles
  · intro span hspan
    obtain ⟨line, hline, rfl⟩ := List.mem_map.mp hspan
    obtain ⟨h1, hl⟩ := List.mem_range'_1.mp hline
    exact ⟨hs.lineStart_lt h0 h1 (Nat.lt_add_one line) (by omega), hs.line_ends h0 h1 (by omega)⟩

theorem Intact.texts_join (hs : s.Intact) (h0 : 0 < s.size) :
    ∃ texts, (List.range' 1 s.lineCount).map (fun line => s.lineText line line) = texts.map .ok ∧
      String.join texts = s.text := by
  refine ⟨(List.range' 1 s.lineCount).map s.lineOf, ?_, ?_⟩
  · rw [List.map_map]
    refine List.map_congr_left fun line hline => ?_
    obtain ⟨h1, hl⟩ := List.mem_range'_1.mp hline
    exact (hs.lineText_eq h0 h1 (by omega)).2
  · have hall := hs.slice?_lines h0 s.lineCount (Nat.le_refl 1) (by omega)
    rw [hs.lineStart_one, Nat.add_comm, lineStart_end h0] at hall
    have hdata := (toByteArray_of_slice? hall).1
    have hoctets : s.octets = s.text.toByteArray.data := congrArg octets hs
    rw [size, Array.extract_size, hoctets] at hdata
    exact String.toByteArray_inj.mp (ByteArray.ext hdata)

/-- An offset of the text lies on its line and on no other. -/
theorem Intact.covers_self_iff (hs : s.Intact) {x : Nat} (hx : x < s.size) (line : Nat) :
    s.Covers line line x ↔ line = s.lineAt x := by
  have hpos := s.one_le_lineAt x
  rcases Nat.eq_zero_or_pos line with rfl | h1
  · refine iff_of_false ?_ (by omega)
    rintro ⟨_, _, hspan, -⟩
    cases hspan
  · rw [hs.covers_iff (Nat.zero_lt_of_lt hx) h1]
    omega

theorem Intact.covers_union (hs : s.Intact) (h0 : 0 < s.size) {i : Nat} (h1 : 1 ≤ i) (j x : Nat) :
    s.Covers i j x ↔ ∃ line, i ≤ line ∧ line ≤ j ∧ s.Covers line line x := by
  rw [hs.covers_iff h0 h1]
  constructor
  · rintro ⟨hx, hi, hj⟩
    exact ⟨_, hi, hj, (hs.covers_self_iff hx _).mpr rfl⟩
  · rintro ⟨line, hi, hj, hline⟩
    obtain ⟨hx, hle, hge⟩ := (hs.covers_iff h0 (Nat.le_trans h1 hi) line x).mp hline
    omega

theorem exists_span_iff (h0 : 0 < s.size) {i : Nat} (h1 : 1 ≤ i) (j : Nat) :
    (∃ span, s.span i j = .ok span) ↔ i ≤ s.lineCount := by
  constructor
  · rintro ⟨span, hspan⟩
    refine Nat.le_of_not_lt fun hlt => ?_
    rw [span_of_lt h0 j hlt] at hspan
    cases hspan
  · exact fun hi => ⟨_, span_eq h0 j h1 hi⟩

theorem Intact.starts_parted (hs : s.Intact) {x : Nat} (hx : x < s.size) {k start : Nat}
    (hk : s.starts[k]? = some start) : start ≤ x ↔ k < s.lineAt x := by
  have h0 : 0 < s.size := Nat.zero_lt_of_lt hx
  obtain ⟨hlt, -⟩ := Array.getElem?_eq_some_iff.mp hk
  have hstart : s.lineStart (k + 1) = start := by
    rw [lineStart, Nat.add_sub_cancel, hk]
    rfl
  rw [← hstart, hs.lineStart_le_iff h0 (Nat.le_add_left 1 k) (by rw [lineCount_eq h0]; exact hlt) hx]
  rfl

/-- The lines of every text that is not empty tile it, and agree with its line feeds. -/
theorem lineTable_ofString (text : String) (h : text ≠ "") : LineTable (ofString text) := by
  have hs := intact_ofString text
  have h0 : 0 < (ofString text).size := by
    refine Nat.pos_of_ne_zero fun hzero => h ?_
    exact String.utf8ByteSize_eq_zero_iff.mp hzero
  exact {
    spans := hs.spans_tile h0
    texts := hs.texts_join h0
    union := fun i j h1 _ x => hs.covers_union h0 h1 j x
    isOk := fun i j h1 _ => exists_span_iff h0 h1 j
    lineAt := fun x hx => ⟨hs.covers_self_iff hx, hs.lineAt_eq_row hx⟩
    parted := fun x hx k start => hs.starts_parted hx }

/-- Two lines, the second of them empty but for its line feed. -/
theorem lineTable_ofString_feeds :
    "ä\n\n" ≠ "" ∧ LineTable (ofString "ä\n\n") ∧ (ofString "ä\n\n").lineCount = 2 :=
  ⟨by decide, lineTable_ofString _ (by decide), by decide⟩

end CodeIndex.Source
