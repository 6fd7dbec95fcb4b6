import Mathlib.Data.List.TakeWhile
import CodeIndex.Text.Blank
import CodeIndex.Text.Lines

/-!
# Blanks and lines

Trimming takes blanks from both ends and nothing else. Where two texts meet, the last line of the first goes on with
the first line of the second (`splitAt_append`), so that blanks around a text add nothing to its trimmed lines but
empty ones (`exists_trimmed_lines`).
-/

namespace CodeIndex.Text

/-! ## Trimming -/

theorem trimChars_of_forall {cs : List Char} (h : ∀ c ∈ cs, isBlank c = false) : trimChars cs = cs := by
  have hdrop : ∀ ds : List Char, (∀ c ∈ ds, isBlank c = false) → ds.dropWhile isBlank = ds := by
    intro ds hds
    refine List.dropWhile_eq_self_iff.mpr fun hl => ?_
    simp [hds _ (List.getElem_mem hl)]
  unfold trimChars dropBlanksEnd dropBlanks
  rw [hdrop cs h, hdrop cs.reverse fun c hc => h c (List.mem_reverse.mp hc), List.reverse_reverse]

/-- A text is its trimmed form and blanks. -/
theorem exists_blanks_dropBlanksEnd (cs : List Char) :
    ∃ tail, cs = dropBlanksEnd cs ++ tail ∧ ∀ c ∈ tail, isBlank c = true := by
  refine ⟨(cs.reverse.takeWhile isBlank).reverse, ?_, fun c hc => ?_⟩
  · rw [dropBlanksEnd, ← List.reverse_append, List.takeWhile_append_dropWhile, List.reverse_reverse]
  · exact List.all_eq_true.mp List.all_takeWhile c (List.mem_reverse.mp hc)

theorem exists_blanks_trimChars (cs : List Char) :
    ∃ front back, cs = front ++ (trimChars cs ++ back) ∧ (∀ c ∈ front, isBlank c = true) ∧
      ∀ c ∈ back, isBlank c = true := by
  obtain ⟨back, hback, hblank⟩ := exists_blanks_dropBlanksEnd (dropBlanks cs)
  refine ⟨cs.takeWhile isBlank, back, ?_, List.all_eq_true.mp List.all_takeWhile, hblank⟩
  rw [trimChars, ← hback, dropBlanks, List.takeWhile_append_dropWhile]

theorem trimChars_append_left {blanks : List Char} (h : ∀ c ∈ blanks, isBlank c = true) (cs : List Char) :
    trimChars (blanks ++ cs) = trimChars cs := by
  rw [trimChars, dropBlanks, List.dropWhile_append_of_pos h]
  rfl

theorem dropBlanksEnd_append {blanks : List Char} (h : ∀ c ∈ blanks, isBlank c = true) (cs : List Char) :
    dropBlanksEnd (cs ++ blanks) = dropBlanksEnd cs := by
  rw [dropBlanksEnd, List.reverse_append,
    List.dropWhile_append_of_pos fun c hc => h c (List.mem_reverse.mp hc)]
  rfl

theorem trimChars_append_right {blanks : List Char} (h : ∀ c ∈ blanks, isBlank c = true) (cs : List Char) :
    trimChars (cs ++ blanks) = trimChars cs := by
  unfold trimChars dropBlanks
  rw [List.dropWhile_append]
  split
  · next hempty => rw [List.dropWhile_eq_nil_iff.mpr h, List.isEmpty_iff.mp hempty]
  · exact dropBlanksEnd_append h _

theorem trimChars_of_blank {cs : List Char} (h : ∀ c ∈ cs, isBlank c = true) : trimChars cs = [] := by
  have hempty : trimChars [] = [] := rfl
  simpa [hempty] using trimChars_append_left h []

/-- A trimmed text does not end with a blank. -/
theorem isBlank_of_trimChars_eq {cs front : List Char} {c : Char} (h : trimChars cs = front ++ [c]) :
    isBlank c = false := by
  have hhead := List.head?_dropWhile_not isBlank (dropBlanks cs).reverse
  have hreverse : (dropBlanks cs).reverse.dropWhile isBlank = c :: front.reverse := by
    have := congrArg List.reverse h
    rwa [trimChars, dropBlanksEnd, List.reverse_reverse, List.reverse_append, List.reverse_singleton] at this
  rw [hreverse] at hhead
  exact hhead

theorem trim_ne_empty_of_trimChars_eq {cs front rest : List Char} {c : Char}
    (h : trimChars cs = front ++ c :: rest) (hc : isBlank c = true) : trimChars rest ≠ [] := by
  intro hempty
  obtain ⟨blanks, back, hrest, hfront, hback⟩ := exists_blanks_trimChars rest
  rw [hempty, List.nil_append] at hrest
  have hblank : ∀ d ∈ c :: rest, isBlank d = true := by
    intro d hd
    rcases List.mem_cons.mp hd with rfl | hd
    · exact hc
    · rw [hrest] at hd
      exact (List.mem_append.mp hd).elim (hfront d) (hback d)
  obtain ⟨init, last, hlast⟩ := List.eq_nil_or_concat (c :: rest) |>.resolve_left (List.cons_ne_nil c rest)
  have hend : isBlank last = false :=
    isBlank_of_trimChars_eq (h.trans (by rw [hlast, List.concat_eq_append, ← List.append_assoc]))
  rw [hblank last (by rw [hlast]; simp)] at hend
  cases hend

/-! ## Lines -/

theorem exists_blanks_dropReturn (cs : List Char) :
    ∃ tail, cs = dropReturn cs ++ tail ∧ ∀ c ∈ tail, isBlank c = true := by
  unfold dropReturn
  split
  · next hlast =>
    obtain ⟨front, rfl⟩ := List.getLast?_eq_some_iff.mp hlast
    refine ⟨['\r'], by simp, fun c hc => ?_⟩
    obtain rfl := List.mem_singleton.mp hc
    rfl
  · exact ⟨[], by simp, List.forall_mem_nil _⟩

theorem trimChars_dropReturn (cs : List Char) : trimChars (dropReturn cs) = trimChars cs := by
  obtain ⟨tail, hsplit, hblank⟩ := exists_blanks_dropReturn cs
  rw [← trimChars_append_right hblank (dropReturn cs), ← hsplit]

theorem exists_splitAt (sep : Char) (cs : List Char) :
    ∃ parts, splitAt sep cs = cs.takeWhile (· != sep) :: parts := by
  induction cs with
  | nil => exact ⟨[], rfl⟩
  | cons c rest ih =>
    obtain ⟨parts, hparts⟩ := ih
    rw [splitAt, hparts]
    by_cases hc : c = sep
    · exact ⟨_, by simp [hc]; rfl⟩
    · exact ⟨parts, by simp [hc]⟩

theorem splitAt_ne_nil (sep : Char) (cs : List Char) : splitAt sep cs ≠ [] := by
  obtain ⟨parts, hparts⟩ := exists_splitAt sep cs
  rw [hparts]
  exact List.cons_ne_nil _ _

theorem splitAt_cons (sep c : Char) {cs part : List Char} {parts : List (List Char)}
    (h : splitAt sep cs = part :: parts) :
    splitAt sep (c :: cs) = if c = sep then [] :: part :: parts else (c :: part) :: parts := by
  rw [splitAt, h]

/-- Where two texts meet, the last part of the first goes on with the first part of the second. -/
theorem splitAt_append (sep : Char) {xs ys a b : List Char} {front back : List (List Char)}
    (hx : splitAt sep xs = front ++ [a]) (hy : splitAt sep ys = b :: back) :
    splitAt sep (xs ++ ys) = front ++ (a ++ b) :: back := by
  induction xs generalizing front a with
  | nil =>
    obtain ⟨rfl, h⟩ : front = [] ∧ [a] = [[]] := by
      cases front with
      | nil => exact ⟨rfl, hx.symm⟩
      | cons part front => simp [splitAt] at hx
    obtain rfl := List.singleton_inj.mp h
    exact hy
  | cons c xs ih =>
    obtain ⟨part, parts, hparts⟩ := List.exists_cons_of_ne_nil (splitAt_ne_nil sep xs)
    rw [splitAt_cons sep c hparts] at hx
    split at hx
    · next hc =>
      -- a cut in front of the rest
      cases front with
      | nil => simp at hx
      | cons first front =>
        obtain ⟨rfl, hlater⟩ := List.cons.inj hx
        have hrest := ih (hparts.trans hlater)
        obtain ⟨p, ps, hp⟩ := List.exists_cons_of_ne_nil (splitAt_ne_nil sep (xs ++ ys))
        rw [List.cons_append, splitAt_cons sep c hp, if_pos hc, ← hp, hrest]
        rfl
    · next hc =>
      cases front with
      | nil =>
        obtain ⟨rfl, rfl⟩ := List.cons.inj hx
        have hrest := ih (show splitAt sep xs = [] ++ [part] from hparts)
        rw [List.cons_append, splitAt_cons sep c hrest, if_neg hc]
        rfl
      | cons first front =>
        obtain ⟨rfl, rfl⟩ := List.cons.inj hx
        have hrest := ih (show splitAt sep xs = (part :: front) ++ [a] from hparts)
        rw [List.cons_append, splitAt_cons sep c hrest, if_neg hc]
        rfl

theorem mem_of_mem_splitAt {sep c : Char} {cs part : List Char} (h : part ∈ splitAt sep cs) (hc : c ∈ part) :
    c ∈ cs := by
  induction cs generalizing part with
  | nil =>
    obtain rfl := List.mem_singleton.mp h
    exact hc
  | cons d cs ih =>
    obtain ⟨first, parts, hparts⟩ := List.exists_cons_of_ne_nil (splitAt_ne_nil sep cs)
    rw [hparts] at ih
    rw [splitAt_cons sep d hparts] at h
    split at h
    · rcases List.mem_cons.mp h with rfl | h
      · cases hc
      · exact List.mem_cons_of_mem d (ih h hc)
    · rcases List.mem_cons.mp h with rfl | h
      · rcases List.mem_cons.mp hc with rfl | hc
        · exact List.mem_cons_self
        · exact List.mem_cons_of_mem d (ih List.mem_cons_self hc)
      · exact List.mem_cons_of_mem d (ih (List.mem_cons_of_mem first h) hc)

/-- The first line goes up to the first line feed, but for a carriage return. -/
theorem exists_blanks_head_lineChars (cs : List Char) :
    ∃ tail, cs.takeWhile (· != '\n') = (lineChars cs).headD [] ++ tail ∧ ∀ c ∈ tail, isBlank c = true := by
  obtain ⟨parts, hparts⟩ := exists_splitAt '\n' cs
  unfold lineChars
  simp only [hparts]
  cases parts with
  | nil =>
    refine ⟨[], ?_, List.forall_mem_nil _⟩
    cases cs.takeWhile (· != '\n') <;> simp
  | cons part parts =>
    have hhead : ∀ last : List (List Char),
        (((cs.takeWhile (· != '\n') :: part :: parts).dropLast.map dropReturn) ++ last).headD [] =
          dropReturn (cs.takeWhile (· != '\n')) := fun last => rfl
    split
    · rw [← List.append_nil (List.map _ _), hhead]
      exact exists_blanks_dropReturn _
    · rw [← List.append_nil (List.map _ _), hhead]
      exact exists_blanks_dropReturn _
    · rw [hhead]
      exact exists_blanks_dropReturn _

/-! ## Trimmed lines -/

/-- Trimmed, the lines are the parts between line feeds, but for an empty one at the end. -/
theorem exists_map_trimChars_lineChars (cs : List Char) :
    ∃ n, (splitAt '\n' cs).map trimChars = (lineChars cs).map trimChars ++ List.replicate n [] := by
  obtain ⟨ended, last, hsplit⟩ := List.eq_nil_or_concat (splitAt '\n' cs) |>.resolve_left (splitAt_ne_nil '\n' cs)
  have hended : (ended.map dropReturn).map trimChars = ended.map trimChars := by
    rw [List.map_map]
    exact List.map_congr_left fun part _ => trimChars_dropReturn part
  unfold lineChars
  simp only [hsplit, List.concat_eq_append, List.getLast?_concat, List.dropLast_concat]
  cases last with
  | nil => exact ⟨1, by simp [hended, trimChars_of_blank]⟩
  | cons c last => exact ⟨0, by simp [hended]⟩

theorem map_trimChars_of_blank {parts : List (List Char)} (h : ∀ part ∈ parts, ∀ c ∈ part, isBlank c = true) :
    parts.map trimChars = List.replicate parts.length [] :=
  List.eq_replicate_of_mem
    (fun part hpart => by
      obtain ⟨part, hmem, rfl⟩ := List.mem_map.mp hpart
      exact trimChars_of_blank (h part hmem)) |>.trans (by rw [List.length_map])

/-- Blanks around a text add empty parts to its trimmed parts. -/
theorem exists_map_trimChars_splitAt {front back : List Char} (sep : Char) (cs : List Char)
    (hfront : ∀ c ∈ front, isBlank c = true) (hback : ∀ c ∈ back, isBlank c = true) :
    ∃ m n, (splitAt sep (front ++ (cs ++ back))).map trimChars =
      List.replicate m [] ++ ((splitAt sep cs).map trimChars ++ List.replicate n []) := by
  obtain ⟨before, a, ha⟩ :=
    List.eq_nil_or_concat (splitAt sep front) |>.resolve_left (splitAt_ne_nil sep front)
  obtain ⟨z, after, hz⟩ := List.exists_cons_of_ne_nil (splitAt_ne_nil sep back)
  obtain ⟨init, last, hlast⟩ :=
    List.eq_nil_or_concat (splitAt sep cs) |>.resolve_left (splitAt_ne_nil sep cs)
  rw [List.concat_eq_append] at ha hlast
  have hparts : ∀ part ∈ before ++ [a], ∀ c ∈ part, isBlank c = true := fun part hpart c hc =>
    hfront c (mem_of_mem_splitAt (ha ▸ hpart) hc)
  have hrest : ∀ part ∈ z :: after, ∀ c ∈ part, isBlank c = true := fun part hpart c hc =>
    hback c (mem_of_mem_splitAt (hz ▸ hpart) hc)
  have hmiddle : (splitAt sep (cs ++ back)).map trimChars =
      (splitAt sep cs).map trimChars ++ List.replicate after.length [] := by
    rw [splitAt_append sep hlast hz, hlast, List.map_append, List.map_cons,
      trimChars_append_right (hrest z List.mem_cons_self),
      map_trimChars_of_blank fun part hpart => hrest part (List.mem_cons_of_mem z hpart)]
    simp
  obtain ⟨first, parts, hfirst⟩ := List.exists_cons_of_ne_nil (splitAt_ne_nil sep (cs ++ back))
  refine ⟨before.length, after.length, ?_⟩
  rw [← hmiddle, splitAt_append sep ha hfirst, hfirst, List.map_append, List.map_cons, List.map_cons,
    trimChars_append_left (hparts a (by simp)),
    map_trimChars_of_blank fun part hpart => hparts part (List.mem_append_left _ hpart)]

/-- The trimmed lines of a text and those of the trimmed text differ in empty lines at the ends. -/
theorem exists_trimmed_lines (text : String) :
    ∃ m n k, (lines text).map trim ++ List.replicate k "" =
      List.replicate m "" ++ ((lines (trim text)).map trim ++ List.replicate n "") := by
  have hlines : ∀ s : String, (lines s).map trim = ((lineChars s.toList).map trimChars).map String.ofList := by
    intro s
    simp [lines, trim, Function.comp_def]
  obtain ⟨front, back, hsplit, hfront, hback⟩ := exists_blanks_trimChars text.toList
  obtain ⟨m, n, houter⟩ := exists_map_trimChars_splitAt '\n' (trimChars text.toList) hfront hback
  obtain ⟨k, hk⟩ := exists_map_trimChars_lineChars text.toList
  obtain ⟨j, hj⟩ := exists_map_trimChars_lineChars (trimChars text.toList)
  rw [← hsplit, hk, hj, List.append_assoc, List.replicate_append_replicate] at houter
  refine ⟨m, j + n, k, ?_⟩
  have := congrArg (List.map String.ofList) houter
  simpa [hlines, trim] using this

end CodeIndex.Text
