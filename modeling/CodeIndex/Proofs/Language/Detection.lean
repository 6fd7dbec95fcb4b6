import Mathlib.Data.List.Find
import CodeIndex.Proofs.Language.Registry
import CodeIndex.Proofs.Source.Characters
import CodeIndex.Proofs.Text.Lines

/-!
# Two ways to detect a language

A file is detected by one sign after the other: its extension, its name, its first line. A text is detected by the
sum of its signs. Where no file name belongs to two languages, both find the same language: the sums are then
ordered as the signs are (`contentScore_eq`), the first of equal sums counts (`bestScore_eq_some`), and the blanks
in which the two readings of the first line differ part no words (`matchesShebang_append`).
-/

namespace CodeIndex

/-! ## Words -/

namespace Text

theorem fieldsFrom_of_all {sep : Char → Bool} (word : List Char) {tail : List Char} (h : ∀ c ∈ tail, sep c = true) :
    fieldsFrom sep word tail = fieldsFrom sep word [] := by
  induction tail generalizing word with
  | nil => rfl
  | cons c tail ih =>
    have hrest := ih [] fun d hd => h d (List.mem_cons_of_mem c hd)
    simp only [fieldsFrom, h c List.mem_cons_self, if_true, hrest, List.isEmpty_nil]

/-- Separators at the end part no words. -/
theorem fields_append {sep : Char → Bool} (cs : List Char) {tail : List Char} (h : ∀ c ∈ tail, sep c = true) :
    fields sep (cs ++ tail) = fields sep cs := by
  unfold fields
  generalize ([] : List Char) = word
  induction cs generalizing word with
  | nil => exact fieldsFrom_of_all word h
  | cons c cs ih => simp only [List.cons_append, fieldsFrom, ih]

end Text

theorem firstLine?_toUTF8 (content : String) :
    firstLine? content.toUTF8.data.toList =
      some (Text.trimEnd (String.ofList (content.toList.takeWhile (· != '\n')))) := by
  have hoctets : content.toUTF8.data.toList = Source.encode content.toList := Source.toList_octets content
  rw [firstLine?, hoctets]
  refine (congrArg (fun line => (String.fromUTF8? ⟨line.toArray⟩).map Text.trimEnd) (Source.takeWhile_encode _)).trans ?_
  rw [Source.fromUTF8?_encode, Option.map_some]

/-! ## Signs of a language -/

namespace Language

variable {l : Language}

/-- Blanks at the end of an interpreter line do not count. -/
theorem matchesShebang_append (l : Language) (cs : List Char) {tail : List Char}
    (h : ∀ c ∈ tail, Text.isBlank c = true) :
    l.matchesShebang (String.ofList (cs ++ tail)) = l.matchesShebang (String.ofList cs) := by
  have hmark : ∀ c ∈ tail, c ≠ '#' ∧ c ≠ '!' := fun c hc => by
    constructor <;> rintro rfl <;> exact absurd (h _ hc) (by decide)
  unfold matchesShebang
  rw [String.toList_ofList, String.toList_ofList]
  match cs with
  | [] =>
    cases tail with
    | nil => rfl
    | cons c tail => simp [(hmark c List.mem_cons_self).1]
  | [c] =>
    cases tail with
    | nil => rfl
    | cons d tail => simp [(hmark d List.mem_cons_self).2]
  | c :: d :: cs =>
    have hwords : interpreterWords (cs ++ tail) = interpreterWords cs :=
      Text.fields_append cs fun e he => by rw [h e he, Bool.true_or]
    by_cases hc : c = '#'
    · by_cases hd : d = '!'
      · subst hc hd
        simp only [List.cons_append, hwords]
      · simp [hd]
    · simp [hc]

/-- A file and its text show the same interpreter line. -/
theorem matchesShebang_firstLine (l : Language) (content : String) :
    (Text.startsWith content "#!" && l.matchesShebang ((Text.lines content).headD "")) =
      l.matchesShebang (Text.trimEnd (String.ofList (content.toList.takeWhile (· != '\n')))) := by
  obtain ⟨tail, htail, hblank⟩ := Text.exists_blanks_head_lineChars content.toList
  obtain ⟨tail', htail', hblank'⟩ := Text.exists_blanks_dropBlanksEnd (content.toList.takeWhile (· != '\n'))
  have hhead : (Text.lines content).headD "" = String.ofList ((Text.lineChars content.toList).headD []) := by
    unfold Text.lines
    cases Text.lineChars content.toList <;> rfl
  have hline : l.matchesShebang ((Text.lines content).headD "") =
      l.matchesShebang (String.ofList (content.toList.takeWhile (· != '\n'))) := by
    rw [hhead, htail, matchesShebang_append l _ hblank]
  have htrimmed : l.matchesShebang (Text.trimEnd (String.ofList (content.toList.takeWhile (· != '\n')))) =
      l.matchesShebang (String.ofList (content.toList.takeWhile (· != '\n'))) := by
    rw [Text.trimEnd, String.toList_ofList]
    conv_rhs => rw [htail', matchesShebang_append l _ hblank']
  rw [hline, htrimmed]
  -- a line that names an interpreter starts as the content does
  cases hmatch : l.matchesShebang (String.ofList (content.toList.takeWhile (· != '\n'))) with
  | false => rw [Bool.and_false]
  | true =>
    rw [Bool.and_true]
    unfold matchesShebang at hmatch
    rw [String.toList_ofList] at hmatch
    split at hmatch
    · next rest hstart =>
      have hcontent : content.toList =
          '#' :: '!' :: (rest ++ content.toList.dropWhile (· != '\n')) := by
        rw [← List.cons_append, ← List.cons_append, ← hstart, List.takeWhile_append_dropWhile]
      rw [Text.startsWith, hcontent]
      simp [Text.dropFront?]
    · cases hmatch

/-- The sum of the signs where the extension is none. -/
def signWeight (fromName fromShebang : Bool) : Single :=
  match fromName, fromShebang with
  | false, false => .zero
  | false, true => shebangWeight
  | true, false => nameWeight
  | true, true => nameWeight.add shebangWeight

theorem contentScore_eq {path : String} (h : l.hasExtension path = false) (content : String) :
    l.contentScore content (some path) =
      signWeight (l.hasFilename path)
        (l.matchesShebang (Text.trimEnd (String.ofList (content.toList.takeWhile (· != '\n'))))) := by
  unfold contentScore
  simp only [Option.map_some, Option.getD_some, h, matchesShebang_firstLine]
  cases l.hasFilename path <;>
    cases l.matchesShebang (Text.trimEnd (String.ofList (content.toList.takeWhile (· != '\n')))) <;> decide +kernel

/-- A file name weighs more than an interpreter line. -/
theorem signWeight_filename (a b : Bool) :
    Single.lt (signWeight false a) (signWeight true b) = true ∧
      Single.lt (signWeight true b) (signWeight false a) = false := by
  cases a <;> cases b <;> decide +kernel

/-- One sign is enough. -/
theorem signWeight_enough {a b : Bool} (h : (a || b) = true) :
    Single.lt .zero (signWeight a b) = true ∧ Single.lt (signWeight a b) shebangWeight = false := by
  cases a with
  | true => cases b <;> decide +kernel
  | false =>
    obtain rfl : b = true := by simpa using h
    decide +kernel

end Language

/-! ## The best score -/

namespace Registry

theorem better_of_lt {best : Option (Language × Single)} {l : Language} {score : Single}
    (hpositive : Single.lt .zero score = true) (hbest : ∀ b ∈ best, Single.lt b.2 score = true) :
    better best l score = some (l, score) := by
  cases best with
  | none => rw [better, if_pos hpositive]
  | some b => rw [better, if_pos (hbest b rfl)]

theorem better_of_not_lt {b l : Language} {s score : Single} (h : Single.lt s score = false) :
    better (some (b, s)) l score = some (b, s) := by
  rw [better, if_neg (by simp [h])]

/-- The better one is one of the two. -/
theorem better_cases (best : Option (Language × Single)) (l : Language) (score : Single) :
    better best l score = some (l, score) ∨ better best l score = best := by
  cases best with
  | none =>
    rw [better]
    split
    · exact .inl rfl
    · exact .inr rfl
  | some b =>
    rw [better]
    split
    · exact .inl rfl
    · exact .inr rfl

/-- A language wins that has more than any before it and not less than any behind it. -/
theorem bestScore_eq_some {content : String} {filename : Option String} {l : Language} {front back : List Language}
    {best : Option (Language × Single)} (hbest : ∀ b ∈ best, Single.lt b.2 (l.contentScore content filename) = true)
    (hpositive : Single.lt .zero (l.contentScore content filename) = true)
    (hfront : ∀ m ∈ front, Single.lt (m.contentScore content filename) (l.contentScore content filename) = true)
    (hback : ∀ m ∈ back, Single.lt (l.contentScore content filename) (m.contentScore content filename) = false) :
    bestScore content filename best (front ++ l :: back) = some (l, l.contentScore content filename) := by
  unfold bestScore
  induction front generalizing best with
  | nil =>
    rw [List.nil_append, List.foldl_cons, better_of_lt hpositive hbest]
    clear hbest
    induction back with
    | nil => rfl
    | cons m back ih =>
      rw [List.foldl_cons, better_of_not_lt (hback m List.mem_cons_self)]
      exact ih fun n hn => hback n (List.mem_cons_of_mem m hn)
  | cons m front ih =>
    rw [List.cons_append, List.foldl_cons]
    refine ih (fun b hb => ?_) fun n hn => hfront n (List.mem_cons_of_mem m hn)
    rcases better_cases best m (m.contentScore content filename) with heq | heq
    · rw [heq] at hb
      cases hb
      exact hfront m List.mem_cons_self
    · exact hbest b (heq ▸ hb)

theorem bestScore_eq_none {content : String} {filename : Option String} {languages : List Language}
    (h : ∀ m ∈ languages, Single.lt .zero (m.contentScore content filename) = false) :
    bestScore content filename none languages = none := by
  unfold bestScore
  induction languages with
  | nil => rfl
  | cons m rest ih =>
    rw [List.foldl_cons, better, if_neg (by simp [h m List.mem_cons_self])]
    exact ih fun n hn => h n (List.mem_cons_of_mem m hn)

/-! ## Agreement -/

variable {r : Registry} {path : String}

/-- A known extension leads to the earliest language that lists it. -/
theorem Indexed.byExtension?_eq (h : r.Indexed) (path : String) :
    r.byExtension? path = r.languages.find? (·.hasExtension path) := by
  unfold byExtension? Language.hasExtension
  cases Language.extensionOf? path with
  | none => exact (List.find?_eq_none.mpr fun l _ => Bool.false_ne_true).symm
  | some ext =>
    rw [Option.bind_some, h.lookup_extensions, placeOfExtension]
    exact List.find?_eq_bind_findIdx?_getElem?.symm

/-- No file name is listed by two languages. -/
def FilenamesApart (r : Registry) : Prop :=
  r.languages.Pairwise fun a b => ∀ name ∈ a.filenames, name ∉ b.filenames

instance : Decidable r.FilenamesApart :=
  inferInstanceAs (Decidable (List.Pairwise _ _))

theorem hasFilename_apart {a b : Language} (h : ∀ name ∈ a.filenames, name ∉ b.filenames)
    (ha : a.hasFilename path = true) : b.hasFilename path = false := by
  unfold Language.hasFilename at *
  cases hname : Path.fileName? path with
  | none => rfl
  | some name =>
    rw [hname] at ha
    exact Bool.eq_false_iff.mpr fun hb => h name (List.contains_iff_mem.mp ha) (List.contains_iff_mem.mp hb)

section Signs

variable {content line : String} {l : Language} (hunknown : r.byExtension? path = none)
  (hscore : ∀ m ∈ r.languages,
    m.contentScore content (some path) = Language.signWeight (m.hasFilename path) (m.matchesShebang line))

include hunknown hscore

/-- A language with a sign is detected if none before it has as much and none behind it more. -/
theorem detectContent?_eq_some {front back : List Language} (hsplit : r.languages = front ++ l :: back)
    (hsign : (l.hasFilename path || l.matchesShebang line) = true)
    (hfront : ∀ m ∈ front,
      Single.lt (Language.signWeight (m.hasFilename path) (m.matchesShebang line))
        (Language.signWeight (l.hasFilename path) (l.matchesShebang line)) = true)
    (hback : ∀ m ∈ back,
      Single.lt (Language.signWeight (l.hasFilename path) (l.matchesShebang line))
        (Language.signWeight (m.hasFilename path) (m.matchesShebang line)) = false) :
    (r.detectContent? content (some path)).map (·.language) = some l.name := by
  have hmem : ∀ m ∈ front ++ l :: back, m ∈ r.languages := fun m hm => hsplit ▸ hm
  have hl := hscore l (hmem l (by simp))
  obtain ⟨hpositive, henough⟩ := Language.signWeight_enough hsign
  unfold detectContent?
  rw [Option.bind_some, hunknown, hsplit, bestScore_eq_some (l := l) (fun b hb => absurd hb (Option.not_mem_none b))]
  · simp only [hl, henough, Bool.false_eq_true, if_false, Option.map_some]
  · rw [hl, hpositive]
  · intro m hm
    rw [hl, hscore m (hmem m (by simp [hm])), hfront m hm]
  · intro m hm
    rw [hl, hscore m (hmem m (by simp [hm])), hback m hm]

theorem detectContent?_of_filename (hapart : r.FilenamesApart)
    (hfind : r.languages.find? (·.hasFilename path) = some l) :
    (r.detectContent? content (some path)).map (·.language) = some l.name := by
  obtain ⟨hl, front, back, hsplit, hfront⟩ := List.find?_eq_some_iff_append.mp hfind
  rw [FilenamesApart, hsplit, List.pairwise_append, List.pairwise_cons] at hapart
  refine detectContent?_eq_some hunknown hscore hsplit (by rw [hl, Bool.true_or]) (fun m hm => ?_) fun m hm => ?_
  · have hm' : m.hasFilename path = false := by simpa using hfront m hm
    rw [hm', hl]
    exact (Language.signWeight_filename _ _).1
  · rw [hasFilename_apart (hapart.2.1.1 m hm) hl, hl]
    exact (Language.signWeight_filename _ _).2

variable (hunnamed : ∀ m ∈ r.languages, m.hasFilename path = false)

include hunnamed

theorem detectContent?_of_shebang (hfind : r.languages.find? (·.matchesShebang line) = some l) :
    (r.detectContent? content (some path)).map (·.language) = some l.name := by
  obtain ⟨hl, front, back, hsplit, hfront⟩ := List.find?_eq_some_iff_append.mp hfind
  have hmem : ∀ m ∈ front ++ l :: back, m.hasFilename path = false := fun m hm => hunnamed m (hsplit ▸ hm)
  refine detectContent?_eq_some hunknown hscore hsplit (by rw [hl, Bool.or_true]) (fun m hm => ?_) fun m hm => ?_
  · have hm' : m.matchesShebang line = false := by simpa using hfront m hm
    rw [hmem m (by simp [hm]), hmem l (by simp), hm', hl]
    decide +kernel
  · rw [hmem m (by simp [hm]), hmem l (by simp), hl]
    cases m.matchesShebang line <;> decide +kernel

theorem detectContent?_eq_none (hfind : r.languages.find? (·.matchesShebang line) = none) :
    r.detectContent? content (some path) = none := by
  have hzero : ∀ m ∈ r.languages, Single.lt .zero (m.contentScore content (some path)) = false := by
    intro m hm
    rw [hscore m hm, hunnamed m hm, Bool.eq_false_iff.mpr (List.find?_eq_none.mp hfind m hm)]
    decide +kernel
  simp [detectContent?, hunknown, bestScore_eq_none hzero]

end Signs

/-- Where no file name is listed twice, a file and its text are of one language. -/
theorem Indexed.detect?_eq (h : r.Indexed) (hapart : r.FilenamesApart) (path content : String) :
    (r.detect? path (firstLine? content.toUTF8.data.toList)).map (·.name) =
      (r.detectContent? content (some path)).map (·.language) := by
  unfold detect?
  cases hunknown : r.byExtension? path with
  | some l => simp [detectContent?, hunknown]
  | none =>
    have hextension : ∀ l ∈ r.languages, l.hasExtension path = false := by
      rw [h.byExtension?_eq, List.find?_eq_none] at hunknown
      exact fun l hl => Bool.eq_false_iff.mpr (hunknown l hl)
    have hscore := fun l hl => Language.contentScore_eq (hextension l hl) content
    rw [Option.none_or, firstLine?_toUTF8]
    generalize Text.trimEnd (String.ofList (content.toList.takeWhile (· != '\n'))) = line at hscore ⊢
    cases hnamed : r.languages.find? (·.hasFilename path) with
    | some l => rw [Option.some_or, Option.map_some, detectContent?_of_filename hunknown hscore hapart hnamed]
    | none =>
      have hunnamed : ∀ l ∈ r.languages, l.hasFilename path = false := fun l hl =>
        Bool.eq_false_iff.mpr (List.find?_eq_none.mp hnamed l hl)
      -- only the first line is left as a sign
      have hfirst : r.languages.find? (·.matchesPath path (some line)) = r.languages.find? (·.matchesShebang line) :=
        List.find?_congr fun l hl => by simp [Language.matchesPath, hextension l hl, hunnamed l hl]
      rw [Option.none_or, hfirst]
      cases hshebang : r.languages.find? (·.matchesShebang line) with
      | some l => rw [Option.map_some, detectContent?_of_shebang hunknown hscore hunnamed hshebang]
      | none =>
        rw [detectContent?_eq_none hunknown hscore hunnamed hshebang]
        rfl

/-- The built-in registry lists no file name twice. In every registry that does not, however it came about, the
language of a file and the one of its text are the same, for every path and content. -/
theorem detectors_agree :
    (builtin = after (Catalog.languages.map fun l => .register l [] []) ∧ builtin.FilenamesApart) ∧
      ∀ changes, (after changes).FilenamesApart → ∀ path content : String,
        ((after changes).detect? path (firstLine? content.toUTF8.data.toList)).map (·.name) =
          ((after changes).detectContent? content (some path)).map (·.language) := by
  refine ⟨⟨?_, by decide +kernel⟩, fun changes hapart path content => ?_⟩
  · rw [builtin, after, List.foldl_map]
    rfl
  · exact (indexed_after changes).detect?_eq hapart path content

/-- The name of a file goes before its first line, also where the line ends in a carriage return. -/
theorem detectors_agree_gemfile :
    builtin.FilenamesApart ∧
      (builtin.detect? "src/Gemfile" (firstLine? "#!/bin/bash\r\n".toUTF8.data.toList)).map (·.name) = some "ruby" ∧
      (builtin.detectContent? "#!/bin/bash\r\n" (some "src/Gemfile")).map (·.language) = some "ruby" := by
  have hbuiltin := detectors_agree.1
  have hagree := detectors_agree.2 (Catalog.languages.map fun l => .register l [] [])
  rw [← hbuiltin.1] at hagree
  have hfile : (builtin.detect? "src/Gemfile" (firstLine? "#!/bin/bash\r\n".toUTF8.data.toList)).map (·.name) =
      some "ruby" := by decide +kernel
  exact ⟨hbuiltin.2, hfile, hagree hbuiltin.2 _ _ ▸ hfile⟩

end Registry

end CodeIndex
