import CodeIndex.Enrichment.Hover
import CodeIndex.Proofs.Text.Lines
import CodeIndex.Proofs.Text.Matching

/-!
# The signature in a hover text

A hover text has lines of code, and behind the first rule of dashes its documentation. The signature is meant to be
the first line of a call, or else the first annotation. It is read as the first line of either kind, so that the two
agree exactly if no annotation stands before the first call (`signature_by_priority_iff`).
-/

namespace CodeIndex.Hover

/-! ## What a hover text says -/

/-- The trimmed lines of a text without the fences of code. -/
def shownLines (text : String) : List String :=
  ((Text.lines text).map Text.trim).filter (!Text.startsWith · "\x60\x60\x60")

/-- The lines before the first rule. -/
def codeLines (text : String) : List String :=
  (shownLines text).takeWhile (!isRule ·)

/-- What stands behind the first rule, other rules left out. -/
def documentation (text : String) : Option String :=
  let doc := Text.trim ("\n".intercalate (((shownLines text).dropWhile (!isRule ·)).filter (!isRule ·)))
  if doc = "" then none else some doc

def isAnnotation (line : String) : Bool :=
  Text.contains line ":" && !Text.startsWith line "#"

/-- The text behind the last occurrence of `needle`. -/
def AfterLast (needle line rest : String) : Prop :=
  ∃ front, line = front ++ (needle ++ rest) ∧
    ∀ front' rest', line = front' ++ (needle ++ rest') → front'.length ≤ front.length

/-- The return type of the line of a call: behind the last arrow, or else behind the last parenthesis with a colon. -/
inductive Returns (line : String) : Option String → Prop where
  | arrow {rest : String} : AfterLast " -> " line rest → Text.trim rest ≠ "" → Returns line (some (Text.trim rest))
  | colon {rest : String} : Text.contains line " -> " = false → AfterLast "): " line rest → Text.trim rest ≠ "" →
      Returns line (some (Text.trim rest))
  | nothing : Text.contains line " -> " = false → Text.contains line "): " = false → Returns line none

/-- Calls before annotations: the first call is the signature, and the first annotation is where there is no call. -/
structure ByPriority (text : String) (info : HoverInfo) : Prop where
  call : ∀ line, (codeLines text).find? isCall = some line → info.signature = some line ∧ Returns line info.returnType
  annotation : (codeLines text).find? isCall = none → info.signature = (codeLines text).find? isAnnotation
  docstring : info.docstring = documentation text

/-- Whatever comes first: the signature is the first line that is a call or an annotation. -/
structure ByOrder (text : String) (info : HoverInfo) : Prop where
  signature : info.signature = (codeLines text).find? fun line => isCall line || isAnnotation line
  call : ∀ line, info.signature = some line → isCall line = true → Returns line info.returnType
  other : (∀ line, info.signature = some line → isCall line = false) → info.returnType = none
  docstring : info.docstring = documentation text

/-- An annotation stands before the first call. -/
def AnnotationLeads (text : String) : Prop :=
  ∃ front line back, codeLines text = front ++ line :: back ∧ isCall line = true ∧
    (∀ x ∈ front, isCall x = false) ∧ ∃ x ∈ front, isAnnotation x = true

/-! ## Empty lines -/

/-- The same lines but for empty ones at the ends. -/
def SameLines (xs ys : List String) : Prop :=
  ∃ m n k, xs ++ List.replicate k "" = List.replicate m "" ++ (ys ++ List.replicate n "")

theorem sameLines_shownLines (text : String) : SameLines (shownLines text) (contentLines text) := by
  obtain ⟨m, n, k, h⟩ := Text.exists_trimmed_lines text
  refine ⟨m, n, k, ?_⟩
  have hfence : Text.startsWith "" "\x60\x60\x60" = false := by decide
  have := congrArg (List.filter (!Text.startsWith · "\x60\x60\x60")) h
  simpa [shownLines, contentLines, List.filter_append, List.filter_replicate, hfence] using this

theorem not_isRule_of_mem_replicate (n : Nat) : ∀ x ∈ List.replicate n "", (!isRule x) = true := by
  intro x hx
  rw [List.eq_of_mem_replicate hx]
  decide

/-- A line that is not empty is the first of its kind with or without empty lines around. -/
theorem find?_padded {p : String → Bool} (hp : p "" = false) (m n : Nat) (xs : List String) :
    ((List.replicate m "" ++ (xs ++ List.replicate n "")).takeWhile (!isRule ·)).find? p =
      (xs.takeWhile (!isRule ·)).find? p := by
  have hnone : ∀ j, (List.replicate j "").find? p = none := fun j => by
    simp [hp]
  rw [List.takeWhile_append_of_pos (not_isRule_of_mem_replicate m), List.find?_append, hnone, Option.none_or,
    List.takeWhile_append]
  split
  · next hall =>
    have hxs : xs.takeWhile (!isRule ·) = xs := List.IsPrefix.eq_of_length (List.takeWhile_prefix _) hall
    rw [List.takeWhile_eq_self_iff.mpr (not_isRule_of_mem_replicate n), List.find?_append, hnone, Option.or_none,
      hxs]
  · rfl

theorem SameLines.find?_eq {xs ys : List String} (h : SameLines xs ys) {p : String → Bool} (hp : p "" = false) :
    (xs.takeWhile (!isRule ·)).find? p = (ys.takeWhile (!isRule ·)).find? p := by
  obtain ⟨m, n, k, h⟩ := h
  rw [← find?_padded hp 0 k xs, ← find?_padded hp m n ys, ← h]
  rfl

/-- An empty line at the end adds no more than a line feed. -/
theorem exists_intercalate_concat (lines : List String) :
    ∃ blanks, ("\n".intercalate (lines ++ [""])).toList = ("\n".intercalate lines).toList ++ blanks ∧
      ∀ c ∈ blanks, Text.isBlank c = true := by
  induction lines with
  | nil => exact ⟨[], rfl, List.forall_mem_nil _⟩
  | cons line rest ih =>
    cases rest with
    | nil =>
      refine ⟨['\n'], by simp, fun c hc => ?_⟩
      obtain rfl := List.mem_singleton.mp hc
      rfl
    | cons next rest =>
      obtain ⟨blanks, hjoin, hblank⟩ := ih
      refine ⟨blanks, ?_, hblank⟩
      simpa using hjoin

theorem trim_intercalate_padded (lines : List String) (n : Nat) :
    Text.trim ("\n".intercalate (lines ++ List.replicate n "")) = Text.trim ("\n".intercalate lines) := by
  induction n with
  | zero => rw [List.replicate_zero, List.append_nil]
  | succ n ih =>
    obtain ⟨blanks, hjoin, hblank⟩ := exists_intercalate_concat (lines ++ List.replicate n "")
    rw [List.replicate_succ', ← List.append_assoc, Text.trim, hjoin, Text.trimChars_append_right hblank]
    exact ih

theorem trim_documentation_padded (m n : Nat) (xs : List String) :
    Text.trim ("\n".intercalate
        (((List.replicate m "" ++ (xs ++ List.replicate n "")).dropWhile (!isRule ·)).filter (!isRule ·))) =
      Text.trim ("\n".intercalate ((xs.dropWhile (!isRule ·)).filter (!isRule ·))) := by
  rw [List.dropWhile_append_of_pos (not_isRule_of_mem_replicate m), List.dropWhile_append]
  split
  · next hnone => rw [List.dropWhile_eq_nil_iff.mpr (not_isRule_of_mem_replicate n), List.isEmpty_iff.mp hnone]
  · rw [List.filter_append, List.filter_eq_self.mpr (not_isRule_of_mem_replicate n), trim_intercalate_padded]

theorem SameLines.trim_documentation_eq {xs ys : List String} (h : SameLines xs ys) :
    Text.trim ("\n".intercalate ((xs.dropWhile (!isRule ·)).filter (!isRule ·))) =
      Text.trim ("\n".intercalate ((ys.dropWhile (!isRule ·)).filter (!isRule ·))) := by
  obtain ⟨m, n, k, h⟩ := h
  rw [← trim_documentation_padded 0 k xs, ← trim_documentation_padded m n ys, ← h]
  rfl

/-! ## Return types -/

theorem afterLast_of_cutLast? {line needle front rest : String} (h : Text.cutLast? line needle = some (front, rest)) :
    AfterLast needle line rest := by
  obtain ⟨⟨before, after⟩, hcut, hpair⟩ := Option.map_eq_some_iff.mp h
  obtain ⟨rfl, rfl⟩ := Prod.mk.inj hpair
  obtain ⟨hsplit, hlast⟩ := Text.cutLastChars?_eq_some hcut
  refine ⟨String.ofList before, String.ext (by simpa using hsplit), fun front' rest' hother => ?_⟩
  have := hlast front'.toList rest'.toList (by simp [hother])
  simpa [← String.length_toList] using this

theorem contains_eq_false_of_cutLast? {line needle : String} (h : Text.cutLast? line needle = none) :
    Text.contains line needle = false := by
  have hnone := Text.cutLastChars?_eq_none.mp (Option.map_eq_none_iff.mp h)
  rw [← Text.contains_iff] at hnone
  simpa using hnone

/-- A trimmed line has text behind an occurrence of what ends with a blank. -/
theorem AfterLast.trim_ne_empty {needle line rest : String} (h : AfterLast needle line rest) {cs : List Char}
    (hline : line = String.ofList (Text.trimChars cs)) (stem : List Char) (hneedle : needle.toList = stem ++ [' ']) :
    Text.trim rest ≠ "" := by
  obtain ⟨front, hsplit, -⟩ := h
  have hcs : Text.trimChars cs = (front.toList ++ stem) ++ ' ' :: rest.toList := by
    have := congrArg String.toList (hline.symm.trans hsplit)
    simpa [hneedle] using this
  have hne := Text.trim_ne_empty_of_trimChars_eq hcs rfl
  intro hempty
  exact hne (by simpa [Text.trim] using hempty)

/-- On a trimmed line the return type is read as it is stated. -/
theorem returns_returnTypeOf (cs : List Char) :
    Returns (String.ofList (Text.trimChars cs)) (returnTypeOf (String.ofList (Text.trimChars cs))) := by
  generalize hline : String.ofList (Text.trimChars cs) = line
  unfold returnTypeOf
  cases harrow : Text.cutLast? line " -> " with
  | some parts =>
    have hafter : AfterLast " -> " line parts.2 := afterLast_of_cutLast? harrow
    have hne := hafter.trim_ne_empty hline.symm [' ', '-', '>'] rfl
    rw [Option.some_or, Option.bind_some]
    simpa only [if_neg hne] using Returns.arrow hafter hne
  | none =>
    have hnoArrow := contains_eq_false_of_cutLast? harrow
    rw [Option.none_or]
    cases hcolon : Text.cutLast? line "): " with
    | some parts =>
      have hafter : AfterLast "): " line parts.2 := afterLast_of_cutLast? hcolon
      have hne := hafter.trim_ne_empty hline.symm [')', ':'] rfl
      rw [Option.bind_some]
      simpa only [if_neg hne] using Returns.colon hnoArrow hafter hne
    | none => exact .nothing hnoArrow (contains_eq_false_of_cutLast? hcolon)

theorem exists_trimChars_of_mem_codeLines {text line : String} (h : line ∈ codeLines text) :
    ∃ cs, line = String.ofList (Text.trimChars cs) := by
  have hshown := List.mem_of_mem_filter ((List.takeWhile_prefix _).mem h)
  obtain ⟨raw, -, rfl⟩ := List.mem_map.mp hshown
  exact ⟨raw.toList, rfl⟩

/-! ## The signature -/

theorem isSignature_eq : isSignature = fun line => isCall line || isAnnotation line := rfl

theorem signature_parse (text : String) :
    (parse text).signature = (codeLines text).find? fun line => isCall line || isAnnotation line := by
  have hempty : (isCall "" || isAnnotation "") = false := by decide
  have hsame := (sameLines_shownLines text).find?_eq (p := fun line => isCall line || isAnnotation line) hempty
  simp only [parse, codeLines, isSignature_eq, hsame]

theorem docstring_parse (text : String) : (parse text).docstring = documentation text := by
  unfold parse documentation
  rw [(sameLines_shownLines text).trim_documentation_eq]

theorem returnType_parse (text : String) :
    (parse text).returnType = ((parse text).signature.filter isCall).bind returnTypeOf := by
  simp only [parse]

/-- A hover text is read line by line. -/
theorem byOrder_parse (text : String) : ByOrder text (parse text) where
  signature := signature_parse text
  call line hline hcall := by
    have hmem : line ∈ codeLines text := List.mem_of_find?_eq_some ((signature_parse text).symm.trans hline)
    obtain ⟨cs, rfl⟩ := exists_trimChars_of_mem_codeLines hmem
    rw [returnType_parse, hline, Option.filter_some, if_pos hcall]
    exact returns_returnTypeOf cs
  other hother := by
    rw [returnType_parse]
    cases hline : (parse text).signature with
    | none => rfl
    | some line => simp [hother line hline]
  docstring := docstring_parse text

/-- Before the first call, the lines of either kind are the annotations. -/
theorem find?_either_of_forall {front : List String} (h : ∀ x ∈ front, isCall x = false) :
    front.find? (fun line => isCall line || isAnnotation line) = front.find? isAnnotation := by
  induction front with
  | nil => rfl
  | cons x rest ih =>
    rw [List.find?_cons, List.find?_cons, h x List.mem_cons_self, Bool.false_or,
      ih fun y hy => h y (List.mem_cons_of_mem x hy)]

/-- Every hover text is read in the order of its lines, and this gives calls their priority exactly if no annotation
stands before the first call. -/
theorem signature_by_priority_iff (text : String) :
    ByOrder text (parse text) ∧ (ByPriority text (parse text) ↔ ¬AnnotationLeads text) := by
  have horder := byOrder_parse text
  refine ⟨horder, ⟨?_, fun hlead => ⟨fun line hline => ?_, fun hnone => ?_, horder.docstring⟩⟩⟩
  · rintro hpriority ⟨front, line, back, hlines, hcall, hfront, x, hx, hannotation⟩
    -- the annotation is read first, and the call is stated
    have hfirst : (codeLines text).find? isCall = some line := by
      rw [List.find?_eq_some_iff_append]
      exact ⟨hcall, front, back, hlines, fun y hy => by rw [hfront y hy]; rfl⟩
    have hread := horder.signature.symm.trans (hpriority.call line hfirst).1
    rw [hlines, List.find?_append, find?_either_of_forall hfront] at hread
    cases hfound : front.find? isAnnotation with
    | none => exact absurd hannotation (List.find?_eq_none.mp hfound x hx)
    | some y =>
      rw [hfound, Option.some_or] at hread
      have hy := hfront y (List.mem_of_find?_eq_some hfound)
      rw [Option.some.inj hread, hcall] at hy
      cases hy
  · obtain ⟨hcall, front, back, hlines, hnot⟩ := List.find?_eq_some_iff_append.mp hline
    have hfront : ∀ x ∈ front, isCall x = false := fun x hx => by simpa using hnot x hx
    have hnone : front.find? isAnnotation = none := List.find?_eq_none.mpr fun x hx hannotation =>
      hlead ⟨front, line, back, hlines, hcall, hfront, x, hx, hannotation⟩
    have hsignature : (parse text).signature = some line := by
      rw [horder.signature, hlines, List.find?_append, find?_either_of_forall hfront, hnone, Option.none_or,
        List.find?_cons_of_pos (by simp [hcall])]
    exact ⟨hsignature, horder.call line hsignature hcall⟩
  · rw [horder.signature]
    exact find?_either_of_forall fun x hx => by simpa using List.find?_eq_none.mp hnone x hx

/-- An annotation in front of a call is taken for the signature. -/
theorem annotation_hides_call :
    AnnotationLeads "x: int\nf() -> str" ∧ ¬ByPriority "x: int\nf() -> str" (parse "x: int\nf() -> str") ∧
      (parse "x: int\nf() -> str").signature = some "x: int" ∧ (parse "x: int\nf() -> str").returnType = none := by
  have hlines : codeLines "x: int\nf() -> str" = ["x: int", "f() -> str"] := by decide
  have hlead : AnnotationLeads "x: int\nf() -> str" :=
    ⟨["x: int"], "f() -> str", [], hlines, by decide, by decide, "x: int", List.mem_singleton.mpr rfl,
      by decide⟩
  have hsignature : (parse "x: int\nf() -> str").signature = some "x: int" := by decide
  have hfirst : (codeLines "x: int\nf() -> str").find? isCall = some "f() -> str" := by
    rw [hlines]
    decide
  refine ⟨hlead, fun hpriority => ?_, hsignature, by decide⟩
  have := hsignature.symm.trans (hpriority.call _ hfirst).1
  revert this
  decide

end CodeIndex.Hover
