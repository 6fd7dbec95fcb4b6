import CodeIndex.Graph.Table
import CodeIndex.Proofs.Text.Matching

/-!
# Escaped needles

Three replacements, one for each special character, come to the same as one that puts an escape character before
each of them (`escaped_cons_special`, `escaped_cons_plain`). So a pattern reads the needle as plain characters
(`tokens?_escaped`) and lets through exactly the texts that hold the needle up to the case of ASCII letters
(`escaping_exact`).
-/

namespace CodeIndex.Graph.TableGraph

/-! ## Three replacements -/

/-- The characters that mean something in a pattern. -/
def isSpecial (c : Char) : Bool :=
  c == '\\' || c == '%' || c == '_'

theorem ne_special {c : Char} (h : isSpecial c = false) : some '\\' ≠ some c ∧ Like.token c = .plain c := by
  simp only [isSpecial, Bool.or_eq_false_iff, beq_eq_false_iff_ne] at h
  obtain ⟨⟨hescape, hrun⟩, hone⟩ := h
  refine ⟨fun heq => hescape (Option.some_inj.mp heq).symm, ?_⟩
  unfold Like.token
  split
  · exact absurd rfl hrun
  · exact absurd rfl hone
  · rfl

@[simp] theorem escaped_nil : escaped [] = [] := rfl

/-- Each replacement takes one character after the other, so all three do. -/
theorem escaped_append (front back : List Char) : escaped (front ++ back) = escaped front ++ escaped back := by
  simp only [escaped, escapeEach, Text.replaceWith_append]

theorem escaped_cons_special {c : Char} (h : isSpecial c = true) (needle : List Char) :
    escaped (c :: needle) = '\\' :: c :: escaped needle := by
  have hone : escaped [c] = ['\\', c] := by
    simp only [isSpecial, Bool.or_eq_true, beq_iff_eq] at h
    rcases h with (rfl | rfl) | rfl <;> rfl
  calc escaped (c :: needle) = escaped [c] ++ escaped needle := escaped_append [c] needle
    _ = '\\' :: c :: escaped needle := by rw [hone]; rfl

theorem escaped_cons_plain {c : Char} (h : isSpecial c = false) (needle : List Char) :
    escaped (c :: needle) = c :: escaped needle := by
  have hone : escaped [c] = [c] := by
    simp only [isSpecial, Bool.or_eq_false_iff, beq_eq_false_iff_ne] at h
    simp [escaped, escapeEach, Text.replaceWith, h]
  calc escaped (c :: needle) = escaped [c] ++ escaped needle := escaped_append [c] needle
    _ = c :: escaped needle := by rw [hone]; rfl

/-! ## What a pattern lets through -/

/-- An escaped text is read as plain characters. -/
theorem tokens?_escaped (needle rest : List Char) :
    Like.tokens? (some '\\') (escaped needle ++ rest) =
      (Like.tokens? (some '\\') rest).map (needle.map .plain ++ ·) := by
  induction needle with
  | nil => simp
  | cons c needle ih =>
    cases hc : isSpecial c with
    | true =>
      rw [escaped_cons_special hc, List.cons_append, List.cons_append, Like.tokens?_escape, ih, Option.map_map]
      rfl
    | false =>
      obtain ⟨hescape, htoken⟩ := ne_special hc
      rw [escaped_cons_plain hc, List.cons_append, Like.tokens?_cons hescape, ih, Option.map_map, htoken]
      rfl

/-- Escapes move no zero character: an escaped text ends where the text does. -/
theorem takeWhile_escaped {p : Char → Bool} (hp : ∀ c, isSpecial c = true → p c = true) (needle rest : List Char) :
    (escaped needle ++ rest).takeWhile p =
      escaped (needle.takeWhile p) ++ if needle.all p then rest.takeWhile p else [] := by
  induction needle with
  | nil => simp
  | cons c needle ih =>
    cases hc : isSpecial c with
    | true =>
      have hescape : p '\\' = true := hp '\\' rfl
      rw [escaped_cons_special hc, List.cons_append, List.cons_append, List.takeWhile_cons_of_pos hescape,
        List.takeWhile_cons_of_pos (hp c hc), ih, List.takeWhile_cons_of_pos (hp c hc), escaped_cons_special hc,
        List.all_cons, hp c hc, Bool.true_and]
      rfl
    | false =>
      rw [escaped_cons_plain hc, List.cons_append]
      cases hpc : p c with
      | true =>
        rw [List.takeWhile_cons_of_pos hpc, ih, List.takeWhile_cons_of_pos hpc, escaped_cons_plain hc, List.all_cons, hpc,
          Bool.true_and]
        rfl
      | false => simp [hpc]

/-- A needle as a search in tables sees it: up to the case of ASCII letters, both texts up to a zero character, and
at the end of the text if the needle has such a character. -/
def Shows (text needle : String) : Prop :=
  if '\x00' ∈ needle.toList then Like.folded (Like.visible needle) <:+ Like.folded (Like.visible text)
  else Like.folded (Like.visible needle) <:+: Like.folded (Like.visible text)

theorem likeNeedle_iff (needle text : String) : likeNeedle needle text = true ↔ Shows text needle := by
  have hp : ∀ c, isSpecial c = true → (c != '\x00') = true := by
    intro c hc
    rw [bne_iff_ne]
    rintro rfl
    exact absurd hc (by decide)
  have hvisible : Like.visible (String.ofList (likePattern needle.toList)) =
      '%' :: (escaped (Like.visible needle) ++ if needle.toList.all (· != '\x00') then ['%'] else []) := by
    rw [Like.visible, String.toList_ofList, likePattern, List.cons_append, List.takeWhile_cons_of_pos (by decide),
      takeWhile_escaped hp]
    rfl
  unfold likeNeedle Like.matchesText Like.matchesChars Shows
  rw [hvisible, Like.tokens?_cons (by decide), tokens?_escaped]
  by_cases hzero : '\x00' ∈ needle.toList
  · have hall : needle.toList.all (· != '\x00') = false := by simpa using hzero
    rw [if_pos hzero, hall, if_neg Bool.false_ne_true, ← Like.holds_run_plain]
    simp [Like.tokens?, Like.token]
  · have hall : needle.toList.all (· != '\x00') = true := by
      rw [List.all_eq_true]
      exact fun c hc => bne_iff_ne.mpr fun heq => hzero (heq ▸ hc)
    rw [if_neg hzero, hall, if_pos rfl, ← Like.holds_run_plain_run]
    simp [Like.tokens?, Like.token]

/-! ## Exactness -/

theorem matchesChars_likePattern (needle text : List Char) :
    Like.matchesChars (some '\\') (likePattern needle) text = true ↔ Like.folded needle <:+: Like.folded text := by
  rw [Like.matchesChars, likePattern, List.cons_append, Like.tokens?_cons (by decide), tokens?_escaped,
    ← Like.holds_run_plain_run]
  simp [Like.tokens?, Like.token]

/-- A text matches a pattern if it can be cut into parts, one for each token. So it matches the pattern of a needle if
and only if a part of it equals the needle up to the case of ASCII letters, whatever special characters the needle has.
A search in tables tells this of what it sees of both: what stands before a zero character, and with one in the needle
only the end of the text. -/
theorem escaping_exact :
    (∀ escape pattern text, Like.matchesChars escape pattern text = true ↔
      ∃ tokens parts, Like.tokens? escape pattern = some tokens ∧ List.Forall₂ Like.Token.Takes tokens parts ∧
        text = parts.flatten) ∧
    (∀ needle text, Like.matchesChars (some '\\') (likePattern needle) text = true ↔
      ∃ part, part <:+: text ∧ Like.folded part = Like.folded needle) ∧
    ∀ needle text, likeNeedle needle text = true ↔
      ∃ part, (if '\x00' ∈ needle.toList then part <:+ Like.visible text else part <:+: Like.visible text) ∧
        Like.folded part = Like.folded (Like.visible needle) := by
  refine ⟨Like.matchesChars_iff, fun needle text => ?_, fun needle text => ?_⟩
  · rw [matchesChars_likePattern, Like.folded_infix_iff]
  · rw [likeNeedle_iff, Shows]
    split
    · exact Like.folded_suffix_iff _ _
    · exact Like.folded_infix_iff _ _

end CodeIndex.Graph.TableGraph
