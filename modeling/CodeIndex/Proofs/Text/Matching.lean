import Mathlib.Data.List.Forall2
import Mathlib.Data.List.Infix
import CodeIndex.Text.Casing
import CodeIndex.Text.Find
import CodeIndex.Text.Like

/-!
# Finding and matching

`Text.contains` says that one text stands in another. A text matches a pattern if it can be cut into parts, one for
each token (`Like.holds_iff`). A pattern of plain characters after a run, or between two, says that the characters
stand in the text up to the case of ASCII letters (`Like.holds_run_plain`, `Like.holds_run_plain_run`).
-/

namespace CodeIndex

namespace Text

theorem isSome_dropFront? [DecidableEq α] (front cs : List α) :
    (dropFront? front cs).isSome = true ↔ front <+: cs := by
  induction front generalizing cs with
  | nil => simp [dropFront?]
  | cons p front ih =>
    cases cs with
    | nil => simp [dropFront?]
    | cons c cs =>
      by_cases h : p = c
      · simp [dropFront?, h, ih]
      · simp [dropFront?, h, List.cons_prefix_cons]

theorem startsWith_iff (s front : String) : startsWith s front = true ↔ front.toList <+: s.toList :=
  isSome_dropFront? _ _

theorem containsChars_iff (needle cs : List Char) : containsChars needle cs = true ↔ needle <:+: cs := by
  unfold containsChars
  induction cs with
  | nil => cases needle <;> simp [cutChars?]
  | cons c cs ih =>
    rw [List.infix_cons_iff, ← isSome_dropFront?, ← ih, cutChars?]
    cases dropFront? needle (c :: cs) <;> simp

theorem dropFront?_eq_some [DecidableEq α] {front cs rest : List α} :
    dropFront? front cs = some rest ↔ cs = front ++ rest := by
  induction front generalizing cs with
  | nil => simp [dropFront?]
  | cons p front ih =>
    cases cs with
    | nil => simp [dropFront?]
    | cons c cs =>
      by_cases h : p = c
      · simp [dropFront?, h, ih]
      · simp [dropFront?, h, Ne.symm h]

/-- The parts around an occurrence that no other one starts before. -/
theorem cutChars?_eq_some {needle cs before after : List Char} (h : cutChars? needle cs = some (before, after)) :
    cs = before ++ (needle ++ after) ∧
      ∀ before' after', cs = before' ++ (needle ++ after') → before.length ≤ before'.length := by
  induction cs generalizing before with
  | nil =>
    rw [cutChars?] at h
    split at h
    · next hempty =>
      obtain ⟨rfl, rfl⟩ := Prod.mk.inj (Option.some.inj h)
      exact ⟨by simp [List.isEmpty_iff.mp hempty], fun _ _ _ => Nat.zero_le _⟩
    · cases h
  | cons c cs ih =>
    rw [cutChars?] at h
    cases hfront : dropFront? needle (c :: cs) with
    | some rest =>
      rw [hfront] at h
      obtain ⟨rfl, rfl⟩ := Prod.mk.inj (Option.some.inj h)
      exact ⟨by rw [List.nil_append, ← dropFront?_eq_some, hfront], fun _ _ _ => Nat.zero_le _⟩
    | none =>
      rw [hfront] at h
      obtain ⟨⟨front, rest⟩, hcut, hpair⟩ := Option.map_eq_some_iff.mp h
      obtain ⟨rfl, rfl⟩ := Prod.mk.inj hpair
      obtain ⟨rfl, hfirst⟩ := ih hcut
      refine ⟨rfl, fun before' after' hsplit => ?_⟩
      cases before' with
      | nil =>
        -- no occurrence starts here
        rw [List.nil_append, ← dropFront?_eq_some, hfront] at hsplit
        cases hsplit
      | cons d before' => exact Nat.succ_le_succ (hfirst before' after' (List.cons.inj hsplit).2)

/-- The parts around an occurrence that no other one starts behind. -/
theorem cutLastChars?_eq_some {needle cs before after : List Char}
    (h : cutLastChars? needle cs = some (before, after)) :
    cs = before ++ (needle ++ after) ∧
      ∀ before' after', cs = before' ++ (needle ++ after') → before'.length ≤ before.length := by
  obtain ⟨⟨back, front⟩, hcut, hpair⟩ := Option.map_eq_some_iff.mp h
  obtain ⟨rfl, rfl⟩ := Prod.mk.inj hpair
  obtain ⟨hsplit, hfirst⟩ := cutChars?_eq_some hcut
  have hcs : cs = front.reverse ++ (needle ++ back.reverse) := by
    simpa using congrArg List.reverse hsplit
  refine ⟨hcs, fun before' after' hother => ?_⟩
  have hle := hfirst after'.reverse before'.reverse (by simp [hother])
  have hlength := congrArg List.length (hcs.symm.trans hother)
  simp only [List.length_append, List.length_reverse] at hle hlength ⊢
  omega

theorem cutLastChars?_eq_none {needle cs : List Char} : cutLastChars? needle cs = none ↔ ¬needle <:+: cs := by
  rw [cutLastChars?, Option.map_eq_none_iff, ← List.reverse_infix, ← containsChars_iff, containsChars]
  simp

theorem contains_iff (s needle : String) : contains s needle = true ↔ needle.toList <:+: s.toList :=
  containsChars_iff _ _

theorem replaceWith_append (old : Char) (new cs ds : List Char) :
    replaceWith old new (cs ++ ds) = replaceWith old new cs ++ replaceWith old new ds :=
  List.flatMap_append

theorem lowerFrom_of_ascii {cs : List Char} (h : ∀ c ∈ cs, c.toNat < 128) (before : List Char) :
    lowerFrom before cs = cs.map Char.toLower := by
  induction cs generalizing before with
  | nil => rfl
  | cons c cs ih =>
    have hc := h c List.mem_cons_self
    have hsigma : ¬c.toNat = 0x3a3 := by omega
    rw [lowerFrom, if_neg hsigma, lowerChar, if_pos hc, ih fun d hd => h d (List.mem_cons_of_mem c hd)]
    rfl

theorem toLower_of_ascii {c : Char} (h : c.toNat < 128) :
    c.toLower.toLower = c.toLower ∧ (c.toLower = '\x00' → c = '\x00') := by
  have hall : ∀ n < 128, (Char.ofNat n).toLower.toLower = (Char.ofNat n).toLower ∧
      ((Char.ofNat n).toLower = '\x00' → Char.ofNat n = '\x00') := by decide
  rw [← Char.ofNat_toNat c]
  exact hall c.toNat h

end Text

namespace Like

/-! ## Tokens -/

theorem tokens?_cons {escape : Option Char} {c : Char} (h : escape ≠ some c) (rest : List Char) :
    tokens? escape (c :: rest) = (tokens? escape rest).map (token c :: ·) := by
  cases rest <;> simp [tokens?, h]

theorem tokens?_escape (c d : Char) (rest : List Char) :
    tokens? (some c) (c :: d :: rest) = (tokens? (some c) rest).map (.plain d :: ·) := by
  simp [tokens?]

/-! ## Matches -/

/-- A text in which the case of ASCII letters is gone. -/
def folded (cs : List Char) : List Char := cs.map Char.toLower

/-- A run takes any front of a text. -/
theorem holds_run (ts : List Token) (s : List Char) :
    holds (.run :: ts) s = true ↔ ∃ front back, s = front ++ back ∧ holds ts back = true := by
  induction s with
  | nil => simp [holds]
  | cons c cs ih =>
    -- the run ends here or takes one character more
    rw [holds, Bool.or_eq_true, ih]
    constructor
    · rintro (h | ⟨front, back, rfl, h⟩)
      · exact ⟨[], c :: cs, rfl, h⟩
      · exact ⟨c :: front, back, rfl, h⟩
    · rintro ⟨front, back, hsplit, h⟩
      cases front with
      | nil =>
        obtain rfl : back = c :: cs := hsplit.symm
        exact .inl h
      | cons d front =>
        obtain ⟨rfl, rfl⟩ := List.cons_eq_cons.mp hsplit
        exact .inr ⟨front, back, rfl, h⟩

/-- What a token stands for. -/
def Token.Takes : Token → List Char → Prop
  | .run, _ => True
  | .one, part => ∃ c, part = [c]
  | .plain c, part => ∃ d, part = [d] ∧ sameChar c d = true

/-- A token takes a front of the text and leaves the rest to the others. -/
theorem holds_cons (t : Token) (ts : List Token) (s : List Char) :
    holds (t :: ts) s = true ↔ ∃ front back, s = front ++ back ∧ t.Takes front ∧ holds ts back = true := by
  cases t with
  | run => simp only [holds_run, Token.Takes, true_and]
  | one =>
    cases s with
    | nil => simp [holds, Token.Takes]
    | cons c cs => simp [holds, Token.Takes]
  | plain p =>
    cases s with
    | nil => simp [holds, Token.Takes]
    | cons c cs => simp [holds, Token.Takes]

/-- A text matches if it can be cut into parts, one for each token. -/
theorem holds_iff (ts : List Token) (s : List Char) :
    holds ts s = true ↔ ∃ parts, List.Forall₂ Token.Takes ts parts ∧ s = parts.flatten := by
  induction ts generalizing s with
  | nil => simp [holds]
  | cons t ts ih =>
    rw [holds_cons]
    constructor
    · rintro ⟨front, back, rfl, hfront, hback⟩
      obtain ⟨parts, hparts, rfl⟩ := (ih back).mp hback
      exact ⟨front :: parts, .cons hfront hparts, rfl⟩
    · rintro ⟨_, hparts, rfl⟩
      obtain ⟨front, parts, hfront, hrest, rfl⟩ := List.forall₂_cons_left_iff.mp hparts
      exact ⟨front, parts.flatten, rfl, hfront, (ih _).mpr ⟨parts, hrest, rfl⟩⟩

theorem matchesChars_iff (escape : Option Char) (pattern text : List Char) :
    matchesChars escape pattern text = true ↔
      ∃ tokens parts, tokens? escape pattern = some tokens ∧ List.Forall₂ Token.Takes tokens parts ∧
        text = parts.flatten := by
  unfold matchesChars
  cases tokens? escape pattern with
  | none => simp
  | some ts => simp [holds_iff]

/-- Plain characters take as many characters that are the same but for case. -/
theorem holds_plain_append (needle : List Char) (ts : List Token) (s : List Char) :
    holds (needle.map .plain ++ ts) s = true ↔
      ∃ front back, s = front ++ back ∧ folded front = folded needle ∧ holds ts back = true := by
  induction needle generalizing s with
  | nil => simp [folded]
  | cons p needle ih =>
    cases s with
    | nil => simp [holds, folded]
    | cons c cs =>
      rw [List.map_cons, List.cons_append, holds, Bool.and_eq_true, ih, sameChar, beq_iff_eq]
      constructor
      · rintro ⟨hp, front, back, rfl, hfront, hback⟩
        exact ⟨c :: front, back, rfl, by simp only [folded, List.map_cons, ← hp] at *; rw [hfront], hback⟩
      · rintro ⟨front, back, hsplit, hfront, hback⟩
        cases front with
        | nil => cases hfront
        | cons d front =>
          obtain ⟨rfl, rfl⟩ := List.cons_eq_cons.mp hsplit
          obtain ⟨hd, hrest⟩ := List.cons_eq_cons.mp hfront
          exact ⟨hd.symm, front, back, rfl, hrest, hback⟩

theorem holds_run_plain (needle s : List Char) :
    holds (.run :: needle.map .plain) s = true ↔ folded needle <:+ folded s := by
  rw [holds_run]
  constructor
  · rintro ⟨front, back, rfl, h⟩
    rw [← List.append_nil (needle.map Token.plain), holds_plain_append] at h
    obtain ⟨middle, rest, rfl, hmiddle, hrest⟩ := h
    obtain rfl : rest = [] := by simpa [holds] using hrest
    exact ⟨folded front, by rw [← hmiddle]; simp [folded]⟩
  · rintro ⟨front, h⟩
    obtain ⟨front', back, rfl, -, hback⟩ := List.map_eq_append_iff.mp h.symm
    refine ⟨front', back, rfl, ?_⟩
    rw [← List.append_nil (needle.map Token.plain), holds_plain_append]
    exact ⟨back, [], (List.append_nil back).symm, hback, by simp [holds]⟩

theorem holds_run_plain_run (needle s : List Char) :
    holds (.run :: (needle.map .plain ++ [.run])) s = true ↔ folded needle <:+: folded s := by
  have hend : ∀ rest, holds [.run] rest = true := fun rest =>
    (holds_run [] rest).mpr ⟨rest, [], (List.append_nil rest).symm, by simp [holds]⟩
  rw [holds_run]
  constructor
  · rintro ⟨front, back, rfl, h⟩
    obtain ⟨middle, rest, rfl, hmiddle, -⟩ := (holds_plain_append ..).mp h
    exact ⟨folded front, folded rest, by rw [← hmiddle]; simp [folded]⟩
  · rintro ⟨front, rest, h⟩
    rw [List.append_assoc] at h
    obtain ⟨front', back, rfl, -, hback⟩ := List.map_eq_append_iff.mp h.symm
    obtain ⟨middle, rest', rfl, hmiddle, -⟩ := List.map_eq_append_iff.mp hback
    exact ⟨front', middle ++ rest', rfl, (holds_plain_append ..).mpr ⟨middle, rest', rfl, hmiddle, hend rest'⟩⟩

theorem folded_infix_iff (needle s : List Char) :
    folded needle <:+: folded s ↔ ∃ part, part <:+: s ∧ folded part = folded needle := by
  constructor
  · rintro ⟨front, back, h⟩
    rw [List.append_assoc] at h
    obtain ⟨front', rest, rfl, -, hrest⟩ := List.map_eq_append_iff.mp h.symm
    obtain ⟨part, back', rfl, hpart, -⟩ := List.map_eq_append_iff.mp hrest
    exact ⟨part, ⟨front', back', List.append_assoc ..⟩, hpart⟩
  · rintro ⟨part, hpart, heq⟩
    exact heq ▸ hpart.map Char.toLower

theorem folded_suffix_iff (needle s : List Char) :
    folded needle <:+ folded s ↔ ∃ part, part <:+ s ∧ folded part = folded needle := by
  constructor
  · rintro ⟨front, h⟩
    obtain ⟨front', part, rfl, -, hpart⟩ := List.map_eq_append_iff.mp h.symm
    exact ⟨part, ⟨front', rfl⟩, hpart⟩
  · rintro ⟨part, hpart, heq⟩
    exact heq ▸ hpart.map Char.toLower

end Like

end CodeIndex
