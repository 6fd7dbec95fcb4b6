import Mathlib.Data.List.Nodup
import CodeIndex.Proofs.Dict

/-!
# Rows with different keys

In a list of rows no two of which have one key, a row is found by its key exactly if it is there, and
leaving out rows leaves out what is found.
-/

namespace CodeIndex

section Find

variable {α κ : Type} {key : α → κ} {rows : List α}

/-- No two rows have the same key. -/
def Keyed (key : α → κ) (rows : List α) : Prop := rows.Pairwise fun a b => key a ≠ key b

theorem Keyed.filter (h : Keyed key rows) (p : α → Bool) : Keyed key (rows.filter p) :=
  h.sublist List.filter_sublist

theorem Keyed.nodup (h : Keyed key rows) : rows.Nodup :=
  h.imp fun hne heq => hne (congrArg key heq)

variable [DecidableEq κ]

theorem Keyed.find?_eq_some (h : Keyed key rows) {k : κ} {row : α} :
    rows.find? (fun r => key r = k) = some row ↔ row ∈ rows ∧ key row = k := by
  refine ⟨fun hfind => ⟨List.mem_of_find?_eq_some hfind, by simpa using List.find?_some hfind⟩, ?_⟩
  rintro ⟨hmem, rfl⟩
  induction rows with
  | nil => cases hmem
  | cons r rest ih =>
    rw [Keyed, List.pairwise_cons] at h
    rcases List.mem_cons.mp hmem with rfl | hrest
    · simp
    · rw [List.find?_cons_of_neg (by simpa using h.1 row hrest), ih h.2 hrest]

/-- Rows left out by what their key says are no longer found. -/
theorem find?_filter_key (key : α → κ) (rows : List α) (keep : κ → Bool) (k : κ) :
    (rows.filter fun r => keep (key r)).find? (fun r => key r = k) =
      if keep k then rows.find? (fun r => key r = k) else none := by
  induction rows with
  | nil => simp
  | cons r rest ih =>
    rw [List.filter_cons]
    by_cases hk : key r = k
    · subst hk
      cases hkeep : keep (key r) <;> simp [hkeep, ih]
    · split <;> simp [hk, ih]

/-- Rows left out are no longer found. -/
theorem Keyed.find?_filter (h : Keyed key rows) (p : α → Bool) (k : κ) :
    (rows.filter p).find? (fun r => key r = k) = (rows.find? fun r => key r = k).filter p := by
  ext row
  rw [(h.filter p).find?_eq_some, Option.filter_eq_some_iff, h.find?_eq_some, List.mem_filter]
  exact ⟨fun ⟨⟨hmem, hp⟩, hk⟩ => ⟨⟨hmem, hk⟩, hp⟩, fun ⟨⟨hmem, hk⟩, hp⟩ => ⟨⟨hmem, hp⟩, hk⟩⟩

end Find

theorem lookup_eq_find? {α : Type} (entries : List (String × α)) (k : String) :
    entries.lookup k = (entries.find? fun e => e.1 = k).map (·.2) := by
  induction entries with
  | nil => rfl
  | cons entry rest ih =>
    obtain ⟨key, value⟩ := entry
    rw [Dict.lookup_cons_eq, List.find?_cons]
    by_cases h : k = key
    · simp [h]
    · simp [h, Ne.symm h, ih]

/-- Entries left out are no longer read. -/
theorem Dict.lookup_filter {α : Type u} {entries : List (String × α)} (h : (entries.map (·.1)).Nodup)
    (p : String × α → Bool) (k : String) :
    (entries.filter p).lookup k = (entries.lookup k).filter fun value => p (k, value) := by
  induction entries with
  | nil => rfl
  | cons entry rest ih =>
    obtain ⟨key, value⟩ := entry
    rw [List.map_cons, List.nodup_cons] at h
    rw [List.filter_cons, lookup_cons_eq]
    by_cases hk : k = key
    · subst hk
      have hrest : rest.lookup k = none := by
        rw [List.lookup_eq_none_iff]
        intro e he
        simpa using fun heq : k = e.1 => h.1 (List.mem_map.mpr ⟨e, he, heq.symm⟩)
      rw [if_pos rfl, Option.filter_some]
      split
      · rw [lookup_cons_eq, if_pos rfl]
      · rw [ih h.2, hrest]
        rfl
    · rw [if_neg hk, ← ih h.2]
      split
      · rw [lookup_cons_eq, if_neg hk]
      · rfl

end CodeIndex
