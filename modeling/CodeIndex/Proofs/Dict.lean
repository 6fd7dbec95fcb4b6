import Mathlib.Data.List.Nodup
import Mathlib.Data.List.Perm.Subperm
import Mathlib.Data.String.Basic
import CodeIndex.Dict

/-!
# Dictionaries by their entries

What a key reads after a write: the value that was put there, and for other keys what they read before.
Writes keep the keys in ascending order, so that each occurs once.
-/

namespace CodeIndex.Dict

theorem lookup_cons_eq {α : Type u} (key k : String) (value : α) (d : Dict α) :
    List.lookup k ((key, value) :: d) = if k = key then some value else d.lookup k := by
  rw [List.lookup_cons]
  by_cases h : k = key
  · simp [h]
  · simp [beq_false_of_ne h, h]

theorem lookup_put {α : Type u} (key k : String) (value : α) (d : Dict α) :
    (put key value d).lookup k = if k = key then some value else d.lookup k := by
  induction d with
  | nil => rw [put, lookup_cons_eq]
  | cons entry rest ih =>
    obtain ⟨k', v⟩ := entry
    rw [put]
    split
    · rw [lookup_cons_eq]
    · split
      · next heq =>
        subst heq
        rw [lookup_cons_eq, lookup_cons_eq]
        split <;> rfl
      · next hne =>
        rw [lookup_cons_eq, lookup_cons_eq, ih]
        by_cases h : k = k'
        · subst h
          simp [Ne.symm hne]
        · simp [h]

/-- Among different keys, an entry is what its key reads. -/
theorem lookup_of_mem {α : Type u} {entries : List (String × α)} {key : String} {value : α}
    (hkeys : (entries.map (·.1)).Nodup) (hmem : (key, value) ∈ entries) :
    entries.lookup key = some value := by
  induction entries with
  | nil => cases hmem
  | cons entry rest ih =>
    obtain ⟨k, v⟩ := entry
    rw [List.map_cons, List.nodup_cons] at hkeys
    rw [lookup_cons_eq]
    rcases List.mem_cons.mp hmem with heq | hrest
    · cases heq
      exact if_pos rfl
    · rw [if_neg, ih hkeys.2 hrest]
      rintro rfl
      exact hkeys.1 (List.mem_map.mpr ⟨_, hrest, rfl⟩)

theorem mem_of_lookup {α : Type u} {entries : List (String × α)} {key : String} {value : α}
    (h : entries.lookup key = some value) : (key, value) ∈ entries := by
  induction entries with
  | nil => cases h
  | cons entry rest ih =>
    obtain ⟨k, v⟩ := entry
    rw [lookup_cons_eq] at h
    split at h
    · next heq =>
      cases h
      exact heq ▸ List.mem_cons_self
    · exact List.mem_cons_of_mem _ (ih h)

/-- Keys in ascending order. -/
def Sorted {α : Type u} (d : Dict α) : Prop := d.Pairwise fun a b => a.1 < b.1

theorem Sorted.nodup {α : Type u} {d : Dict α} (h : Sorted d) : (d.map (·.1)).Nodup :=
  List.pairwise_map.mpr (h.imp ne_of_lt)

theorem mem_put {α : Type u} {key : String} {value : α} {d : Dict α} {entry : String × α}
    (h : entry ∈ put key value d) : entry = (key, value) ∨ entry ∈ d := by
  induction d with
  | nil => simpa [put] using h
  | cons e rest ih =>
    obtain ⟨k, v⟩ := e
    rw [put] at h
    split at h
    · exact List.mem_cons.mp h
    · split at h
      · exact (List.mem_cons.mp h).imp_right (List.mem_cons_of_mem _)
      · rcases List.mem_cons.mp h with rfl | h
        · exact .inr List.mem_cons_self
        · exact (ih h).imp_right (List.mem_cons_of_mem _)

theorem Sorted.put {α : Type u} {d : Dict α} (h : Sorted d) (key : String) (value : α) :
    Sorted (put key value d) := by
  induction d with
  | nil => exact List.pairwise_singleton _ _
  | cons e rest ih =>
    obtain ⟨k, v⟩ := e
    obtain ⟨hfirst, hrest⟩ := List.pairwise_cons.mp h
    rw [Dict.put]
    split
    · next hlt =>
      refine List.pairwise_cons.mpr ⟨fun e he => ?_, h⟩
      rcases List.mem_cons.mp he with rfl | he
      · exact hlt
      · exact lt_trans hlt (hfirst e he)
    · next hge =>
      split
      · next heq =>
        subst heq
        exact List.pairwise_cons.mpr ⟨hfirst, hrest⟩
      · next hne =>
        refine List.pairwise_cons.mpr ⟨fun e he => ?_, ih hrest⟩
        rcases mem_put he with rfl | he
        · exact lt_of_le_of_ne (not_lt.mp hge) (Ne.symm hne)
        · exact hfirst e he

theorem sorted_ofList {α : Type u} (entries : List (String × α)) : Sorted (ofList entries) := by
  suffices hfold : ∀ d : Dict α, Sorted d → Sorted (entries.foldl (fun d e => Dict.put e.1 e.2 d) d) from
    hfold [] List.Pairwise.nil
  induction entries with
  | nil => exact fun d hd => hd
  | cons e rest ih => exact fun d hd => ih _ (hd.put e.1 e.2)

theorem lookup_foldl_put {α : Type u} {entries : List (String × α)} (h : (entries.map (·.1)).Nodup)
    (d : Dict α) (key : String) :
    (entries.foldl (fun d e => Dict.put e.1 e.2 d) d).lookup key = (entries.lookup key).or (d.lookup key) := by
  induction entries generalizing d with
  | nil => simp
  | cons e rest ih =>
    obtain ⟨hfirst, hrest⟩ := List.nodup_cons.mp h
    rw [List.foldl_cons, ih hrest, lookup_put, lookup_cons_eq]
    by_cases hkey : key = e.1
    · have hnone : rest.lookup key = none := by
        rw [List.lookup_eq_none_iff]
        intro entry hentry
        simpa using fun heq : key = entry.1 => hfirst (List.mem_map.mpr ⟨entry, hentry, heq.symm.trans hkey⟩)
      simp [hkey, hkey ▸ hnone]
    · simp [hkey]

theorem mem_of_mem_ofList {α : Type u} {entries : List (String × α)} {entry : String × α}
    (h : entry ∈ ofList entries) : entry ∈ entries := by
  suffices hfold : ∀ d : Dict α, entry ∈ entries.foldl (fun d e => Dict.put e.1 e.2 d) d →
      entry ∈ entries ∨ entry ∈ d from (hfold [] h).resolve_right List.not_mem_nil
  clear h
  induction entries with
  | nil => exact fun d hd => .inr hd
  | cons e rest ih =>
    intro d hd
    rcases ih _ hd with hrest | hput
    · exact .inl (List.mem_cons_of_mem e hrest)
    · rcases mem_put hput with rfl | hd
      · exact .inl List.mem_cons_self
      · exact .inr hd

theorem lookup_eq_some_iff {α : Type u} {entries : List (String × α)} (h : (entries.map (·.1)).Nodup) {key : String}
    {value : α} : entries.lookup key = some value ↔ (key, value) ∈ entries :=
  ⟨mem_of_lookup, lookup_of_mem h⟩

/-- Entries of different keys that read alike are the same ones. -/
theorem perm_of_lookup_eq {α : Type u} {entries others : List (String × α)} (h : (entries.map (·.1)).Nodup)
    (hothers : (others.map (·.1)).Nodup) (heq : ∀ key, entries.lookup key = others.lookup key) :
    entries.Perm others := by
  refine (List.perm_ext_iff_of_nodup (List.Nodup.of_map _ h) (List.Nodup.of_map _ hothers)).mpr fun entry => ?_
  rw [← lookup_eq_some_iff h, ← lookup_eq_some_iff hothers, heq]

/-- Dictionaries that read alike are equal. -/
theorem Sorted.ext {α : Type u} {d e : Dict α} (hd : Sorted d) (he : Sorted e)
    (h : ∀ key, d.lookup key = e.lookup key) : d = e :=
  (perm_of_lookup_eq hd.nodup he.nodup h).eq_of_pairwise
    (fun _ _ _ _ hab hba => absurd (lt_trans hab hba) (lt_irrefl _)) hd he

theorem Sorted.ofList_eq {α : Type u} {d : Dict α} (h : Sorted d) : ofList d = d := by
  refine (sorted_ofList d).ext h fun key => ?_
  rw [ofList, lookup_foldl_put h.nodup]
  simp

/-- Entries are lost where a key comes twice, and only there. -/
theorem length_ofList_eq_iff {α : Type u} {entries : List (String × α)} :
    (ofList entries).length = entries.length ↔ (entries.map (·.1)).Nodup := by
  have hsub : (ofList entries).map (·.1) ⊆ entries.map (·.1) := List.map_subset _ fun _ => mem_of_mem_ofList
  have hsubperm := List.Nodup.subperm (sorted_ofList entries).nodup hsub
  constructor
  · intro hlength
    exact (hsubperm.perm_of_length_le (by simp [hlength])).nodup_iff.mp (sorted_ofList entries).nodup
  · intro hnodup
    have hsup : entries.map (·.1) ⊆ (ofList entries).map (·.1) := by
      intro key hkey
      obtain ⟨⟨key, value⟩, hentry, rfl⟩ := List.mem_map.mp hkey
      have hlookup : (ofList entries).lookup key = some value := by
        rw [ofList, lookup_foldl_put hnodup, lookup_of_mem hnodup hentry, Option.some_or]
      exact List.mem_map.mpr ⟨_, mem_of_lookup hlookup, rfl⟩
    have hlengths := Nat.le_antisymm hsubperm.length_le (List.Nodup.subperm hnodup hsup).length_le
    rwa [List.length_map, List.length_map] at hlengths

/-! ## Tallies -/

theorem lookup_foldl_count (keys : List String) (d : Dict Nat) (key : String) :
    (keys.foldl (fun d k => count k d) d).lookup key =
      if keys.count key = 0 then d.lookup key else some ((d.lookup key).getD 0 + keys.count key) := by
  induction keys generalizing d with
  | nil => simp
  | cons k rest ih =>
    rw [List.foldl_cons, ih, count, lookup_put]
    by_cases hk : key = k
    · subst hk
      by_cases hrest : rest.count key = 0
      · simp [hrest]
      · simp only [hrest, if_false, if_true, Option.getD_some, List.count_cons_self, Nat.add_one_ne_zero]
        congr 1
        omega
    · simp [hk, Ne.symm hk]

theorem sorted_tally (keys : List String) : Sorted (tally keys) := by
  suffices hfold : ∀ d : Dict Nat, Sorted d → Sorted (keys.foldl (fun d k => count k d) d) from
    hfold [] List.Pairwise.nil
  induction keys with
  | nil => exact fun d hd => hd
  | cons k rest ih => exact fun d hd => ih _ (hd.put k _)

/-- A tally does not hang on the order of what is counted. -/
theorem tally_perm {keys others : List String} (h : keys.Perm others) : tally keys = tally others := by
  refine (sorted_tally keys).ext (sorted_tally others) fun key => ?_
  rw [tally, tally, lookup_foldl_count, lookup_foldl_count, h.count_eq]

end CodeIndex.Dict
