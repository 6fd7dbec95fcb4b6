import Mathlib.Data.List.Nodup
import CodeIndex.Candidate
import CodeIndex.Proofs.Dict
import CodeIndex.Proofs.Numeric.Double

/-!
# The files that a walk finds

On a disk with one file a path, a candidate is a file of the disk with the language that its path and its
contents tell, and different files are different candidates as long as their relative paths differ.
-/

namespace CodeIndex

namespace Disk

variable {d : Disk} {path : String} {f : DiskFile}

theorem file?_put (d : Disk) (path p : String) (f : DiskFile) :
    (d.put path f).file? p = if p = path then some f else d.file? p := by
  have hothers : (d.files.filter (·.1 != path)).lookup p = if p = path then none else d.files.lookup p := by
    induction d.files with
    | nil => simp
    | cons entry rest ih =>
      obtain ⟨k, g⟩ := entry
      rw [List.filter_cons, Dict.lookup_cons_eq]
      by_cases hk : k = path
      · subst hk
        rw [if_neg (by simp), ih]
        split <;> rfl
      · rw [if_pos (by simpa using hk), Dict.lookup_cons_eq, ih]
        by_cases hp : p = k
        · subst hp
          simp [hk]
        · simp [hp]
  unfold file? put
  rw [List.lookup_append, hothers, Dict.lookup_cons_eq]
  split <;> simp

theorem file?_touch (d : Disk) (path p : String) (mtime : Double) :
    (d.touch path mtime).file? p = (d.file? p).map fun f => if p = path then { f with mtime } else f := by
  unfold file? touch
  induction d.files with
  | nil => rfl
  | cons entry rest ih =>
    obtain ⟨k, g⟩ := entry
    rw [List.map_cons]
    by_cases hk : k = path <;> by_cases hp : p = k <;> simp_all [Dict.lookup_cons_eq]

/-- One file a path. -/
def Keyed (d : Disk) : Prop := (d.files.map (·.1)).Nodup

theorem keyed_empty : ({} : Disk).Keyed := List.nodup_nil

theorem Keyed.put (h : d.Keyed) (path : String) (f : DiskFile) : (d.put path f).Keyed := by
  have hothers : ((d.files.filter (·.1 != path)).map (·.1)).Nodup :=
    h.sublist (List.filter_sublist.map _)
  unfold Keyed Disk.put
  rw [List.map_append, List.nodup_append]
  refine ⟨hothers, List.nodup_singleton _, fun p hp q hq => ?_⟩
  obtain ⟨entry, hentry, rfl⟩ := List.mem_map.mp hp
  obtain rfl := List.mem_singleton.mp hq
  simpa using (List.mem_filter.mp hentry).2

theorem Keyed.touch (h : d.Keyed) (path : String) (mtime : Double) : (d.touch path mtime).Keyed := by
  have hkeys : (d.touch path mtime).files.map (·.1) = d.files.map (·.1) := by
    unfold Disk.touch
    rw [List.map_map]
    refine List.map_congr_left fun entry _ => ?_
    simp only [Function.comp_apply]
    split <;> rfl
  rw [Keyed, hkeys]
  exact h

theorem Keyed.erase (h : d.Keyed) (path : String) : (d.erase path).Keyed :=
  h.sublist (List.filter_sublist.map _)

theorem Keyed.file?_eq_some (h : d.Keyed) (hmem : (path, f) ∈ d.files) : d.file? path = some f :=
  Dict.lookup_of_mem h hmem

end Disk

variable {r : Registry} {p : IgnorePolicy} {d : Disk} {root : String} {c : Candidate}

theorem Candidate.isTime_mtime (c : Candidate) : c.mtime.IsTime := by
  unfold mtime
  split
  · next hpos => exact Double.isTime_of_pos hpos
  · exact Double.isTime_zero

theorem Candidate.text_congr {c c' : Candidate} (hpath : c.path = c'.path) (hread : c.file.read = c'.file.read) :
    c.text = c'.text := by
  unfold text
  rw [hpath, hread]

theorem DiskFile.octets_of_read {f : DiskFile} {octets : List UInt8} (h : f.read = .ok octets) :
    f.octets = octets := by
  unfold read at h
  split at h
  · cases h
  · exact Except.ok.inj h

/-- What is text can be read. -/
theorem Candidate.read_of_text {c : Candidate} {text : String} (h : c.text = .ok text) :
    c.file.read = .ok c.file.octets := by
  unfold Candidate.text at h
  cases hread : c.file.read with
  | error refusal => simp [hread] at h
  | ok octets => rw [DiskFile.octets_of_read hread]

/-- What is wrong with a file is told of its path, and that it is no text or cannot be read. -/
theorem Candidate.error_of_text {c : Candidate} {e : FileError} (h : c.text = .error e) :
    e.path = c.path ∧ (e.kind = .encoding ∨ e.kind = .io) := by
  unfold Candidate.text at h
  split at h
  · cases h
    exact ⟨rfl, .inr rfl⟩
  · next octets _ =>
    cases hdecode : Text.Utf8.decode octets with
    | ok text =>
      rw [hdecode] at h
      cases h
    | error fault =>
      rw [hdecode] at h
      cases h
      exact ⟨rfl, .inl rfl⟩

theorem IgnorePolicy.mem_files_of_mem_walk {entry : String × DiskFile} (h : entry ∈ p.walk d root) :
    entry ∈ d.files := by
  cases hfile : d.file? root with
  | some file =>
    rw [walk_of_file hfile, List.mem_singleton] at h
    exact h ▸ Dict.mem_of_lookup hfile
  | none =>
    rw [walk_of_directory hfile] at h
    exact List.mem_of_mem_filter (List.mem_mergeSort.mp h)

theorem IgnorePolicy.nodup_walk (hd : d.Keyed) : ((p.walk d root).map (·.1)).Nodup := by
  cases hfile : d.file? root with
  | some file =>
    rw [walk_of_file hfile]
    exact List.nodup_singleton _
  | none =>
    rw [walk_of_directory hfile]
    exact ((List.mergeSort_perm _ _).map _).nodup_iff.mpr (hd.sublist (List.filter_sublist.map _))

/-- A root that is a file is the only one. -/
theorem eq_of_mem_candidates (hroot : (d.file? root).isSome) {c' : Candidate} (hc : c ∈ candidates r p d root)
    (hc' : c' ∈ candidates r p d root) : c = c' := by
  obtain ⟨file, hfile⟩ := Option.isSome_iff_exists.mp hroot
  rw [candidates, IgnorePolicy.walk_of_file hfile] at hc hc'
  obtain ⟨entry, hentry, hc⟩ := List.mem_filterMap.mp hc
  obtain ⟨entry', hentry', hc'⟩ := List.mem_filterMap.mp hc'
  rw [List.mem_singleton.mp hentry] at hc
  rw [List.mem_singleton.mp hentry', hc] at hc'
  exact Option.some.inj hc'

/-- A candidate is a file that the walk reaches, under its relative path. -/
theorem exists_file_of_mem_candidates (hd : d.Keyed) (hc : c ∈ candidates r p d root) :
    ∃ path, d.file? path = some c.file ∧ c.path = Path.relative root path ∧
      ∃ l, r.detect? path (c.file.read.toOption.bind firstLine?) = some l ∧ c.language = l.name := by
  obtain ⟨⟨path, file⟩, hwalk, hc⟩ := List.mem_filterMap.mp hc
  obtain ⟨l, hl, rfl⟩ := Option.map_eq_some_iff.mp hc
  exact ⟨path, hd.file?_eq_some (IgnorePolicy.mem_files_of_mem_walk hwalk), rfl, l, hl, rfl⟩

theorem nodup_candidates (hd : d.Keyed)
    (hpaths : ∀ p q, (d.file? p).isSome → (d.file? q).isSome →
      Path.relative root p = Path.relative root q → p = q) :
    ((candidates r p d root).map (·.path)).Nodup := by
  have hwalk : ((p.walk d root).map (·.1)).Nodup := IgnorePolicy.nodup_walk hd
  rw [List.Nodup, List.pairwise_map, candidates, List.pairwise_filterMap]
  refine (List.pairwise_map.mp hwalk).imp_of_mem fun {a b} ha hb hne c hc c' hc' hpath => hne ?_
  have hfile : ∀ e ∈ p.walk d root, (d.file? e.1).isSome := fun e he => by
    rw [hd.file?_eq_some (IgnorePolicy.mem_files_of_mem_walk he)]
    rfl
  obtain ⟨l, -, rfl⟩ := Option.map_eq_some_iff.mp hc
  obtain ⟨l', -, rfl⟩ := Option.map_eq_some_iff.mp hc'
  exact hpaths _ _ (hfile a ha) (hfile b hb) hpath

end CodeIndex
