import CodeIndex.Proofs.Graph.Integrity

/-!
# The accounts of a pass

A pass reads the files that are stale and says of each file found whether it was indexed, skipped or failed:
`report_index` has the sum, and the failures in the order of the paths.
-/

namespace CodeIndex.Graph

/-- The error of a file that cannot be read or is no text. -/
def fault? (c : Candidate) : Option FileError :=
  match c.text with
  | .error e => some e
  | .ok _ => none

/-! ## Stale files -/

section Stale

variable {σ : Type} [Store σ] {s : σ} {force : Bool} {files : Dict Candidate}

/-- Whether a pass reads the file under a path. -/
def isStale (s : σ) (force : Bool) (entry : String × Candidate) : Bool :=
  force || (Store.mtime? s entry.1).all (·.lt entry.2.mtime)

theorem staleFiles_eq (hfiles : Dict.Sorted files) (s : σ) (force : Bool) :
    staleFiles s force files = (files.filter (isStale s force)).map (·.1) := by
  cases force with
  | true =>
    have hall : files.filter (isStale s true) = files := List.filter_eq_self.mpr fun _ _ => rfl
    rw [hall, staleFiles, if_pos rfl]
  | false =>
    have hsorted : ((files.filter (isStale s false)).map (·.1)).Pairwise fun a b => decide (a ≤ b) = true := by
      refine List.pairwise_map.mpr ((hfiles.sublist List.filter_sublist).imp fun hlt => ?_)
      exact decide_eq_true (le_of_lt hlt)
    rw [← List.mergeSort_of_pairwise hsorted, staleFiles, if_neg (by decide), Store.stale, List.filter_map, List.map_map]
    rfl

/-- The files that are read, in the order of their paths. -/
theorem staleCandidates_eq (hfiles : Dict.Sorted files) (s : σ) (force : Bool) :
    staleCandidates s force files = (files.filter (isStale s force)).map (·.2) := by
  rw [staleCandidates, staleFiles_eq hfiles, List.filterMap_map, ← List.filterMap_eq_map]
  refine List.filterMap_congr fun entry hentry => ?_
  exact Dict.lookup_of_mem hfiles.nodup (List.mem_of_mem_filter hentry)

theorem length_staleFiles (hfiles : Dict.Sorted files) (s : σ) (force : Bool) :
    (staleFiles s force files).length = (staleCandidates s force files).length := by
  rw [staleFiles_eq hfiles, staleCandidates_eq hfiles, List.length_map, List.length_map]

theorem mem_staleCandidates (hfiles : Dict.Sorted files) {c : Candidate} :
    c ∈ staleCandidates s force files ↔ ∃ p, files.lookup p = some c ∧ isStale s force (p, c) = true := by
  rw [staleCandidates_eq hfiles]
  simp only [List.mem_map, List.mem_filter]
  constructor
  · rintro ⟨entry, ⟨hentry, hstale⟩, rfl⟩
    exact ⟨entry.1, Dict.lookup_of_mem hfiles.nodup hentry, hstale⟩
  · rintro ⟨p, hp, hstale⟩
    exact ⟨(p, c), ⟨Dict.mem_of_lookup hp, hstale⟩, rfl⟩

end Stale

/-! ## Accounts -/

namespace PassReport

/-- Two reports say the same of the files. -/
structure SameFiles (r r' : PassReport) : Prop where
  total : r'.total = r.total
  indexed : r'.indexed = r.indexed
  skipped : r'.skipped = r.skipped
  failed : r'.failed = r.failed
  errors : r'.errors = r.errors

theorem SameFiles.refl (r : PassReport) : r.SameFiles r := ⟨rfl, rfl, rfl, rfl, rfl⟩

theorem SameFiles.trans {r r' r'' : PassReport} (h : r.SameFiles r') (h' : r'.SameFiles r'') : r.SameFiles r'' where
  total := h'.total.trans h.total
  indexed := h'.indexed.trans h.indexed
  skipped := h'.skipped.trans h.skipped
  failed := h'.failed.trans h.failed
  errors := h'.errors.trans h.errors

/-- The report with further files that were read. -/
def read (n : Nat) (r : PassReport) : PassReport := { r with indexed := r.indexed + n }

/-- The report with further files that failed. -/
def fail (es : List FileError) (r : PassReport) : PassReport :=
  { r with failed := r.failed + es.length, errors := r.errors ++ es }

theorem SameFiles.read {r r' : PassReport} (h : r.SameFiles r') (n : Nat) : (r.read n).SameFiles (r'.read n) :=
  ⟨h.total, congrArg (· + n) h.indexed, h.skipped, h.failed, h.errors⟩

theorem SameFiles.fail {r r' : PassReport} (h : r.SameFiles r') (es : List FileError) :
    (r.fail es).SameFiles (r'.fail es) :=
  ⟨h.total, h.indexed, h.skipped, congrArg (· + es.length) h.failed, congrArg (· ++ es) h.errors⟩

theorem read_read (r : PassReport) (m n : Nat) : (r.read m).read n = r.read (m + n) := by
  simp only [PassReport.read, Nat.add_assoc]

theorem fail_fail (r : PassReport) (es fs : List FileError) : (r.fail es).fail fs = r.fail (es ++ fs) := by
  simp only [PassReport.fail, List.length_append, Nat.add_assoc, List.append_assoc]

theorem fail_nil (r : PassReport) : r.fail [] = r := by
  simp [PassReport.fail]

end PassReport

section Reports

variable {σ : Type} [Store σ] {rd : Reader} {hover : Option HoverSource}

theorem Pass.report_vanish (names : List String) (p : Pass σ) :
    p.report.SameFiles (names.foldl Pass.vanish p).report := by
  induction names generalizing p with
  | nil => exact .refl _
  | cons name rest ih =>
    have hstep : p.report.SameFiles (p.vanish name).report := ⟨rfl, rfl, rfl, rfl, rfl⟩
    exact hstep.trans (ih (p.vanish name))

/-- Of the files that are read, those that are text are found, and the others fail. -/
theorem Pass.report_replace (cs : List Candidate) (s : Pass σ × List (Candidate × FileGraph)) :
    (s.1.report.fail (cs.filterMap fault?)).SameFiles (cs.foldl (Pass.replace rd hover) s).1.report ∧
      (cs.foldl (Pass.replace rd hover) s).2.map (·.1) = s.2.map (·.1) ++ cs.filter fun c => (fault? c).isNone := by
  induction cs generalizing s with
  | nil => exact ⟨by rw [List.filterMap_nil, PassReport.fail_nil]; exact .refl _, (List.append_nil _).symm⟩
  | cons c cs ih =>
    obtain ⟨hreport, hfound⟩ := ih (Pass.replace rd hover s c)
    have hstep : (s.1.report.fail (fault? c).toList).SameFiles (Pass.replace rd hover s c).1.report ∧
        (Pass.replace rd hover s c).2.map (·.1) = s.2.map (·.1) ++ [c].filter fun c => (fault? c).isNone := by
      unfold Pass.replace
      cases htext : c.text with
      | error fault => simp [fault?, htext, PassReport.fail, Pass.remove, Pass.write, PassReport.SameFiles.refl]
      | ok text =>
        have hnone : fault? c = none := by rw [fault?, htext]
        rw [hnone, Option.toList_none, PassReport.fail_nil]
        exact ⟨⟨rfl, rfl, rfl, rfl, rfl⟩, by simp [hnone]⟩
    rw [List.foldl_cons]
    refine ⟨?_, ?_⟩
    · have hsplit : (c :: cs).filterMap fault? = (fault? c).toList ++ cs.filterMap fault? := by
        rw [List.filterMap_cons]
        cases fault? c <;> rfl
      rw [hsplit, ← PassReport.fail_fail]
      exact (hstep.1.fail _).trans hreport
    · rw [hfound, hstep.2, List.append_assoc, ← List.filter_append, List.singleton_append]

theorem Pass.report_relate (found : List (Candidate × FileGraph)) (p : Pass σ) :
    (p.report.read found.length).SameFiles (found.foldl Pass.relate p).report := by
  induction found generalizing p with
  | nil => exact .refl _
  | cons entry rest ih =>
    have hstep : (p.report.read 1).SameFiles (p.relate entry).report := ⟨rfl, rfl, rfl, rfl, rfl⟩
    rw [List.foldl_cons, List.length_cons, Nat.add_comm, ← PassReport.read_read]
    exact (hstep.read _).trans (ih (p.relate entry))

/-- The end of a pass. -/
def Pass.finish (p : Pass σ) : Pass σ :=
  let pruned := Store.pruneCount [moduleKind, externalType] p.store
  { p.write (.prune [moduleKind, externalType]) with report := { p.report with pruned } }

/-- A pass before its first write. -/
def Pass.start (force : Bool) (files : Dict Candidate) (asked : List HoverCall) (s : σ) : Pass σ :=
  { store := s, asked
    report := { total := files.length, skipped := files.length - (staleFiles s force files).length } }

theorem index_eq (rd : Reader) (hover : Option HoverSource) (force : Bool) (files : Dict Candidate)
    (asked : List HoverCall) (s : σ) :
    index rd hover force files asked s =
      (linking (staleFiles s force files ++ vanishedFiles s files)
        ((staleCandidates s force files).foldl (Pass.replace rd hover)
          ((vanishedFiles s files).foldl Pass.vanish (.start force files asked s), []))).finish :=
  rfl

theorem Pass.report_linking (replaced : List String) (cleared : Pass σ × List (Candidate × FileGraph)) :
    (cleared.1.report.read cleared.2.length).SameFiles (linking replaced cleared).finish.report :=
  (Pass.report_relate cleared.2 cleared.1).trans ⟨rfl, rfl, rfl, rfl, rfl⟩

theorem length_filter_fault? (cs : List Candidate) :
    (cs.filter fun c => (fault? c).isNone).length + (cs.filterMap fault?).length = cs.length := by
  rw [← List.countP_eq_length_filter, List.length_filterMap_eq_countP,
    List.length_eq_countP_add_countP fun c => (fault? c).isNone]
  congr 1
  refine List.countP_congr fun c _ => ?_
  cases fault? c <;> simp

/-- What a pass says of the files. -/
theorem report_index (rd : Reader) (hover : Option HoverSource) (force : Bool) {files : Dict Candidate}
    (hfiles : Dict.Sorted files) (asked : List HoverCall) (s : σ) :
    let failures := (staleCandidates s force files).filterMap fault?
    let report := (index rd hover force files asked s).report
    report.total = files.length ∧ report.indexed + report.skipped + report.failed = report.total ∧
      report.failed = failures.length ∧ report.errors = failures := by
  intro failures report
  have hstale := length_staleFiles hfiles s force
  have hle : (staleFiles s force files).length ≤ files.length := by
    rw [staleFiles_eq hfiles, List.length_map]
    exact List.length_filter_le _ _
  have hstart := Pass.report_vanish (vanishedFiles s files) (.start force files asked s)
  obtain ⟨hreplaced, hfound⟩ := @Pass.report_replace _ _ rd hover (staleCandidates s force files)
    ((vanishedFiles s files).foldl Pass.vanish (.start force files asked s), [])
  have hreport := (((hstart.fail failures).trans hreplaced).read _).trans
    (Pass.report_linking (staleFiles s force files ++ vanishedFiles s files) _)
  have hlength := congrArg List.length hfound
  rw [List.length_map, List.map_nil, List.nil_append] at hlength
  have hcount : _ + failures.length = _ := length_filter_fault? (staleCandidates s force files)
  obtain ⟨htotal, hindexed, hskipped, hfailed, herrors⟩ := hreport
  have htotal : report.total = files.length := htotal
  have hindexed : report.indexed = 0 + ((staleCandidates s force files).filter fun c => (fault? c).isNone).length := by
    rw [← hlength]
    exact hindexed
  have hskipped : report.skipped = files.length - (staleFiles s force files).length := hskipped
  have hfailed : report.failed = 0 + failures.length := hfailed
  have herrors : report.errors = [] ++ failures := herrors
  refine ⟨htotal, ?_, hfailed.trans (Nat.zero_add _), herrors⟩
  omega

end Reports

end CodeIndex.Graph
