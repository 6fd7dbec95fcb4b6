import CodeIndex.Proofs.SymbolTable.Integrity

/-!
# Passes that stop early

A pass writes one file at a time and looks for patterns at its end only. If it stops before, the table has
symbols that no pattern is there for yet, and a later pass does not know: it looks for patterns if it
stores or drops a file itself, or is forced to. `Depicted` follows passes, finished or stopped, along with the
symbols that were there when patterns were looked for last; the patterns stay those (`Depicted.patterns_eq`).
-/

namespace CodeIndex.SymbolTable

variable {rd : Reader} {policy : IgnorePolicy} {root : String} {t : SymbolTable} {shown : List SymbolRow}

/-- What a pass leaves that stops after some writes, with the files that are gone dropped in some order. -/
def stopped (rd : Reader) (force : Bool) (gone : List String) (files : List Candidate) (count : Nat)
    (t : SymbolTable) : SymbolTable :=
  (((gone.map Write.drop ++ files.map Write.file).take count).foldl (write rd force t) (t, { total := files.length })).1

theorem patterns_stopped (rd : Reader) (force : Bool) (gone : List String) (files : List Candidate) (count : Nat)
    (t : SymbolTable) : (stopped rd force gone files count t).patterns = t.patterns := by
  have hpending : Pending t (((gone.map Write.drop ++ files.map Write.file).take count).foldl (write rd force t)
      (t, { total := files.length })) :=
    List.foldlRecOn _ _ ⟨rfl, .inl rfl⟩ fun s hs w _ => hs.write w
  exact hpending.patterns

/-- The tables that finished and stopped passes lead to, with the symbols of which the last patterns were
looked for. -/
inductive Depicted (rd : Reader) (policy : IgnorePolicy) (root : String) : SymbolTable → List SymbolRow → Prop
  | empty : Depicted rd policy root .empty []
  | finish {t : SymbolTable} {shown : List SymbolRow} (h : Depicted rd policy root t shown) (d : Disk)
      (force : Bool) {pass : SymbolTable × PassReport}
      (hpass : pass = index rd force (candidates rd.registry policy d root) t) :
    Depicted rd policy root pass.1 (if pass.2.refreshes force then pass.1.symbolRows else shown)
  | stop {t : SymbolTable} {shown : List SymbolRow} (h : Depicted rd policy root t shown) (d : Disk)
      (force : Bool) {gone : List String} (hgone : gone.Perm (t.vanished (candidates rd.registry policy d root)))
      (count : Nat) :
    Depicted rd policy root (stopped rd force gone (candidates rd.registry policy d root) count t) shown

theorem Depicted.patterns_eq (h : Depicted rd policy root t shown) : t.patterns = patternsOf shown := by
  induction h with
  | empty => exact patternsOf_nil.symm
  | finish _ d force hpass ih =>
    subst hpass
    rcases index_refreshes_or rd force (candidates rd.registry policy d root) _ with
      ⟨hfresh, hpatterns⟩ | ⟨hidle, hpatterns, -⟩
    · rw [if_pos hfresh, hpatterns]
    · rw [hidle, if_neg Bool.false_ne_true, hpatterns, ih]
  | stop _ d force hgone count ih => rw [patterns_stopped, ih]

/-- After any passes, finished or stopped, a pass leaves the patterns of its symbols exactly if it looks for
them, or those that were looked for last would be found again. -/
theorem patterns_after_stops (h : Depicted rd policy root t shown) (d : Disk) (force : Bool) :
    let pass := index rd force (candidates rd.registry policy d root) t
    pass.1.patterns = patternsOf pass.1.symbolRows ↔
      force = true ∨ 0 < pass.2.indexed ∨ 0 < pass.2.deleted ∨ patternsOf shown = patternsOf t.symbolRows := by
  intro pass
  have hrefreshes : pass.2.refreshes force = true ↔ force = true ∨ 0 < pass.2.indexed ∨ 0 < pass.2.deleted := by
    simp only [PassReport.refreshes, Bool.or_eq_true, decide_eq_true_eq]
    exact or_comm
  rw [← or_assoc, ← or_assoc, or_assoc (a := force = true), ← hrefreshes]
  rcases index_refreshes_or rd force (candidates rd.registry policy d root) t with
    ⟨hfresh, hpatterns⟩ | ⟨hidle, hpatterns, hsymbols⟩
  · exact iff_of_true hpatterns (.inl hfresh)
  · have hrows : pass.1.symbolRows = t.symbolRows := by rw [symbolRows, symbolRows, hsymbols]
    rw [hpatterns, hrows, h.patterns_eq, show pass.2.refreshes force = false from hidle]
    simp

/-- A pass that stops after its only file, and then one that is forced. -/
theorem patterns_after_stops_base :
    let rd : Reader := ⟨.register .empty { name := "sql", displayName := "SQL", extensions := [".sql"] } [] [],
      { parse := fun _ _ => none }⟩
    let d := ({} : Disk).put "a.sql" ⟨"class BaseA:\n".toUTF8.toList, 1000, none⟩
    let files := candidates rd.registry ⟨[]⟩ d ""
    let t := stopped rd false [] files 1 .empty
    let pass := index rd true files t
    Depicted rd ⟨[]⟩ "" t [] ∧ (pass.1.patterns = patternsOf pass.1.symbolRows ↔
      true = true ∨ 0 < pass.2.indexed ∨ 0 < pass.2.deleted ∨ patternsOf [] = patternsOf t.symbolRows) := by
  intro rd d files t pass
  have hrun : Depicted rd ⟨[]⟩ "" t [] := .stop .empty d false (List.Perm.refl []) 1
  exact ⟨hrun, patterns_after_stops hrun d true⟩

/-- A class whose pass was stopped has no pattern after a pass that finds nothing to do. -/
theorem patterns_missing_after_stop :
    let rd : Reader := ⟨.register .empty { name := "sql", displayName := "SQL", extensions := [".sql"] } [] [],
      { parse := fun _ _ => none }⟩
    let d := ({} : Disk).put "a.sql" ⟨"class BaseA:\n".toUTF8.toList, 1000, none⟩
    let files := candidates rd.registry ⟨[]⟩ d ""
    let t := stopped rd false [] files 1 .empty
    Depicted rd ⟨[]⟩ "" t [] ∧ (index rd false files t).2.skipped = 1 ∧
      (index rd false files t).1.patterns = [] ∧
      (patternsOf (index rd false files t).1.symbolRows).map (·.name) = ["Base Class: BaseA"] := by
  intro rd d files t
  have hrun : Depicted rd ⟨[]⟩ "" t [] := .stop .empty d false (List.Perm.refl []) 1
  exact ⟨hrun, by decide +kernel⟩

end CodeIndex.SymbolTable
