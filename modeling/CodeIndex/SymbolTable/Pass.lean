import CodeIndex.Candidate
import CodeIndex.SymbolTable.Basic

/-!
# Passes over a repository

A pass drops the files that are gone, then reads again each file whose time moved and whose contents
changed. One faulty file does not stop it. Its writes form a list, so that a pass which stops early is a
run over the front of that list.
-/

namespace CodeIndex.SymbolTable

structure PassReport where
  total : Nat := 0
  indexed : Nat := 0
  skipped : Nat := 0
  deleted : Nat := 0
  /-- Indexed with a faulty tree. -/
  degraded : Nat := 0
  failed : Nat := 0
  symbols : Nat := 0
  patterns : Nat := 0
  languages : Dict Nat := []
  errors : List FileError := []
  deriving DecidableEq, Repr

inductive Outcome where
  | skipped
  | indexed (symbols : Nat) (parseError : Option String)
  | failed (error : FileError)
  deriving DecidableEq, Repr

def lineCount (text : String) : Nat :=
  text.toList.count '\n' + 1

/-- Replaces the rows of a file by those of its contents. -/
def store (t : SymbolTable) (c : Candidate) (text : String) (contents : FileContents) : SymbolTable :=
  (t.drop c.path).insert
    { path := c.path, language := c.language, size := c.file.octets.length, lines := lineCount text
      mtime := c.mtime, contentHash := Blake3.shortHash c.file.octets, symbolCount := contents.symbols.length
      importCount := contents.imports.length, type := .ofPath c.path }
    contents.symbols contents.imports

/-- Whether the contents of a file can be read and are those of a row. -/
def isUnchanged (c : Candidate) (f : FileRow) : Bool :=
  c.file.read.toOption.any (f.contentHash = Blake3.shortHash ·)

/-- Brings one file up to date; `known` is its row before the pass. -/
def indexFile (rd : Reader) (force : Bool) (known : Option FileRow) (c : Candidate) (t : SymbolTable) :
    SymbolTable × Outcome :=
  if !force && known.any (c.mtime.le ·.mtime) then (t, .skipped)
  else if !force && known.any (isUnchanged c) then (t.touch c.path c.mtime, .skipped)
  else match c.text with
    | .error e => (t, .failed e)
    | .ok text =>
      let contents := FileContents.read rd.registry rd.grammars c.path c.language text
      (t.store c text contents, .indexed contents.symbols.length contents.parseError)

namespace PassReport

def add (p : PassReport) (c : Candidate) : Outcome → PassReport
  | .skipped => { p with skipped := p.skipped + 1 }
  | .failed e => { p with failed := p.failed + 1, errors := p.errors ++ [e] }
  | .indexed symbols parseError =>
    { p with
      indexed := p.indexed + 1
      symbols := p.symbols + symbols
      languages := Dict.count c.language p.languages
      degraded := p.degraded + parseError.toList.length
      errors := p.errors ++ parseError.toList.map (⟨c.path, .parseError, ·⟩) }

end PassReport

/-- One write of a pass. -/
inductive Write where
  | drop (path : String)
  | file (c : Candidate)
  deriving DecidableEq, Repr

/-- The paths of files that are no longer there. -/
def vanished (t : SymbolTable) (files : List Candidate) : List String :=
  (t.files.map (·.path)).filter fun path => !files.any (·.path = path)

/-- The writes of a pass in order. -/
def writes (t : SymbolTable) (files : List Candidate) : List Write :=
  (t.vanished files).map .drop ++ files.map .file

/-- Does one write; `before` is the table as the pass found it. -/
def write (rd : Reader) (force : Bool) (before : SymbolTable) (s : SymbolTable × PassReport) :
    Write → SymbolTable × PassReport
  | .drop path => (s.1.drop path, { s.2 with deleted := s.2.deleted + 1 })
  | .file c =>
    let (t, outcome) := indexFile rd force (before.file? c.path) c s.1
    (t, s.2.add c outcome)

/-- The end of a pass: patterns are found anew if anything changed. -/
def finish (force : Bool) (s : SymbolTable × PassReport) : SymbolTable × PassReport :=
  let (t, report) := s
  if 0 < report.indexed || 0 < report.deleted || force then
    let t := t.refreshPatterns
    ({ t with wasIndexed := true }, { report with patterns := t.patterns.length })
  else ({ t with wasIndexed := true }, report)

/-- A whole pass over the given files. -/
def index (rd : Reader) (force : Bool) (files : List Candidate) (t : SymbolTable) : SymbolTable × PassReport :=
  finish force ((t.writes files).foldl (write rd force t) (t, { total := files.length }))

end CodeIndex.SymbolTable
