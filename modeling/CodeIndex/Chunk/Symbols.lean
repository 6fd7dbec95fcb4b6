import CodeIndex.Chunk.Basic
import CodeIndex.Chunk.Layout

/-!
# Chunks along symbols

One file being cut: a symbol that fits is one chunk, a long one is a header and windows over its body,
and a class may become its head and its members.
-/

namespace CodeIndex

/-- What is being cut. -/
structure Job where
  settings : ChunkSettings
  source : Source
  path : String
  language : String

namespace Job

def draft (j : Job) (id : String) (kind : ChunkKind) (p : Piece) : Draft :=
  let chunk : Chunk := { id, content := "", kind, path := j.path }
  ⟨(chunk.note "language" j.language).onLines (j.source.lineAt p.start) (j.source.lineAt (p.stop - 1)),
    p.start, p.stop⟩

def windows (j : Job) (start stop limit : Nat) : Except Source.Fault (List Piece) :=
  Window.pieces j.source start stop j.settings.maxChars j.settings.overlapChars limit

/-- Windows over lines. A first line that is too long stays whole where `protect` says so. -/
def pieces (j : Job) (first last : Nat) (protect : Bool) : Except Source.Fault (List Piece) := do
  let (start, stop) ← j.source.span first last
  let limit := j.settings.maxSubchunks
  if protect then
    let (headStart, headStop) ← j.source.span first first
    if j.settings.maxChars < headStop - headStart then
      return ⟨headStart, headStop, true⟩ :: (← j.windows headStop stop (limit - 1))
  j.windows start stop limit

def markOversized (p : Piece) (c : Chunk) : Chunk :=
  if p.oversized then c.note "oversized" "true" else c

/-! ## One symbol -/

/-- What all chunks of a symbol share. -/
def dress (sym : Symbol) (lineCount : Nat) (parent : Option String) (c : Chunk) : Chunk :=
  { c.noteNat "line_count" lineCount with
    symbolName := some sym.name, symbolType := some sym.kind, parentId := parent }

/-- Numbered chunks below the one with that id. -/
def numbered (j : Job) (sym : Symbol) (lineCount : Nat) (id mark : String) (kind : ChunkKind)
    (pieces : List Piece) : List Draft :=
  pieces.zipIdx.map fun (p, i) =>
    (j.draft s!"{id}:{mark}:{i}" kind p).map fun c =>
      markOversized p ((dress sym lineCount (some id) c).noteNat "chunk_index" i)

/-- A whole range of lines as one chunk. -/
def wholeLines (j : Job) (id : String) (kind : ChunkKind) (first last : Nat) : Except Source.Fault Draft := do
  let (start, stop) ← j.source.span first last
  return (j.draft id kind ⟨start, stop, false⟩).map (·.onLines first last)

/-- The octets that lines take. -/
def lineSize (j : Job) (first last : Nat) : Except Source.Fault Nat := do
  let (start, stop) ← j.source.span first last
  return stop - start

/-- Numbered windows over lines, none where there are no such lines. -/
def windowedLines (j : Job) (sym : Symbol) (lineCount : Nat) (id mark : String) (kind : ChunkKind)
    (first last : Nat) : Except Source.Fault (List Draft) := do
  if first ≤ last then
    let (start, stop) ← j.source.span first last
    return j.numbered sym lineCount id mark kind (← j.windows start stop j.settings.maxSubchunks)
  else return []

/-- Where the header of a symbol starts: with its lines, or, when that is too long, with its last one. -/
def headerStart (j : Job) (first headerEnd : Nat) : Except Source.Fault Nat :=
  if first < headerEnd then
    (j.lineSize first headerEnd).map fun size => if j.settings.maxChars < size then headerEnd else first
  else .ok first

/-- A header up to the symbol's own first line, and windows over the rest. Lines in front that would
make the header too long are windowed too. -/
def splitBody (j : Job) (sym : Symbol) (id : String) (first last : Nat) (parent : Option String) :
    Except Source.Fault (List Draft) := do
  let lineCount := last - first + 1
  let headerEnd := min (max sym.startLine first) last
  let start ← j.headerStart first headerEnd
  let lead ← j.windowedLines sym lineCount id "lead" .methodHeader first (start - 1)
  let header ← j.wholeLines id .methodHeader start headerEnd
  let tooLong := j.settings.maxChars < header.stop - header.start
  let header := header.map fun c => markOversized ⟨0, 0, tooLong⟩ (dress sym lineCount parent c)
  let body ← j.windowedLines sym lineCount id "body" .methodBody (headerEnd + 1) last
  return lead ++ [header] ++ body

/-- The chunks of a symbol that owns the lines from `first` to `last`. -/
def symbolDrafts (j : Job) (sym : Symbol) (first last : Nat) (parent : Option String) :
    Except Source.Fault (List Draft) := do
  let id := j.path ++ ":" ++ sym.qualifiedName
  let kind := ChunkKind.ofSymbolKind sym.kind
  let lineCount := last - first + 1
  let size ← j.lineSize first last
  if j.settings.strategy ≠ .symbolOnly && j.settings.largeSymbol < lineCount then
    j.splitBody sym id first last parent
  else if size ≤ j.settings.maxChars then
    return [(← j.wholeLines id kind first last).map (dress sym lineCount parent)]
  else return j.numbered sym lineCount id "part" (.part kind) (← j.pieces first last true)

/-! ## One class -/

/-- The chunks of the members, each with the lines up to the next one; the last reaches to the end. -/
def memberDrafts (j : Job) (owner : Symbol) (classId : String) (last : Nat) :
    (cursor : Nat) → List Symbol → Except Source.Fault (List Draft)
  | _, [] => .ok []
  | cursor, m :: rest => do
    let stop := match rest with
      | [] => last
      | next :: _ => min (max m.endLine cursor) (max (next.startLine - 1) cursor)
    let asMethod := { m with kind := "method", parent := some owner.name }
    let own ← j.symbolDrafts asMethod cursor stop (some classId)
    if last < stop + 1 then return own
    else return own ++ (← j.memberDrafts owner classId last (stop + 1) rest)

/-- What the chunks of a class's head share. -/
def dressHead (owner : Symbol) (members : List Symbol) (c : Chunk) : Chunk :=
  { (c.note "methods" (", ".intercalate (members.map (·.name)))).noteNat "method_count" members.length with
    symbolName := some owner.name, symbolType := some owner.kind }

/-- The head of a class, in pieces when it is too long. -/
def headDrafts (j : Job) (owner : Symbol) (members : List Symbol) (classId : String) (first last : Nat) :
    Except Source.Fault (List Draft) := do
  if (← j.lineSize first last) ≤ j.settings.maxChars then
    return [(← j.wholeLines classId .classSummary first last).map (dressHead owner members)]
  else
    return (← j.pieces first last true).zipIdx.map fun (p, i) =>
      (j.draft s!"{classId}:part:{i}" (.part .classSummary) p).map fun c =>
        markOversized p { dressHead owner members c with parentId := some classId }

/-- The head of a class with the list of its members, then the members. -/
def classDrafts (j : Job) (owner : Symbol) (members : List Symbol) (first last : Nat) :
    Except Source.Fault (List Draft) := do
  let classId := j.path ++ ":" ++ owner.name
  let headerEnd := max ((members.head?.map (·.startLine - 1)).getD 0) first
  let head ← j.headDrafts owner members classId first headerEnd
  if last ≤ headerEnd then return head
  else return head ++ (← j.memberDrafts owner classId last (headerEnd + 1) members)

/-! ## Summaries -/

/-- At most `budget` octets of a text. -/
def truncate (text : String) (budget : Nat) : String :=
  let s := Source.ofString text
  if s.size ≤ budget then text else (s.slice? 0 (s.floorBoundary budget)).getD ""

def summaryNames : Nat := 10

def fileSummary (j : Job) (names : List String) (chunking : String) : Chunk :=
  let lines := j.source.lineCount
  let listed :=
    if names.isEmpty then ""
    else "\nContains: " ++ ", ".intercalate (names.take summaryNames) ++
      if summaryNames < names.length then s!"\n  ... and {names.length - summaryNames} more" else ""
  let text := s!"File: {j.path}\nLanguage: {j.language}\nLines: {lines}" ++ listed
  let chunk : Chunk := {
    id := j.path ++ ":__file__", content := truncate text j.settings.maxChars, kind := .fileSummary
    path := j.path }
  (((chunk.onLines 1 lines).note "language" j.language).noteNat "symbol_count" names.length).note
    "chunking" chunking

def importBlock (j : Job) (imports : List Import) : Chunk :=
  let lines := imports.map (·.line)
  let first := (lines.min?).getD 1
  let text := s!"File: {j.path}\nImports: " ++ ", ".intercalate (imports.map (·.name))
  let chunk : Chunk := {
    id := j.path ++ ":__imports__", content := truncate text j.settings.maxChars, kind := .importBlock
    path := j.path }
  ((chunk.onLines first ((lines.max?).getD first)).note "language" j.language).noteNat
    "import_count" imports.length

/-! ## Whole files -/

def optionalSummary (j : Job) (names : List String) (chunking : String) : List Chunk :=
  if j.settings.fileSummary then [j.fileSummary names chunking] else []

/-- Overlapping windows over the whole file. -/
def chunkWindows (j : Job) : Except Source.Fault (List Chunk) := do
  if j.source.lineCount = 0 then return []
  let drafts := (← j.windows 0 j.source.size j.settings.maxWindows).zipIdx.map fun (p, i) =>
    let first := j.source.lineAt p.start
    let last := j.source.lineAt (p.stop - 1)
    (j.draft s!"{j.path}:window:{i}:L{first}-L{last}" .window p).map fun c =>
      (c.noteNat "chunk_index" i).note "chunking" "sliding_window"
  return j.optionalSummary [] "sliding_window" ++ (← drafts.mapM (Draft.cut j.source))

/-- The chunks of one segment; `index` counts the chunks of module code before it. -/
def segmentDrafts (j : Job) (symbols : List Symbol) (index : Nat) (seg : Layout.Segment) :
    Except Source.Fault (List Draft) := do
  match seg.symbol with
  | none =>
    return (← j.pieces seg.first seg.last false).zipIdx.map fun (p, i) =>
      j.draft s!"{j.path}:__module__:{index + i}" .moduleCode p
  | some sym =>
    let members :=
      if j.settings.strategy = .hierarchical && ChunkKind.ofSymbolKind sym.kind = .classLike then
        Layout.members symbols sym
      else []
    if members.isEmpty then j.symbolDrafts sym seg.first seg.last none
    else j.classDrafts sym members seg.first seg.last

def segmentsDrafts (j : Job) (symbols : List Symbol) :
    (index : Nat) → List Layout.Segment → Except Source.Fault (List Draft)
  | _, [] => .ok []
  | index, seg :: rest => do
    let own ← j.segmentDrafts symbols index seg
    let index := if seg.symbol.isNone then index + own.length else index
    return own ++ (← j.segmentsDrafts symbols index rest)

/-- Chunks along the bounds of known symbols; windows where none lies in the file. -/
def chunkSymbols (j : Job) (symbols : List Symbol) (imports : List Import) :
    Except Source.Fault (List Chunk) := do
  let n := j.source.lineCount
  if n = 0 then return []
  let top := Layout.outermost symbols n
  if top.isEmpty then j.chunkWindows
  else
    let drafts ← j.segmentsDrafts symbols 0 (← Layout.segments j.source top n j.settings.minSize)
    let imported := if imports.isEmpty then [] else [j.importBlock imports]
    return j.optionalSummary (top.map (·.qualifiedName)) "boundary_aware" ++ imported ++
      (← drafts.mapM (Draft.cut j.source))

end Job

end CodeIndex
