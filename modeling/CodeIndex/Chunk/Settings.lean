import CodeIndex.Json.Decode

/-!
# Chunk settings

Budgets are given in tokens and turned into octets by an estimate of characters per token.
-/

namespace CodeIndex

inductive ChunkStrategy where
  /-- One chunk for each outermost symbol. -/
  | symbolOnly
  /-- Long symbols are split into a header and overlapping body chunks. -/
  | bodyAware
  /-- As before, and classes are split into a summary and their members. -/
  | hierarchical
  deriving DecidableEq, Repr

namespace ChunkStrategy

def text : ChunkStrategy → String
  | .symbolOnly => "symbol_only"
  | .bodyAware => "body_aware"
  | .hierarchical => "hierarchical"

def ofText? : String → Option ChunkStrategy
  | "symbol_only" => some .symbolOnly
  | "body_aware" => some .bodyAware
  | "hierarchical" => some .hierarchical
  | _ => none

/-- A strategy by its name, or by an object of that one member, which is null. -/
def ofJson? : Json → Option ChunkStrategy
  | .str s => ofText? s
  | .obj [(s, .null)] => ofText? s
  | _ => none

end ChunkStrategy

structure ChunkSettings where
  strategy : ChunkStrategy := .bodyAware
  maxTokens : Nat := 512
  overlapTokens : Nat := 64
  charsPerToken : Double := ⟨0x400c000000000000⟩
  /-- Text between symbols with fewer visible characters is no chunk of its own. -/
  minSize : Nat := 50
  /-- Symbols of more lines are split. -/
  largeSymbol : Nat := 30
  maxSubchunks : Nat := 10
  maxWindows : Nat := 100
  fileSummary : Bool := true
  deriving DecidableEq, Repr

namespace ChunkSettings

/-- A number of tokens in octets: rounded down, at least 0 and at most the greatest 64-bit number. -/
def octets (s : ChunkSettings) (tokens : Nat) : Nat :=
  (Float.ofNat tokens * s.charsPerToken.toFloat).toUInt64.toNat

/-- The budget of a chunk. -/
def maxChars (s : ChunkSettings) : Nat :=
  max (s.octets s.maxTokens) 1

def overlapChars (s : ChunkSettings) : Nat :=
  s.octets s.overlapTokens

end ChunkSettings

namespace ChunkSettings

/-- Settings from a record in which every member may be missing; unknown members do not matter. -/
def ofJson? (j : Json) : Option ChunkSettings := do
  guard (j.isRecord 9)
  let d : ChunkSettings := {}
  return {
    strategy := ← j.member 0 "strategy" ChunkStrategy.ofJson? d.strategy
    maxTokens := ← j.member 1 "max_chunk_tokens" Json.size? d.maxTokens
    overlapTokens := ← j.member 2 "overlap_tokens" Json.size? d.overlapTokens
    charsPerToken := ← j.member 3 "chars_per_token" Json.real? d.charsPerToken
    minSize := ← j.member 4 "min_chunk_size" Json.size? d.minSize
    largeSymbol := ← j.member 5 "large_symbol_threshold" Json.size? d.largeSymbol
    maxSubchunks := ← j.member 6 "max_subchunks" Json.size? d.maxSubchunks
    maxWindows := ← j.member 7 "max_window_chunks" Json.size? d.maxWindows
    fileSummary := ← j.member 8 "include_file_summary" Json.bool? d.fileSummary }

def toJson (s : ChunkSettings) : Json := .ofMembers [
  ("strategy", .str s.strategy.text),
  ("max_chunk_tokens", .ofNat s.maxTokens),
  ("overlap_tokens", .ofNat s.overlapTokens),
  ("chars_per_token", .str s.charsPerToken.hex),
  ("min_chunk_size", .ofNat s.minSize),
  ("large_symbol_threshold", .ofNat s.largeSymbol),
  ("max_subchunks", .ofNat s.maxSubchunks),
  ("max_window_chunks", .ofNat s.maxWindows),
  ("include_file_summary", .bool s.fileSummary)]

end ChunkSettings

end CodeIndex
