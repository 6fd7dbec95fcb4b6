import CodeIndex.Numeric.Hex

/-!
# BLAKE3

The plain hash: the input is cut into chunks of 1024 octets, a chunk is compressed block by block, and
the chunks are joined in pairs from the left until one is left.
-/

namespace CodeIndex.Blake3

abbrev Words (n : Nat) := Vector UInt32 n

def iv : Words 8 := #v[
  0x6a09e667, 0xbb67ae85, 0x3c6ef372, 0xa54ff53a, 0x510e527f, 0x9b05688c, 0x1f83d9ab, 0x5be0cd19]

def rotate (x : UInt32) (n : UInt32) : UInt32 :=
  (x >>> n) ||| (x <<< (32 - n))

/-- Mixes two message words into a column or a diagonal. -/
def mix (s : Words 16) (a b c d : Fin 16) (x y : UInt32) : Words 16 :=
  let s := s.set a (s[a] + s[b] + x)
  let s := s.set d (rotate (s[d] ^^^ s[a]) 16)
  let s := s.set c (s[c] + s[d])
  let s := s.set b (rotate (s[b] ^^^ s[c]) 12)
  let s := s.set a (s[a] + s[b] + y)
  let s := s.set d (rotate (s[d] ^^^ s[a]) 8)
  let s := s.set c (s[c] + s[d])
  s.set b (rotate (s[b] ^^^ s[c]) 7)

def round (s m : Words 16) : Words 16 :=
  let s := mix s 0 4 8 12 m[0] m[1]
  let s := mix s 1 5 9 13 m[2] m[3]
  let s := mix s 2 6 10 14 m[4] m[5]
  let s := mix s 3 7 11 15 m[6] m[7]
  let s := mix s 0 5 10 15 m[8] m[9]
  let s := mix s 1 6 11 12 m[10] m[11]
  let s := mix s 2 7 8 13 m[12] m[13]
  mix s 3 4 9 14 m[14] m[15]

/-- The order of the message words in the next round. -/
def permute (m : Words 16) : Words 16 := #v[
  m[2], m[6], m[3], m[10], m[7], m[0], m[4], m[13], m[1], m[11], m[12], m[5], m[9], m[14], m[15], m[8]]

def rounds : Nat → Words 16 → Words 16 → Words 16
  | 0, s, _ => s
  | n + 1, s, m => rounds n (round s m) (permute m)

/-- The input of a compression. -/
structure Block where
  chain : Words 8
  message : Words 16
  counter : Nat
  size : Nat
  flags : UInt32

def chunkStart : UInt32 := 1
def chunkEnd : UInt32 := 2
def parent : UInt32 := 4
def root : UInt32 := 8

/-- The chaining value that a block yields. -/
def Block.compress (b : Block) (flags : UInt32) : Words 8 :=
  let h := b.chain
  let s : Words 16 := #v[
    h[0], h[1], h[2], h[3], h[4], h[5], h[6], h[7], iv[0], iv[1], iv[2], iv[3],
    UInt32.ofNat (b.counter % Nat.pow 2 32), UInt32.ofNat (b.counter / Nat.pow 2 32 % Nat.pow 2 32),
    UInt32.ofNat b.size, b.flags ||| flags]
  let s := rounds 7 s b.message
  #v[s[0] ^^^ s[8], s[1] ^^^ s[9], s[2] ^^^ s[10], s[3] ^^^ s[11], s[4] ^^^ s[12], s[5] ^^^ s[13],
    s[6] ^^^ s[14], s[7] ^^^ s[15]]

/-- The word at a place of four octets, the lowest first; missing octets are zero. -/
def wordAt (octets : Array UInt8) (i : Nat) : UInt32 :=
  let o (k : Nat) : UInt32 := (octets.getD (4 * i + k) 0).toUInt32
  o 0 ||| (o 1 <<< 8) ||| (o 2 <<< 16) ||| (o 3 <<< 24)

def messageOf (octets : List UInt8) : Words 16 :=
  let a := octets.toArray
  Vector.ofFn fun i => wordAt a i

/-- Groups of at most `n + 1` elements, the last one shorter; an empty list is one empty group. -/
def groups (n : Nat) (fuel : Nat) (xs : List α) : List (List α) :=
  match fuel with
  | 0 => [xs]
  | fuel + 1 => if xs.length ≤ n + 1 then [xs] else xs.take (n + 1) :: groups n fuel (xs.drop (n + 1))

/-- The last block of a chunk, with the blocks before it chained in. -/
def chunkBlocks (counter : Nat) (chain : Words 8) (flags : UInt32) : List (List UInt8) → Block
  | [] => ⟨chain, messageOf [], counter, 0, flags ||| chunkEnd⟩
  | [last] => ⟨chain, messageOf last, counter, last.length, flags ||| chunkEnd⟩
  | block :: rest =>
    chunkBlocks counter (Block.compress ⟨chain, messageOf block, counter, block.length, flags⟩ 0) 0 rest

def chunkOf (counter : Nat) (octets : List UInt8) : Block :=
  chunkBlocks counter iv chunkStart (groups 63 16 octets)

/-- The block over the chaining values of two others. -/
def join (left right : Block) : Block :=
  let l := left.compress 0
  let r := right.compress 0
  ⟨iv, #v[l[0], l[1], l[2], l[3], l[4], l[5], l[6], l[7], r[0], r[1], r[2], r[3], r[4], r[5], r[6], r[7]],
    0, 64, parent⟩

/-- Joins neighbours; one that is left over stays. -/
def pairUp : List Block → List Block
  | a :: b :: rest => join a b :: pairUp rest
  | rest => rest

/-- Joins neighbours until one block is left. -/
def reduce : Nat → List Block → List Block
  | 0, bs => bs
  | n + 1, bs => if bs.length ≤ 1 then bs else reduce n (pairUp bs)

/-- The 32 octets of the hash as words. -/
def hash (octets : List UInt8) : Words 8 :=
  let chunks := (groups 1023 octets.length octets).zipIdx.map fun (c, i) => chunkOf i c
  match reduce chunks.length chunks with
  | b :: _ => b.compress root
  | [] => iv

/-- Eight hexadecimal digits, the lowest octet first. -/
def wordHex (w : UInt32) : List Char :=
  let n := w.toNat
  Hex.digits 2 (n % 256) ++ Hex.digits 2 (n / 256 % 256) ++ Hex.digits 2 (n / 65536 % 256) ++
    Hex.digits 2 (n / 16777216)

/-- The first sixteen hexadecimal digits of the hash. -/
def shortHash (octets : List UInt8) : String :=
  let h := hash octets
  String.ofList (wordHex h[0] ++ wordHex h[1])

end CodeIndex.Blake3
