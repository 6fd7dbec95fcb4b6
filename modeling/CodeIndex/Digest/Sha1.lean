import CodeIndex.Numeric.Hex

/-!
# SHA-1 and name-based identifiers

The digest of a list of octets, and the identifier that it gives to a name within a name space.
-/

namespace CodeIndex.Sha1

structure State where
  a : UInt32
  b : UInt32
  c : UInt32
  d : UInt32
  e : UInt32

def start : State := ⟨0x67452301, 0xefcdab89, 0x98badcfe, 0x10325476, 0xc3d2e1f0⟩

def rotate (x n : UInt32) : UInt32 :=
  (x <<< n) ||| (x >>> (32 - n))

/-- The message followed by a one bit, zeros and its length in bits, to whole blocks of 64 octets. -/
def padded (octets : List UInt8) : List UInt8 :=
  let n := octets.length
  let zeros := (119 - n % 64) % 64
  let bits := n * 8
  octets ++ [0x80] ++ List.replicate zeros 0 ++
    (List.range 8).map fun i => UInt8.ofNat (bits / Nat.pow 256 (7 - i) % 256)

def wordsOf : List UInt8 → List UInt32
  | a :: b :: c :: d :: rest =>
    ((a.toUInt32 <<< 24) ||| (b.toUInt32 <<< 16) ||| (c.toUInt32 <<< 8) ||| d.toUInt32) :: wordsOf rest
  | _ => []

/-- Adds `n` words to a schedule held in reverse. -/
def schedule : Nat → List UInt32 → List UInt32
  | 0, ws => ws
  | n + 1, ws =>
    let w (i : Nat) := ws.getD (i - 1) 0
    schedule n (rotate (w 3 ^^^ w 8 ^^^ w 14 ^^^ w 16) 1 :: ws)

def step (s : State) (i : Nat) (w : UInt32) : State :=
  let (f, k) :=
    if i < 20 then ((s.b &&& s.c) ||| (~~~s.b &&& s.d), (0x5a827999 : UInt32))
    else if i < 40 then (s.b ^^^ s.c ^^^ s.d, 0x6ed9eba1)
    else if i < 60 then ((s.b &&& s.c) ||| (s.b &&& s.d) ||| (s.c &&& s.d), 0x8f1bbcdc)
    else (s.b ^^^ s.c ^^^ s.d, 0xca62c1d6)
  ⟨rotate s.a 5 + f + s.e + k + w, s.a, rotate s.b 30, s.c, s.d⟩

def block (s : State) (words : List UInt32) : State :=
  let ws := (schedule 64 words.reverse).reverse
  let t := ws.zipIdx.foldl (fun t (w, i) => step t i w) s
  ⟨s.a + t.a, s.b + t.b, s.c + t.c, s.d + t.d, s.e + t.e⟩

def blocks : Nat → State → List UInt32 → State
  | 0, s, _ => s
  | n + 1, s, ws => blocks n (block s (ws.take 16)) (ws.drop 16)

/-- The digest as five words. -/
def digest (octets : List UInt8) : List UInt32 :=
  let ws := wordsOf (padded octets)
  let s := blocks (ws.length / 16) start ws
  [s.a, s.b, s.c, s.d, s.e]

end CodeIndex.Sha1

namespace CodeIndex

/-- The name space of object identifiers. -/
def objectNamespace : List UInt8 := [
  0x6b, 0xa7, 0xb8, 0x12, 0x9d, 0xad, 0x11, 0xd1, 0x80, 0xb4, 0x00, 0xc0, 0x4f, 0xd4, 0x30, 0xc8]

/-- The identifier of a name: the first 128 bits of a digest, with version 5 and the variant set, in
groups of 8, 4, 4, 4 and 12 digits. -/
def nameId (name : String) : String :=
  let words := (Sha1.digest (objectNamespace ++ name.toUTF8.toList)).take 4
  let n := words.foldl (fun n w => n * Nat.pow 2 32 + w.toNat) 0
  let versioned := n / Nat.pow 2 80 * Nat.pow 2 80 + 5 * Nat.pow 2 76 + n % Nat.pow 2 76
  let marked := versioned / Nat.pow 2 64 * Nat.pow 2 64 + 2 * Nat.pow 2 62 + versioned % Nat.pow 2 62
  let ds := Hex.digits 32 marked
  let group (start count : Nat) := String.ofList ((ds.drop start).take count)
  "-".intercalate [group 0 8, group 8 4, group 12 4, group 16 4, group 20 12]

end CodeIndex
