/-!
# UTF-8

Reading octets as text: where the first fault lies and how many octets it spans, the wording of a
refusal, and the reading that puts a replacement character in the place of each fault.
-/

namespace CodeIndex.Text.Utf8

/-- What a leading octet announces: how many octets follow, and the bounds of the first of them. -/
def announced (b : Nat) : Option (Nat × Nat × Nat) :=
  if b < 0x80 then some (0, 0, 0)
  else if 0xc2 ≤ b && b ≤ 0xdf then some (1, 0x80, 0xbf)
  else if b == 0xe0 then some (2, 0xa0, 0xbf)
  else if (0xe1 ≤ b && b ≤ 0xec) || b == 0xee || b == 0xef then some (2, 0x80, 0xbf)
  else if b == 0xed then some (2, 0x80, 0x9f)
  else if b == 0xf0 then some (3, 0x90, 0xbf)
  else if 0xf1 ≤ b && b ≤ 0xf3 then some (3, 0x80, 0xbf)
  else if b == 0xf4 then some (3, 0x80, 0x8f)
  else none

/-- The result of reading the front of a list of octets. -/
inductive Step where
  /-- A character of `width` octets. -/
  | char (c : Char) (width : Nat)
  /-- `width` octets that start no character. -/
  | invalid (width : Nat)
  /-- The octets end inside a character. -/
  | incomplete

/-- Reads `need` following octets, of which the next lies between `lo` and `hi`; `seen` octets are
already read and `code` is their value. -/
def follow (code seen : Nat) : (need lo hi : Nat) → List UInt8 → Step
  | 0, _, _, _ => .char (Char.ofNat code) seen
  | _ + 1, _, _, [] => .incomplete
  | need + 1, lo, hi, b :: rest =>
    if lo ≤ b.toNat && b.toNat ≤ hi then
      follow (code * 64 + b.toNat % 64) (seen + 1) need 0x80 0xbf rest
    else .invalid seen

/-- Reads one character. `bs` is what follows the leading octet `b`. -/
def step (b : UInt8) (bs : List UInt8) : Step :=
  match announced b.toNat with
  | none => .invalid 1
  | some (0, _, _) => .char (Char.ofNat b.toNat) 1
  | some (1, lo, hi) => follow (b.toNat % 32) 1 1 lo hi bs
  | some (2, lo, hi) => follow (b.toNat % 16) 1 2 lo hi bs
  | some (n, lo, hi) => follow (b.toNat % 8) 1 n lo hi bs

/-- The first fault in a list of octets. -/
structure Fault where
  /-- The octets before it. -/
  offset : Nat
  /-- Its octets, or none where the text ends inside a character. -/
  width : Option Nat
  deriving DecidableEq, Repr

/-- The error text for octets that are no UTF-8. -/
def Fault.message (f : Fault) : String :=
  match f.width with
  | some n => s!"invalid utf-8 sequence of {n} bytes from index {f.offset}"
  | none => s!"incomplete utf-8 byte sequence from index {f.offset}"

def decodeFrom (offset skip : Nat) (acc : List Char) : List UInt8 → Except Fault (List Char)
  | [] => .ok acc.reverse
  | b :: bs =>
    match skip with
    | k + 1 => decodeFrom (offset + 1) k acc bs
    | 0 =>
      match step b bs with
      | .char c w => decodeFrom (offset + 1) (w - 1) (c :: acc) bs
      | .invalid w => .error ⟨offset, some w⟩
      | .incomplete => .error ⟨offset, none⟩

/-- The text that octets spell, or their first fault. -/
def decode (bs : List UInt8) : Except Fault String :=
  (decodeFrom 0 0 [] bs).map String.ofList

def decodeLossyFrom (skip : Nat) (acc : List Char) : List UInt8 → List Char
  | [] => acc.reverse
  | b :: bs =>
    match skip with
    | k + 1 => decodeLossyFrom k acc bs
    | 0 =>
      match step b bs with
      | .char c w => decodeLossyFrom (w - 1) (c :: acc) bs
      | .invalid w => decodeLossyFrom (w - 1) (Char.ofNat 0xfffd :: acc) bs
      | .incomplete => (Char.ofNat 0xfffd :: acc).reverse

/-- The text that octets spell, with one replacement character for each fault. -/
def decodeLossy (bs : List UInt8) : String :=
  String.ofList (decodeLossyFrom 0 [] bs)

end CodeIndex.Text.Utf8
