import CodeIndex.Numeric.Single

/-!
# Vectors as octets

A vector in a table is a row of octets, four for each number, the lowest first. Octets at the end that are too few
for a number do not count.
-/

namespace CodeIndex

/-- The octets of a number. -/
def Single.octets (x : Single) : List UInt8 :=
  (List.range 4).map fun i => .ofNat (x.bits.toNat / Nat.pow 256 i)

/-- The number with these octets. -/
def Single.ofOctets (a b c d : UInt8) : Single :=
  ⟨.ofNat (a.toNat + 256 * (b.toNat + 256 * (c.toNat + 256 * d.toNat)))⟩

namespace Vectors

def encode (v : List Single) : List UInt8 :=
  v.flatMap Single.octets

def decode : List UInt8 → List Single
  | a :: b :: c :: d :: rest => .ofOctets a b c d :: decode rest
  | _ => []

theorem decode_octets_append (x : Single) (rest : List UInt8) : decode (x.octets ++ rest) = x :: decode rest := by
  have hbits : x.bits.toNat < 2 ^ 32 := x.bits.toNat_lt
  have hnumber : Single.ofOctets (.ofNat (x.bits.toNat / 1)) (.ofNat (x.bits.toNat / 256))
      (.ofNat (x.bits.toNat / 65536)) (.ofNat (x.bits.toNat / 16777216)) = x := by
    refine congrArg Single.mk (UInt32.toNat_inj.mp ?_)
    simp only [UInt32.toNat_ofNat', UInt8.toNat_ofNat']
    omega
  exact congrArg (· :: decode rest) hnumber

/-- No number is lost or changed, whatever its bits are. -/
@[simp]
theorem decode_encode (v : List Single) : decode (encode v) = v := by
  induction v with
  | nil => rfl
  | cons x rest ih => rw [encode, List.flatMap_cons, decode_octets_append, ← encode, ih]

end Vectors

end CodeIndex
