import CodeIndex.Numeric.Double

/-!
# The order of doubles

`lt` and `le` compare keys, and are false as soon as one side is a NaN. Times are numbers without a sign bit: a column
of numbers keeps them as they are.
-/

namespace CodeIndex.Double

variable {x y : Double}

theorem lt_iff : x.lt y = true ↔ (x.isNaN = false ∧ y.isNaN = false) ∧ x.key < y.key := by
  simp [lt]

theorem not_le_of_lt (h : x.lt y = true) : y.le x = false := by
  rw [lt_iff] at h
  simp [le, h]

/-- A number without a sign bit. -/
structure IsTime (x : Double) : Prop where
  number : x.isNaN = false
  unsigned : x.isNegative = false

theorem isTime_zero : IsTime zero := ⟨rfl, rfl⟩

/-- What is larger than zero is a time. -/
theorem isTime_of_pos (h : zero.lt x = true) : x.IsTime := by
  obtain ⟨⟨-, hnumber⟩, hkey⟩ := lt_iff.mp h
  refine ⟨hnumber, Bool.eq_false_iff.mpr fun hneg => ?_⟩
  rw [show zero.key = 0 from rfl, key, if_pos hneg] at hkey
  omega

theorem IsTime.le_self (h : x.IsTime) : x.le x = true := by
  simp [le, h.number]

/-- The only time that counts as zero is zero. -/
theorem IsTime.eq_zero (h : x.IsTime) (hkey : x.key = 0) : x = zero := by
  have hunsigned := h.unsigned
  rw [key, if_neg (by simp [hunsigned]), magnitude] at hkey
  simp only [isNegative, decide_eq_false_iff_not, Nat.not_le, Nat.pow_eq] at hunsigned hkey
  rw [Nat.mod_eq_of_lt hunsigned] at hkey
  have hbits : x.bits = 0 := UInt64.toNat_inj.mp (Int.ofNat_eq_zero.mp hkey)
  exact congrArg Double.mk hbits

end CodeIndex.Double
