import Mathlib.Data.UInt

/-!
# Arithmetic in 64 bits

When the operations of `UInt64` are those of the natural numbers: a sum or a
product that is small enough, a difference that does not borrow.  Division,
the larger and the smaller of two words are so always.

## Main results

* `AddFits.toNat`, `SubFits.toNat`, `MulFits.toNat`: the value of an operation
  that does not wrap.
-/

namespace ArkiveSync.Library

/-- `a + b` does not wrap. -/
def AddFits (a b : UInt64) : Prop :=
  a.toNat + b.toNat < 18446744073709551616

/-- `a - b` does not wrap. -/
def SubFits (a b : UInt64) : Prop :=
  b.toNat ≤ a.toNat

/-- `a * b` does not wrap. -/
def MulFits (a b : UInt64) : Prop :=
  a.toNat * b.toNat < 18446744073709551616

variable {a b : UInt64}

theorem AddFits.toNat (h : AddFits a b) :
    (a + b).toNat = a.toNat + b.toNat := by
  rw [UInt64.toNat_add]
  exact Nat.mod_eq_of_lt h

theorem SubFits.toNat (h : SubFits a b) :
    (a - b).toNat = a.toNat - b.toNat :=
  UInt64.toNat_sub_of_le a b (UInt64.le_iff_toNat_le.mpr h)

theorem MulFits.toNat (h : MulFits a b) :
    (a * b).toNat = a.toNat * b.toNat := by
  rw [UInt64.toNat_mul]
  exact Nat.mod_eq_of_lt h

/-- A quotient rounded up, as long as the rounding does not wrap. -/
theorem toNat_ceilDiv (hadd : AddFits a b) (hb : 0 < b.toNat) :
    ((a + b - 1) / b).toNat = (a.toNat + b.toNat - 1) / b.toNat := by
  have hsub : SubFits (a + b) 1 := by
    show 1 ≤ (a + b).toNat
    rw [hadd.toNat]
    omega
  rw [UInt64.toNat_div, hsub.toNat, hadd.toNat]
  rfl

end ArkiveSync.Library
