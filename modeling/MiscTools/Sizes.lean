import Mathlib.Algebra.Group.Int.Defs
import Mathlib.Algebra.Group.Nat.Defs

/-!
# size_t and ssize_t

A `size_t` is a `UInt64`. An `ssize_t` is an `Int`: the conversion from
`size_t` is `ssize`, the one back is `UInt64.ofInt`, and on the sizes an
object can have both are the identity.
-/

namespace MiscTools

namespace Sizes

/-- `(ssize_t)n` -/
def ssize (n : UInt64) : Int := n.toInt64.toInt

theorem ssize_of_lt {n : UInt64} (h : n.toNat < 2 ^ 63) : ssize n = n.toNat := by
  show n.toBitVec.toInt = n.toNat
  rw [BitVec.toInt_eq_toNat_of_lt]
  · rfl
  · show 2 * n.toNat < 2 ^ 64
    omega

theorem toNat_ofInt {i : Nat} (h : i < 2 ^ 64) : (UInt64.ofInt i).toNat = i := by
  show (UInt64.ofNat ((i : Int) % 2 ^ 64).toNat).toNat = i
  rw [UInt64.toNat_ofNat']
  omega

theorem toNat_pos {n : UInt64} (h : n ≠ 0) : 0 < n.toNat :=
  Nat.pos_of_ne_zero fun h0 => h (UInt64.toNat_inj.mp h0)

/-- `n - 1`, where it does not wrap. -/
theorem toNat_sub_one {n : UInt64} (h : n ≠ 0) : (n - 1).toNat = n.toNat - 1 := by
  have hle : (1 : UInt64) ≤ n := UInt64.le_iff_toNat_le.mpr (toNat_pos h)
  rw [UInt64.toNat_sub_of_le _ _ hle]
  rfl

end Sizes

end MiscTools
