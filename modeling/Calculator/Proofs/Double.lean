import Calculator.Double
import Mathlib
/-!
Doubles by rank. The bits of a double that is no nan are kept as they are, so that a rank is the
rank of its double (`Double.rank_ofRank`), and such a double equals itself (`Double.beq_self`). The
laws of float formats (`pack_unpack_of_valid`, `beq_self_iff`) come with the whole library only, for
none of its modules imports them.
-/
namespace Calculator.Double

open Float.Model

variable {r : Nat}

theorem infinityRank_eq : infinityRank = 2047 * 2 ^ 52 := by decide

theorem toNat_bits (hr : r ≤ infinityRank) : (UInt64.ofNat r).toBitVec.toNat = r := by
  rw [infinityRank_eq] at hr
  rw [UInt64.toNat_toBitVec, UInt64.toNat_ofNat']
  exact Nat.mod_eq_of_lt (by omega)

/-- The bits of a rank are not those of a nan. -/
theorem valid_bits (hr : r ≤ infinityRank) :
    Format.binary64.Valid (UInt64.ofNat r).toBitVec := by
  have hnat := toNat_bits hr
  rw [infinityRank_eq] at hr
  refine ⟨fun he hm => absurd ?_ hm⟩
  have hexponent : r / 2 ^ 52 % 2 ^ 11 = 2 ^ 11 - 1 := by
    have ht := congrArg BitVec.toNat he
    rw [UnpackedFloat.unpackExponent_def, BitVec.extractLsb'_toNat] at ht
    rw [← hnat, ← Nat.shiftRight_eq_div_pow]
    exact ht
  apply BitVec.eq_of_toNat_eq
  rw [UnpackedFloat.unpackMantissa_def, BitVec.extractLsb'_toNat, hnat, Nat.shiftRight_zero]
  change r % 2 ^ 52 = 0
  omega

theorem toBits_ofRank (hr : r ≤ infinityRank) : (ofRank false r).toBits = UInt64.ofNat r :=
  congrArg UInt64.ofBitVec (UnpackedFloat.pack_unpack_of_valid (valid_bits hr))

theorem toNat_toBits_ofRank (hr : r ≤ infinityRank) : (ofRank false r).toBits.toNat = r := by
  rw [toBits_ofRank hr, ← UInt64.toNat_toBitVec, toNat_bits hr]

theorem rank_ofRank (hr : r ≤ infinityRank) : rank (ofRank false r) = r := by
  have ht : twoTo 63 = 2 ^ 63 := rfl
  rw [rank, toNat_toBits_ofRank hr, ht]
  rw [infinityRank_eq] at hr
  exact Nat.mod_eq_of_lt (by omega)

theorem isNegative_ofRank (hr : r ≤ infinityRank) : isNegative (ofRank false r) = false := by
  have ht : twoTo 63 = 2 ^ 63 := rfl
  rw [isNegative, toNat_toBits_ofRank hr, ht]
  rw [infinityRank_eq] at hr
  exact decide_eq_false (by omega)

theorem beq_self (hr : r ≤ infinityRank) : (ofRank false r == ofRank false r) = true := by
  rw [Float.beq_self_iff]
  intro hnan
  have hlt : infinityRank < (UnpackedFloat.packedNaN Format.binary64).toNat := by decide
  have hbits : (ofRank false r).toBits.toBitVec = UnpackedFloat.packedNaN Format.binary64 := by
    rw [hnan]
    rfl
  rw [← hbits, UInt64.toNat_toBitVec, toNat_toBits_ofRank hr] at hlt
  omega

end Calculator.Double
