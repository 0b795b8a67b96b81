import Docket.Bytes
import Mathlib.Data.Nat.Log
import Mathlib.Tactic.Ring

/-!
# Numbers in bytes, read back

A number that is written in so many bytes is read back if it fits into them, with
or without a sign, and what follows the bytes is left as it is. In as many bytes as
it needs, every number fits.

## Theorems

* `ofBigEndian_bigEndian`: The bytes of a number spell its remainder.
* `takeBytes?_append`, `takeNumber?_bigEndian`: What is read, and what is left.
* `ofBigEndian_bigEndianMinimal`: Every number fits into the bytes that it needs.
* `signedValue_ofNegative`: Two's complement is undone.
-/

namespace Docket

theorem length_bigEndian (width n : Nat) : (bigEndian width n).length = width := by
  induction width generalizing n with
  | zero => rfl
  | succ width ih => rw [bigEndian, List.length_append, ih, List.length_singleton]

theorem ofBigEndian_append_singleton (bytes : Bytes) (b : UInt8) :
    ofBigEndian (bytes ++ [b]) = ofBigEndian bytes * 256 + b.toNat := by
  unfold ofBigEndian
  rw [List.foldl_append]
  rfl

/-- The last bytes of a number spell what is left of it modulo their range. -/
theorem ofBigEndian_bigEndian (width n : Nat) :
    ofBigEndian (bigEndian width n) = n % 256 ^ width := by
  induction width generalizing n with
  | zero => rw [Nat.pow_zero, Nat.mod_one]; rfl
  | succ width ih =>
      have hbyte : (UInt8.ofNat (n % 256)).toNat = n % 256 :=
        UInt8.toNat_ofNat_of_lt' (Nat.mod_lt n (by decide))
      rw [bigEndian, ofBigEndian_append_singleton, ih, hbyte, Nat.pow_succ', Nat.mod_mul]
      ring

theorem takeBytes?_append (bytes rest : Bytes) :
    takeBytes? bytes.length (bytes ++ rest) = some (bytes, rest) := by
  unfold takeBytes?
  simp only []
  rw [List.take_left, if_pos rfl, List.drop_left]

/-- A number that fits into so many bytes is read back. -/
theorem takeNumber?_bigEndian {width n : Nat} (h : n < 2 ^ (8 * width)) (rest : Bytes) :
    takeNumber? width (bigEndian width n ++ rest) = some (n, rest) := by
  have htake := takeBytes?_append (bigEndian width n) rest
  rw [length_bigEndian] at htake
  rw [Nat.pow_mul] at h
  unfold takeNumber?
  rw [htake, Option.map_some, ofBigEndian_bigEndian, Nat.mod_eq_of_lt h]

theorem lt_pow_byteWidth (n : Nat) : n < 256 ^ byteWidth n := by
  unfold byteWidth
  by_cases hn : n = 0
  · rw [if_pos hn, hn]
    decide
  · rw [if_neg hn]
    -- Bits are counted in eights, rounded up.
    have hbits : n < 2 ^ (n.log2 + 1) := Nat.lt_log2_self
    have hwidth : n.log2 + 1 ≤ 8 * (n.log2 / 8 + 1) := by omega
    have hpow : 256 ^ (n.log2 / 8 + 1) = 2 ^ (8 * (n.log2 / 8 + 1)) := by
      rw [Nat.pow_mul]
    rw [hpow]
    exact Nat.lt_of_lt_of_le hbits (Nat.pow_le_pow_right (by decide) hwidth)

/-- Every number fits into the bytes that it needs. -/
theorem ofBigEndian_bigEndianMinimal (n : Nat) : ofBigEndian (bigEndianMinimal n) = n := by
  unfold bigEndianMinimal
  rw [ofBigEndian_bigEndian, Nat.mod_eq_of_lt (lt_pow_byteWidth n)]

theorem length_bigEndianMinimal (n : Nat) : (bigEndianMinimal n).length = byteWidth n :=
  length_bigEndian _ _

/-- A larger number needs no fewer bytes. -/
theorem byteWidth_mono {m n : Nat} (h : m ≤ n) : byteWidth m ≤ byteWidth n := by
  unfold byteWidth
  by_cases hm : m = 0
  · rw [if_pos hm]
    exact Nat.zero_le _
  · have hn : n ≠ 0 := by omega
    rw [if_neg hm, if_neg hn]
    have hlog : m.log2 ≤ n.log2 := by
      rw [Nat.log2_eq_log_two, Nat.log2_eq_log_two]
      exact Nat.log_mono_right h
    omega

/-- A negative number that is written in two's complement is read back. -/
theorem signedValue_ofNegative {width : Nat} {n : Int} (hwidth : 0 < width) (hneg : n < 0)
    (hrange : -(2 ^ (8 * width - 1) : Nat) ≤ n) :
    (n + 2 ^ (8 * width)).toNat < 2 ^ (8 * width) ∧
      signedValue width (n + 2 ^ (8 * width)).toNat = n := by
  have hdouble : 2 ^ (8 * width) = 2 * 2 ^ (8 * width - 1) := by
    rw [← Nat.pow_succ']
    congr 1
    omega
  -- Half of the range is for negative numbers, counted from its end.
  have hcast : (2 : Int) ^ (8 * width) = ((2 ^ (8 * width) : Nat) : Int) := by
    rw [Int.natCast_pow]
    rfl
  unfold signedValue
  rw [hcast]
  refine ⟨by omega, ?_⟩
  rw [if_neg (by omega)]
  omega

end Docket
