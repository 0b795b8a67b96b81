import Docket.Proofs.Number.Digits
import Docket.Proofs.Number.Rounding

/-!
# Numbers read back

Whatever digits are chosen for a finite number, they read back as that number.
Digits found by the search do by the test they have passed; the digits that are
taken when the search finds none are all there are, so that they denote the number
itself, and a finite number is rounded to itself.

A text need not spell the digits that were chosen: a format drops zeros at the end
and adds others. Such a change is a shift of the point, and `toBinary_shift` says
that it makes no difference.

## Main definitions

* `Decimal.shift`: The same decimal with zeros added at its end.

## Theorems

* `Decimal.toBinary_shift`: Zeros at the end make no difference.
* `Binary64.toBinary_exact`: All digits of a number denote it.
* `Binary64.toBinary_shortest`: The digits that are chosen read back.
-/

namespace Docket

namespace Decimal

/-- The same decimal with `k` zeros more at its end. -/
def shift (d : Decimal) (k : Nat) : Decimal := ⟨d.digits * 10 ^ k, d.exponent - k⟩

/-- Zeros at the end make no difference. -/
theorem toBinary_shift (negative : Bool) (d : Decimal) (k : Nat) :
    (d.shift k).toBinary negative = d.toBinary negative := by
  have hten : ∀ n : Nat, 0 < 10 ^ n := fun n => Nat.pow_pos (by decide)
  unfold toBinary shift
  simp only []
  by_cases hd : d.digits = 0
  · rw [hd, Nat.zero_mul, if_pos rfl, if_pos rfl]
  have hdk : ¬ d.digits * 10 ^ k = 0 :=
    Nat.ne_of_gt (Nat.mul_pos (Nat.pos_of_ne_zero hd) (hten k))
  have htop : (digitCount (d.digits * 10 ^ k) : Int) + (d.exponent - k) =
      (digitCount d.digits : Int) + d.exponent := by
    rw [digitCount_mul_pow (Nat.pos_of_ne_zero hd)]
    omega
  rw [if_neg hd, if_neg hdk, htop]
  -- Within the bounds both are ratios, and one is the other with a common factor.
  refine congrArg (ite _ _) (congrArg (ite _ _) ?_)
  by_cases he : 0 ≤ d.exponent
  · rw [if_pos he]
    by_cases hek : 0 ≤ d.exponent - k
    · have hsum : k + (d.exponent - k).toNat = d.exponent.toNat := by omega
      rw [if_pos hek, Nat.mul_assoc, ← Nat.pow_add, hsum]
    · have hsum : k = d.exponent.toNat + (-(d.exponent - k)).toNat := by omega
      have hscale := Binary64.ofRatio_scale negative (d.digits * 10 ^ d.exponent.toNat)
        Nat.zero_lt_one (hten (-(d.exponent - k)).toNat)
      rw [Nat.mul_assoc, ← Nat.pow_add, ← hsum, Nat.one_mul] at hscale
      rw [if_neg hek, hscale]
  · have hek : ¬ 0 ≤ d.exponent - k := by omega
    have hsum : (-(d.exponent - k)).toNat = (-d.exponent).toNat + k := by omega
    rw [if_neg he, if_neg hek, hsum, Nat.pow_add, Binary64.ofRatio_scale _ _ (hten _) (hten k)]

end Decimal

namespace Binary64

/-- The magnitude of a number below the code of a binade. -/
theorem units_lt {x : Binary64} {n : Nat} (h : x.code < (n + 2) * 2 ^ 52) :
    x.units < 2 ^ 53 * 2 ^ n := by
  have hcode := Nat.mod_add_div x.code (2 ^ 52)
  have hfraction : x.code % 2 ^ 52 < 2 ^ 52 := Nat.mod_lt _ (by decide)
  have hpos := Nat.two_pow_pos n
  unfold units
  simp only []
  -- A subnormal number has no hidden bit, and is small enough anyway.
  by_cases he : x.code / 2 ^ 52 = 0
  · rw [if_pos he]
    omega
  · rw [if_neg he]
    have hpow : 2 ^ (x.code / 2 ^ 52 - 1) ≤ 2 ^ n :=
      Nat.pow_le_pow_right (by decide) (by omega)
    calc
      (2 ^ 52 + x.code % 2 ^ 52) * 2 ^ (x.code / 2 ^ 52 - 1)
        ≤ (2 ^ 52 + x.code % 2 ^ 52) * 2 ^ n := Nat.mul_le_mul_left _ hpow
      _ < 2 ^ 53 * 2 ^ n := (Nat.mul_lt_mul_right hpos).mpr (by omega)

/-- All digits of a number denote it. -/
theorem toBinary_exact {x : Binary64} (hfinite : x.code < infinityCode) (hpos : x.units ≠ 0) :
    x.exact.toBinary x.negative = x := by
  have hfive : 0 < 5 ^ unitScale := Nat.pow_pos (by decide)
  have hdigits : ¬ x.units * 5 ^ unitScale = 0 :=
    Nat.ne_of_gt (Nat.mul_pos (Nat.pos_of_ne_zero hpos) hfive)
  -- The first digit stands neither too high nor too low.
  have hhigh : digitCount (x.units * 5 ^ unitScale) ≤ 1383 := by
    rw [digitCount_le_iff (by decide)]
    refine Nat.lt_of_lt_of_le ((Nat.mul_lt_mul_right hfive).mpr (units_lt (n := 2045) hfinite)) ?_
    decide +kernel
  have hlow : ¬ digitCount (x.units * 5 ^ unitScale) ≤ 750 := by
    rw [digitCount_le_iff (by decide), Nat.not_lt]
    refine Nat.le_trans (m := 5 ^ unitScale) ?_ (Nat.le_mul_of_pos_left _
      (Nat.pos_of_ne_zero hpos))
    decide +kernel
  have hscale : (unitScale : Int) = 1074 := rfl
  unfold exact Decimal.toBinary
  simp only []
  rw [if_neg hdigits, if_neg (by omega), if_neg (by omega), if_neg (by omega)]
  unfold ofRatio
  have hexponent : (- -(unitScale : Int)).toNat = unitScale := by omega
  have hten : x.units * 5 ^ unitScale * 2 ^ unitScale = x.units * 10 ^ unitScale := by
    rw [Nat.mul_assoc, ← Nat.mul_pow]
  rw [if_neg hdigits, hexponent, hten, roundCode_units hfinite (Nat.pow_pos (by decide))]
  exact ofCode_code x

/-- The digits that are chosen read back. -/
theorem toBinary_shortest {x : Binary64} (h : x.isFinite = true) :
    x.shortest.toBinary x.negative = x := by
  have hfinite : x.code < infinityCode := of_decide_eq_true h
  unfold shortest
  by_cases hzero : x.units = 0
  · rw [if_pos hzero]
    have hcode := ofCode_code x
    rw [code_eq_zero hzero] at hcode
    exact hcode
  · rw [if_neg hzero]
    cases hfind : (List.range 17).findSome? fun n => x.readableWith (n + 1) with
    | none => exact toBinary_exact hfinite hzero
    | some d =>
        -- A neighbour on the grid is chosen only after it was read back.
        rcases List.exists_of_findSome?_eq_some hfind with ⟨n, -, hn⟩
        unfold readableWith at hn
        simp only [] at hn
        by_cases hnear :
            (x.gridNeighbours (x.decimalTop - ↑(n + 1))).1.toBinary x.negative = x
        · rw [if_pos hnear, Option.some.injEq] at hn
          rw [Option.getD_some, ← hn]
          exact hnear
        · rw [if_neg hnear] at hn
          by_cases hfar :
              (x.gridNeighbours (x.decimalTop - ↑(n + 1))).2.toBinary x.negative = x
          · rw [if_pos hfar, Option.some.injEq] at hn
            rw [Option.getD_some, ← hn]
            exact hfar
          · rw [if_neg hfar] at hn
            exact absurd hn.symm (Option.some_ne_none _)

end Binary64

end Docket
