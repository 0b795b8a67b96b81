import Docket.Number.Binary64

/-!
# Rounding

Rounding depends on a ratio alone, not on the two numbers it is given by, and it
returns every number that is finite as it is.

Both follow from what a binade is: the least `p` such that a ratio is below
`2 ^ (p + 53)`. `binade` finds it from two logarithms; `IsBinade` says it without
them, and no two binades fit one ratio. A common factor then cancels on both sides
of each inequality.

## Main definitions

* `Binary64.IsBinade`: The binade of a ratio.

## Theorems

* `Binary64.isBinade_binade`: The binade that is found is one.
* `Binary64.IsBinade.unique`: There is but one.
* `Binary64.roundCode_scale`: A common factor makes no difference to rounding.
* `Binary64.roundCode_units`: A finite number is rounded to itself.
-/

namespace Docket

namespace Binary64

/-- The binade of `a / d`: the least `p` with `a / d < 2 ^ (p + 53)`. -/
def IsBinade (a d p : Nat) : Prop :=
  a < d * 2 ^ (p + 53) ∧ (p = 0 ∨ d * 2 ^ (p + 52) ≤ a)

/-- There is but one binade. -/
theorem IsBinade.unique {a d p q : Nat} (hp : IsBinade a d p) (hq : IsBinade a d q) : p = q := by
  -- Of two, the later one would begin where the earlier one ends, or before.
  have hle : ∀ {p q : Nat}, IsBinade a d p → IsBinade a d q → ¬ p < q := by
    intro p q hp hq hlt
    rcases hq.2 with rfl | hq
    · omega
    · have hpow : d * 2 ^ (p + 53) ≤ d * 2 ^ (q + 52) :=
        Nat.mul_le_mul_left d (Nat.pow_le_pow_right (by decide) (by omega))
      have := hp.1
      omega
  have hpq := hle hp hq
  have hqp := hle hq hp
  omega

/-- The binade that is found is one. -/
theorem isBinade_binade (a : Nat) {d : Nat} (hd : 0 < d) : IsBinade a d (binade a d) := by
  have hd₁ : 2 ^ d.log2 ≤ d := Nat.log2_self_le (by omega)
  have hd₂ : d < 2 ^ (d.log2 + 1) := Nat.lt_log2_self
  have ha₂ : a < 2 ^ (a.log2 + 1) := Nat.lt_log2_self
  -- The logarithms are enough for the upper bound.
  have hbelow : ∀ p, a.log2 ≤ p + d.log2 + 52 → a < d * 2 ^ (p + 53) := by
    intro p hp
    have h₁ : 2 ^ (a.log2 + 1) ≤ 2 ^ d.log2 * 2 ^ (p + 53) := by
      rw [← Nat.pow_add]
      exact Nat.pow_le_pow_right (by decide) (by omega)
    have h₂ := Nat.mul_le_mul_right (2 ^ (p + 53)) hd₁
    omega
  unfold binade
  simp only []
  by_cases hp : a.log2 ≤ d.log2 + 52
  · rw [if_neg (by omega)]
    have hzero : a.log2 - (d.log2 + 52) = 0 := by omega
    exact ⟨hbelow _ (by omega), Or.inl hzero⟩
  · by_cases hlow : a < d * 2 ^ (a.log2 - (d.log2 + 52) + 52)
    · rw [if_pos ⟨by omega, hlow⟩]
      have hpred : a.log2 - (d.log2 + 52) - 1 + 53 = a.log2 - (d.log2 + 52) + 52 := by omega
      refine ⟨hpred ▸ hlow, Or.inr ?_⟩
      -- One binade further down the ratio is too large again.
      have ha₁ : 2 ^ a.log2 ≤ a := Nat.log2_self_le (by rintro rfl; exact hp (Nat.zero_le _))
      have h₁ := Nat.mul_le_mul_right (2 ^ (a.log2 - (d.log2 + 52) - 1 + 52)) (Nat.le_of_lt hd₂)
      rw [← Nat.pow_add] at h₁
      have hsum : d.log2 + 1 + (a.log2 - (d.log2 + 52) - 1 + 52) = a.log2 := by omega
      rw [hsum] at h₁
      omega
    · rw [if_neg fun h => hlow h.2]
      exact ⟨hbelow _ (by omega), Or.inr (by omega)⟩

theorem IsBinade.scale {a d p k : Nat} (hk : 0 < k) (h : IsBinade a d p) :
    IsBinade (a * k) (d * k) p := by
  unfold IsBinade
  rw [Nat.mul_right_comm d k, Nat.mul_right_comm d k]
  refine ⟨(Nat.mul_lt_mul_right hk).mpr h.1, ?_⟩
  rcases h.2 with hp | hp
  · exact Or.inl hp
  · exact Or.inr (Nat.mul_le_mul_right k hp)

theorem halfEven_scale (a d : Nat) {k : Nat} (hk : 0 < k) :
    halfEven (a * k) (d * k) = halfEven a d := by
  unfold halfEven
  simp only []
  rw [Nat.mul_div_mul_right a d hk, Nat.mul_mod_mul_right, ← Nat.mul_assoc 2 (a % d) k]
  simp only [Nat.mul_lt_mul_right hk]

/-- A common factor makes no difference to rounding. -/
theorem roundCode_scale (a : Nat) {d k : Nat} (hd : 0 < d) (hk : 0 < k) :
    roundCode (a * k) (d * k) = roundCode a d := by
  have hbinade : binade (a * k) (d * k) = binade a d :=
    (isBinade_binade (a * k) (Nat.mul_pos hd hk)).unique ((isBinade_binade a hd).scale hk)
  unfold roundCode
  simp only []
  rw [hbinade, Nat.mul_right_comm d k, halfEven_scale _ _ hk]

theorem ofRatio_scale (negative : Bool) (a : Nat) {d k : Nat} (hd : 0 < d) (hk : 0 < k) :
    ofRatio negative (a * k) (d * k) = ofRatio negative a d := by
  unfold ofRatio
  by_cases ha : a = 0
  · rw [ha, Nat.zero_mul, if_pos rfl, if_pos rfl]
  · have hak : ¬ a * k = 0 := Nat.ne_of_gt (Nat.mul_pos (Nat.pos_of_ne_zero ha) hk)
    rw [if_neg ha, if_neg hak, Nat.mul_right_comm, roundCode_scale _ hd hk]

/-- A number is its sign and its code. -/
theorem ofCode_code (x : Binary64) : ofCode x.negative x.code = x := by
  have hlt := x.bits.toNat_lt
  have hmod := Nat.mod_add_div x.bits.toNat (2 ^ 63)
  unfold ofCode negative code
  by_cases hneg : 2 ^ 63 ≤ x.bits.toNat
  · rw [decide_eq_true hneg, if_pos rfl]
    have hbits : x.bits.toNat % 2 ^ 63 + 2 ^ 63 = x.bits.toNat := by omega
    rw [hbits, UInt64.ofNat_toNat]
  · rw [decide_eq_false hneg, if_neg (by decide)]
    have hbits : x.bits.toNat % 2 ^ 63 = x.bits.toNat := by omega
    rw [hbits, UInt64.ofNat_toNat]

theorem code_eq_zero {x : Binary64} (h : x.units = 0) : x.code = 0 := by
  have hcode := Nat.mod_add_div x.code (2 ^ 52)
  unfold units at h
  simp only [] at h
  by_cases he : x.code / 2 ^ 52 = 0
  · rw [if_pos he] at h
    omega
  · rw [if_neg he] at h
    have hpos : 0 < (2 ^ 52 + x.code % 2 ^ 52) * 2 ^ (x.code / 2 ^ 52 - 1) :=
      Nat.mul_pos (by omega) (Nat.two_pow_pos _)
    omega

theorem halfEven_mul (m : Nat) {d : Nat} (hd : 0 < d) : halfEven (m * d) d = m := by
  unfold halfEven
  simp only []
  rw [Nat.mul_mod_left, Nat.mul_div_cancel m hd, if_pos (by omega)]

/-- A finite number is rounded to itself. -/
theorem roundCode_units {x : Binary64} (h : x.code < infinityCode) {d : Nat} (hd : 0 < d) :
    roundCode (x.units * d) d = x.code := by
  have hscale := roundCode_scale x.units Nat.zero_lt_one hd
  rw [Nat.one_mul] at hscale
  rw [hscale]
  have hcode := Nat.mod_add_div x.code (2 ^ 52)
  have hfraction : x.code % 2 ^ 52 < 2 ^ 52 := Nat.mod_lt _ (by decide)
  unfold units
  simp only []
  by_cases he : x.code / 2 ^ 52 = 0
  · rw [if_pos he]
    have hbinade : binade (x.code % 2 ^ 52) 1 = 0 :=
      (isBinade_binade _ Nat.zero_lt_one).unique ⟨by omega, Or.inl rfl⟩
    unfold roundCode
    simp only []
    have hround := halfEven_mul (x.code % 2 ^ 52) (d := 1 * 2 ^ 0) (by decide)
    rw [Nat.mul_one] at hround
    rw [hbinade, hround]
    omega
  · rw [if_neg he]
    -- The significand has just the bits that its binade has room for.
    have hp := Nat.two_pow_pos (x.code / 2 ^ 52 - 1)
    have hsucc := Nat.sub_add_cancel (Nat.pos_of_ne_zero he)
    generalize x.code / 2 ^ 52 - 1 = p at *
    have hbinade : binade ((2 ^ 52 + x.code % 2 ^ 52) * 2 ^ p) 1 = p := by
      refine (isBinade_binade _ Nat.zero_lt_one).unique ⟨?_, Or.inr ?_⟩
      · rw [Nat.one_mul, Nat.add_comm p, Nat.pow_add]
        exact (Nat.mul_lt_mul_right hp).mpr (by omega)
      · rw [Nat.one_mul, Nat.add_comm p, Nat.pow_add]
        exact Nat.mul_le_mul_right _ (Nat.le_add_right _ _)
    unfold roundCode
    simp only []
    rw [hbinade, Nat.one_mul, halfEven_mul _ hp]
    omega

end Binary64

end Docket
