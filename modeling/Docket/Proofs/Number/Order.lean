import Docket.Proofs.Number.Shortest

/-!
# Order and rounding

Rounding keeps the order of ratios, so a ratio on one side of a number is rounded to a
number that is not on the other side. What becomes of all numbers above some bound is
known from the bound alone.

Codes make this easy to say: they are ordered as magnitudes are. Within a binade both
grow with the significand, and the last code of one binade is followed by the first of
the next.

## Theorems

* `Binary64.halfEven_mono`, `Binary64.roundCode_mono`: Rounding keeps the order.
* `Binary64.units_mono`: Codes are ordered as magnitudes.
* `Binary64.ofRatio_mono`, `Binary64.mul_mono`: So do ratios and products.
* `Binary64.ofInt?_eq_none_iff`: The integers that are too large.
-/

namespace Docket

namespace Binary64

theorem halfEven_mono {a b : Nat} (d : Nat) (h : a ≤ b) : halfEven a d ≤ halfEven b d := by
  have hq : a / d ≤ b / d := Nat.div_le_div_right h
  have ha := Nat.div_add_mod a d
  have hb := Nat.div_add_mod b d
  unfold halfEven
  simp only []
  by_cases hsame : a / d = b / d
  · -- Of two ratios between the same neighbours the greater one has the greater rest.
    have hr : a % d ≤ b % d := by
      rw [hsame] at ha
      omega
    grind
  · have hnext : a / d + 1 ≤ b / d := by omega
    grind

/-- A ratio is rounded within its binade, or to the first number of the next. -/
theorem halfEven_le_of_lt {a d n : Nat} (hd : 0 < d) (h : a < d * n) : halfEven a d ≤ n := by
  have hround := halfEven_mono d (Nat.le_of_lt h)
  rw [Nat.mul_comm, halfEven_mul n hd] at hround
  exact hround

theorem le_halfEven {a d n : Nat} (hd : 0 < d) (h : d * n ≤ a) : n ≤ halfEven a d := by
  have hround := halfEven_mono d h
  rw [Nat.mul_comm, halfEven_mul n hd] at hround
  exact hround

theorem roundCode_mono_of_le {a b d : Nat} (hd : 0 < d) (h : a ≤ b) :
    roundCode a d ≤ roundCode b d := by
  have hp := isBinade_binade a hd
  have hq := isBinade_binade b hd
  unfold roundCode
  simp only []
  generalize binade a d = p at *
  generalize binade b d = q at *
  suffices h : p * 2 ^ 52 + halfEven a (d * 2 ^ p) ≤ q * 2 ^ 52 + halfEven b (d * 2 ^ q) by omega
  rcases Nat.lt_trichotomy p q with hlt | rfl | hlt
  · -- The binade of the greater one begins where the other ends, or later.
    have hlow : halfEven a (d * 2 ^ p) ≤ 2 ^ 53 := by
      refine halfEven_le_of_lt (Nat.mul_pos hd (Nat.two_pow_pos p)) ?_
      rw [Nat.mul_assoc, ← Nat.pow_add]
      exact hp.1
    have hhigh : 2 ^ 52 ≤ halfEven b (d * 2 ^ q) := by
      refine le_halfEven (Nat.mul_pos hd (Nat.two_pow_pos q)) ?_
      rw [Nat.mul_assoc, ← Nat.pow_add]
      exact hq.2.resolve_left (by omega)
    omega
  · exact Nat.add_le_add_left (halfEven_mono _ h) _
  -- The smaller one has no higher binade: it would reach where that begins, and the greater one
  -- end below.
  · have hpow : d * 2 ^ (q + 53) ≤ d * 2 ^ (p + 52) :=
      Nat.mul_le_mul_left d (Nat.pow_le_pow_right (by decide) (by omega))
    have := hq.1
    have := hp.2.resolve_left (by omega)
    omega

/-- Rounding keeps the order of ratios. -/
theorem roundCode_mono {a b d e : Nat} (hd : 0 < d) (he : 0 < e) (h : a * e ≤ b * d) :
    roundCode a d ≤ roundCode b e := by
  rw [← roundCode_scale a hd he, ← roundCode_scale b he hd, Nat.mul_comm e d]
  exact roundCode_mono_of_le (Nat.mul_pos hd he) h

/-- Codes are ordered as magnitudes. -/
theorem units_mono {x y : Binary64} (h : x.code ≤ y.code) : x.units ≤ y.units := by
  have hx := Nat.mod_add_div x.code (2 ^ 52)
  have hy := Nat.mod_add_div y.code (2 ^ 52)
  have hfraction : x.code % 2 ^ 52 < 2 ^ 52 := Nat.mod_lt _ (by decide)
  have hbinade : x.code / 2 ^ 52 ≤ y.code / 2 ^ 52 := Nat.div_le_div_right h
  have hpos := Nat.two_pow_pos (y.code / 2 ^ 52 - 1)
  unfold units
  simp only []
  -- Subnormal numbers have no leading bit, and all others have one. Between two binades the unit
  -- is doubled at least, which the leading bit alone makes up for.
  by_cases hzero : x.code / 2 ^ 52 = 0
  · rw [if_pos hzero]
    split
    · omega
    · calc
        x.code % 2 ^ 52 ≤ 2 ^ 52 + y.code % 2 ^ 52 := by omega
        _ ≤ (2 ^ 52 + y.code % 2 ^ 52) * 2 ^ (y.code / 2 ^ 52 - 1) :=
          Nat.le_mul_of_pos_right _ hpos
  · rw [if_neg hzero, if_neg (by omega)]
    by_cases hsame : x.code / 2 ^ 52 = y.code / 2 ^ 52
    · rw [hsame]
      exact Nat.mul_le_mul_right _ (by omega)
    · have hpow : 2 * 2 ^ (x.code / 2 ^ 52 - 1) ≤ 2 ^ (y.code / 2 ^ 52 - 1) := by
        rw [← Nat.pow_succ']
        exact Nat.pow_le_pow_right (by decide) (by omega)
      calc
        (2 ^ 52 + x.code % 2 ^ 52) * 2 ^ (x.code / 2 ^ 52 - 1)
          ≤ 2 ^ 53 * 2 ^ (x.code / 2 ^ 52 - 1) := Nat.mul_le_mul_right _ (by omega)
        _ = 2 ^ 52 * (2 * 2 ^ (x.code / 2 ^ 52 - 1)) := by rw [← Nat.mul_assoc]
        _ ≤ 2 ^ 52 * 2 ^ (y.code / 2 ^ 52 - 1) := Nat.mul_le_mul_left _ hpow
        _ ≤ (2 ^ 52 + y.code % 2 ^ 52) * 2 ^ (y.code / 2 ^ 52 - 1) :=
          Nat.mul_le_mul_right _ (Nat.le_add_right _ _)

theorem code_ofCode (negative : Bool) {code : Nat} (h : code ≤ infinityCode) :
    (ofCode negative code).code = code ∧ (ofCode negative code).negative = negative := by
  have hlt : code < 2 ^ 63 := Nat.lt_of_le_of_lt h (by decide)
  unfold Binary64.code Binary64.negative ofCode
  -- The sign is the highest bit, and the code is what is left without it.
  cases negative with
  | false =>
      have hbits : (UInt64.ofNat code).toNat = code := by
        rw [UInt64.toNat_ofNat']
        omega
      rw [if_neg Bool.false_ne_true]
      simp only [hbits, decide_eq_false_iff_not]
      omega
  | true =>
      have hbits : (UInt64.ofNat (code + 2 ^ 63)).toNat = code + 2 ^ 63 := by
        rw [UInt64.toNat_ofNat']
        omega
      rw [if_pos rfl]
      simp only [hbits, decide_eq_true_iff]
      omega

theorem roundCode_le (a d : Nat) : roundCode a d ≤ infinityCode := Nat.min_le_right _ _

theorem code_ofRatio (negative : Bool) {a : Nat} (ha : 0 < a) (d : Nat) :
    (ofRatio negative a d).code = roundCode (a * 2 ^ unitScale) d ∧
      (ofRatio negative a d).negative = negative := by
  unfold ofRatio
  rw [if_neg (Nat.ne_of_gt ha)]
  exact code_ofCode negative (roundCode_le _ _)

/-- A number with a code has a magnitude. -/
theorem units_pos {x : Binary64} (h : 0 < x.code) : 0 < x.units := by
  have hone : (ofCode false 1).units = 1 := by decide
  have hmono := units_mono (x := ofCode false 1) (y := x) (by
    rw [(code_ofCode false (by decide)).1]
    exact h)
  omega

theorem units_zero (negative : Bool) : (ofCode negative 0).units = 0 := by
  cases negative <;> decide

theorem ofRatio_mono (m n : Bool) {a b d e : Nat} (hd : 0 < d) (he : 0 < e)
    (h : a * e ≤ b * d) : (ofRatio m a d).units ≤ (ofRatio n b e).units := by
  -- Zero has a code of its own; all else is rounded, and rounding keeps the order.
  by_cases ha : a = 0
  · unfold ofRatio
    rw [if_pos ha, units_zero]
    exact Nat.zero_le _
  · have hb : 0 < b := by
      rcases Nat.eq_zero_or_pos b with rfl | hb
      · have := Nat.mul_pos (Nat.pos_of_ne_zero ha) he
        omega
      · exact hb
    refine units_mono ?_
    rw [(code_ofRatio m (Nat.pos_of_ne_zero ha) d).1, (code_ofRatio n hb e).1]
    refine roundCode_mono hd he ?_
    rw [Nat.mul_right_comm, Nat.mul_right_comm b]
    exact Nat.mul_le_mul_right _ h

theorem mul_of_finite {x y : Binary64} (hx : x.isFinite = true) (hy : y.isFinite = true) :
    x.mul y = if x.units = 0 ∨ y.units = 0 then ofCode (x.negative != y.negative) 0
      else ofCode (x.negative != y.negative) (roundCode (x.units * y.units) (2 ^ unitScale)) := by
  have hplain : ∀ {z : Binary64}, z.isFinite = true → z.isNaN = false ∧ z.isInfinite = false := by
    intro z hz
    rw [isFinite, decide_eq_true_iff] at hz
    simp only [isNaN, isInfinite, decide_eq_false_iff_not, beq_eq_false_iff_ne]
    omega
  unfold mul
  simp [hplain hx, hplain hy]

/-- A greater factor makes no smaller product. -/
theorem mul_mono {x x' y : Binary64} (hx : x.isFinite = true) (hx' : x'.isFinite = true)
    (hy : y.isFinite = true) (h : x.units ≤ x'.units) : (x.mul y).units ≤ (x'.mul y).units := by
  rw [mul_of_finite hx hy, mul_of_finite hx' hy]
  by_cases hzero : x.units = 0 ∨ y.units = 0
  · rw [if_pos hzero, units_zero]
    exact Nat.zero_le _
  · have hzero' : ¬ (x'.units = 0 ∨ y.units = 0) := by omega
    rw [if_neg hzero, if_neg hzero']
    refine units_mono ?_
    rw [(code_ofCode _ (roundCode_le _ _)).1, (code_ofCode _ (roundCode_le _ _)).1]
    exact roundCode_mono_of_le (Nat.two_pow_pos _) (Nat.mul_le_mul_right _ h)

theorem ofInt?_eq_some {n : Int} {x : Binary64} (h : ofInt? n = some x) :
    x = ofRatio (decide (n < 0)) n.natAbs 1 ∧ x.isFinite = true := by
  unfold ofInt? at h
  simp only [] at h
  split at h
  next hfinite =>
    obtain rfl := Option.some.inj h
    exact ⟨rfl, hfinite⟩
  next => exact absurd h nofun

/-- The integers that are too large for a floating-point number. -/
theorem ofInt?_eq_none_iff {n : Int} : ofInt? n = none ↔ 2 ^ 1024 - 2 ^ 970 ≤ n.natAbs := by
  have hbelow : roundCode ((2 ^ 1024 - 2 ^ 970 - 1) * 2 ^ unitScale) 1 < infinityCode := by
    decide +kernel
  have habove : roundCode ((2 ^ 1024 - 2 ^ 970) * 2 ^ unitScale) 1 = infinityCode := by
    decide +kernel
  have hbound : 0 < 2 ^ 1024 - 2 ^ 970 := by decide +kernel
  unfold ofInt?
  simp only []
  generalize 2 ^ 1024 - 2 ^ 970 = bound at *
  -- Rounding is monotone, and the boundary was computed on both sides.
  by_cases hzero : n.natAbs = 0
  · rw [hzero]
    have hfinite : ∀ negative, (ofRatio negative 0 1).isFinite = true := by decide
    rw [if_pos (hfinite _)]
    exact iff_of_false (Option.some_ne_none _) (by omega)
  · rw [isFinite, (code_ofRatio _ (Nat.pos_of_ne_zero hzero) 1).1]
    have hmono : ∀ {a b : Nat}, a ≤ b →
        roundCode (a * 2 ^ unitScale) 1 ≤ roundCode (b * 2 ^ unitScale) 1 :=
      fun h => roundCode_mono_of_le Nat.one_pos (Nat.mul_le_mul_right _ h)
    by_cases hlarge : bound ≤ n.natAbs
    · have := hmono hlarge
      rw [if_neg (by rw [decide_eq_true_iff]; omega)]
      exact iff_of_true rfl hlarge
    · have := hmono (show n.natAbs ≤ bound - 1 by omega)
      rw [if_pos (by rw [decide_eq_true_iff]; omega)]
      exact iff_of_false (Option.some_ne_none _) hlarge

end Binary64

end Docket
