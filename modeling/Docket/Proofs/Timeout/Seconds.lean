import Docket.Proofs.Number.Order
import Docket.Proofs.Timeout.Forms

/-!
# Seconds

A timeout asks for an exact number of seconds. What is compared with the bounds is that
number after it was rounded, and for texts after a product was rounded as well. Neither
takes it to the other side of a bound: zero and the longest wait are numbers themselves,
and rounding keeps the order. For a unit that is no power of two the longest wait is
first divided by the length of the unit; the quotient is rounded, but multiplying it
again still reaches the bound, which is checked unit by unit.

## Main definitions

* `Timeout.Asks`: How long a timeout is, as a ratio of seconds.
* `Timeout.Keeps`: A number that is on the same side of the bounds as a ratio.

## Theorems

* `TimeText.Proper.readFloat`: A numeral is read as the decimal that it spells.
* `Decimal.toBinary_cases`: Decimals that are not tiny are rounded or infinite.
* `Timeout.keeps_ofRatio`, `Timeout.keeps_text`: What is computed keeps its side.
-/

namespace Docket

/-! ## Numerals -/

theorem asciiDigits_digits {cs : List Char} (h : ∀ c ∈ cs, isDigit c = true) :
    ∀ c ∈ asciiDigits cs, isAsciiDigit c = true := by
  have hten : ∀ n < 10, isAsciiDigit (Char.ofNat (0x30 + n)) = true := by decide
  refine List.forall_mem_map.mpr fun c hc => ?_
  obtain ⟨n, hn⟩ := Option.isSome_iff_exists.mp (h c hc)
  rw [hn]
  refine hten n ?_
  -- In any script a digit stands for a number below ten.
  unfold digitValue? at hn
  split at hn
  · split at hn
    next hrange =>
      have hhigh : c.toNat ≤ 0x39 := hrange.2
      have := Option.some.inj hn
      omega
    next => exact absurd hn nofun
  · obtain ⟨z, hz, rfl⟩ := Option.map_eq_some_iff.mp hn
    have hin := List.find?_some hz
    rw [decide_eq_true_iff] at hin
    omega

namespace TimeText

variable {t : TimeText}

/-- The number that the digits of the numeral spell, without regard to the point. -/
def digits (t : TimeText) : Nat := digitsValue (asciiDigits (t.whole ++ t.fraction))

theorem asciiDigits_numeral (t : TimeText) :
    asciiDigits t.numeral = asciiDigits t.whole ++ pointed (asciiDigits t.fraction) := by
  have hpointed : ∀ cs : List Char, asciiDigits (pointed cs) = pointed (asciiDigits cs) := by
    intro cs
    cases cs <;> rfl
  rw [← hpointed]
  exact List.map_append

theorem Proper.trim_numeral (h : t.Proper) : trim t.numeral = t.numeral := by
  have hchars : ∀ c ∈ t.numeral, isBlank c = false := by
    unfold numeral pointed
    rw [List.forall_mem_append]
    refine ⟨fun c hc => (digit_apart (h.whole c hc)).1, ?_⟩
    split
    · exact fun c hc => absurd hc List.not_mem_nil
    · rw [List.forall_mem_cons]
      exact ⟨by decide, fun c hc => (digit_apart (h.fraction c hc)).1⟩
  have hne : t.numeral ≠ [] := fun hnil => h.whole_ne_nil (List.append_eq_nil_iff.mp hnil).1
  have htrim : trim ([] ++ (t.numeral ++ [])) = t.numeral := trim_eq nofun nofun hchars hne
  rwa [List.append_nil, List.nil_append] at htrim

/-- Digits around a point are read without sign and exponent. -/
theorem readUnsigned_pointed {whole fraction : List Char}
    (hwhole : ∀ c ∈ whole, isAsciiDigit c = true) (hne : whole ≠ [])
    (hfraction : ∀ c ∈ fraction, isAsciiDigit c = true) :
    readUnsigned? (whole ++ pointed fraction) = some (decimalOf whole fraction 0) := by
  have hempty : whole.isEmpty = false := List.isEmpty_eq_false_iff.mpr hne
  have hends : ∀ {ds : List Char}, (∀ c ∈ ds, isAsciiDigit c = true) →
      (ds ++ []).takeWhile isAsciiDigit = ds ∧ (ds ++ []).dropWhile isAsciiDigit = [] :=
    fun h => takeWhile_part h nofun
  unfold readUnsigned? pointed
  -- Without a fraction no point is written.
  by_cases hnil : fraction.isEmpty = true
  · obtain rfl := List.isEmpty_iff.mp hnil
    rw [if_pos hnil, (hends hwhole).1, (hends hwhole).2]
    simp [hempty]
  · have hpoint : ∀ c ∈ ('.' :: fraction).head?, isAsciiDigit c = false := by
      intro c hc
      rw [← Option.some.inj hc]
      decide
    have hpart := takeWhile_part hwhole hpoint
    have htail := hends hfraction
    rw [List.append_nil] at htail
    rw [if_neg hnil, hpart.1, hpart.2]
    simp [htail.1, htail.2, hempty]

/-- A numeral is read as the decimal that it spells. -/
theorem Proper.readFloat (h : t.Proper) : readFloat? t.numeral =
    some (Decimal.toBinary false ⟨t.digits, -(t.fraction.length : Int)⟩) := by
  have hwhole := asciiDigits_digits h.whole
  have hfraction := asciiDigits_digits h.fraction
  have hlength : ∀ cs : List Char, (asciiDigits cs).length = cs.length :=
    fun cs => List.length_map _
  have hne : asciiDigits t.whole ≠ [] := by
    rw [← List.length_pos_iff, hlength, List.length_pos_iff]
    exact h.whole_ne_nil
  obtain ⟨d, body, hbegins⟩ := List.exists_cons_of_ne_nil hne
  -- Digits of other scripts are read as those of ASCII, and then the numeral is one that is
  -- written in them.
  have hchars : ∀ c ∈ asciiDigits t.whole ++ pointed (asciiDigits t.fraction),
      c ∈ numeralChars := by
    unfold pointed
    rw [List.forall_mem_append]
    refine ⟨fun c hc => mem_numeralChars_of_digit (hwhole c hc), ?_⟩
    split
    · exact fun c hc => absurd hc List.not_mem_nil
    · rw [List.forall_mem_cons]
      exact ⟨by decide, fun c hc => mem_numeralChars_of_digit (hfraction c hc)⟩
  have hdigits : asciiDigits (trim t.numeral) =
      asciiDigits t.whole ++ pointed (asciiDigits t.fraction) := by
    rw [h.trim_numeral, t.asciiDigits_numeral]
  have hfirst : asciiDigits t.whole ++ pointed (asciiDigits t.fraction) =
      d :: (body ++ pointed (asciiDigits t.fraction)) := by
    rw [hbegins]
    rfl
  rw [readFloat_of_begins hdigits hchars hfirst (hwhole d (hbegins ▸ List.mem_cons_self)),
    readUnsigned_pointed hwhole hne hfraction]
  have happend : asciiDigits t.whole ++ asciiDigits t.fraction =
      asciiDigits (t.whole ++ t.fraction) := List.map_append.symm
  unfold decimalOf digits
  rw [happend, hlength, Int.zero_sub]
  rfl

end TimeText

/-! ## Decimals -/

/-- A decimal is too small for a number, or too large, or it is rounded. -/
theorem Decimal.toBinary_shape (n k : Nat) :
    (n * 10 ^ 100 < 10 ^ k ∧
        Decimal.toBinary false ⟨n, -(k : Int)⟩ = Binary64.ofCode false 0) ∨
      (10 ^ (310 + k) ≤ n ∧
        Decimal.toBinary false ⟨n, -(k : Int)⟩ = Binary64.infinity false) ∨
      Decimal.toBinary false ⟨n, -(k : Int)⟩ = Binary64.ofRatio false n (10 ^ k) := by
  have hten : ∀ k, 0 < 10 ^ k := fun k => Nat.pow_pos (by decide)
  have hn : n < 10 ^ digitCount n := (digitCount_le_iff (digitCount_pos n)).mp (Nat.le_refl _)
  unfold Decimal.toBinary
  simp only []
  -- Three guards come before the ratio is rounded, two of which look at the number of digits
  -- only.
  by_cases hzero : n = 0
  · rw [if_pos hzero, hzero, Nat.zero_mul]
    exact Or.inl ⟨hten k, rfl⟩
  rw [if_neg hzero]
  by_cases hhigh : 310 < (digitCount n : Int) + -(k : Int)
  · rw [if_pos hhigh]
    refine Or.inr (Or.inl ⟨?_, rfl⟩)
    rw [← Nat.not_lt, ← digitCount_le_iff (by omega)]
    omega
  rw [if_neg hhigh]
  by_cases hlow : (digitCount n : Int) + -(k : Int) < -330
  · rw [if_pos hlow]
    refine Or.inl ⟨?_, rfl⟩
    calc
      n * 10 ^ 100 < 10 ^ digitCount n * 10 ^ 100 := Nat.mul_lt_mul_of_pos_right hn (hten 100)
      _ = 10 ^ (digitCount n + 100) := (Nat.pow_add _ _ _).symm
      _ ≤ 10 ^ k := Nat.pow_le_pow_right (by decide) (by omega)
  · rw [if_neg hlow]
    refine Or.inr (Or.inr ?_)
    by_cases hk : k = 0
    · subst hk
      simp
    · rw [if_neg (by omega), Int.neg_neg, Int.toNat_natCast]

/-- A decimal below a power of ten is rounded to a number that is not above it. -/
theorem Decimal.toBinary_le {n k m : Nat} (hm : m ≤ 309) (h : n ≤ 10 ^ m * 10 ^ k) :
    (Decimal.toBinary false ⟨n, -(k : Int)⟩).units ≤
      (Binary64.ofRatio false (10 ^ m) 1).units := by
  rcases Decimal.toBinary_shape n k with ⟨-, heq⟩ | ⟨hlarge, -⟩ | heq
  · rw [heq, Binary64.units_zero]
    exact Nat.zero_le _
  · have hpow : 10 ^ m * 10 ^ k < 10 ^ (310 + k) := by
      rw [← Nat.pow_add]
      exact Nat.pow_lt_pow_right (by decide) (by omega)
    omega
  · rw [heq]
    exact Binary64.ofRatio_mono _ _ (Nat.pow_pos (by decide)) Nat.one_pos (by omega)

namespace Binary64

theorem toBinary_negative (n k : Nat) :
    (Decimal.toBinary false ⟨n, -(k : Int)⟩).negative = false := by
  have hcode : ∀ {code}, code ≤ infinityCode → (ofCode false code).negative = false :=
    fun h => (code_ofCode false h).2
  rcases Decimal.toBinary_shape n k with ⟨-, heq⟩ | ⟨-, heq⟩ | heq
  · rw [heq]
    exact hcode (Nat.zero_le _)
  · rw [heq]
    exact hcode (Nat.le_refl _)
  · rw [heq]
    unfold ofRatio
    split
    · exact hcode (Nat.zero_le _)
    · exact hcode (roundCode_le _ _)

/-- The sign of a product of finite numbers. -/
theorem mul_negative {x y : Binary64} (hx : x.isFinite = true) (hy : y.isFinite = true) :
    (x.mul y).negative = (x.negative != y.negative) := by
  rw [mul_of_finite hx hy]
  split
  · exact (code_ofCode _ (Nat.zero_le _)).2
  · exact (code_ofCode _ (roundCode_le _ _)).2

/-- Below a finite number all numbers are finite. -/
theorem isFinite_of_units_le {x y : Binary64} (hy : y.units < (infinity false).units)
    (h : x.units ≤ y.units) : x.isFinite = true := by
  rw [isFinite, decide_eq_true_iff]
  by_contra hcode
  have hinfinite : (infinity false).code = infinityCode := by decide
  have hmono := units_mono (x := infinity false) (y := x) (by omega)
  omega

/-- A product is finite only if its first factor is. -/
theorem isFinite_of_mul {x y : Binary64} (h : (x.mul y).isFinite = true) : x.isFinite = true := by
  have hcode : ∀ negative, (infinity negative).isFinite = false := by decide
  have hnan : nan.isFinite = false := by decide
  by_contra hx
  rw [isFinite, decide_eq_true_iff, Nat.not_lt] at hx
  unfold mul at h
  simp only [] at h
  -- What is not finite stays so: nothing becomes of a NaN but a NaN, and of an infinity one or
  -- the other.
  by_cases hxn : x.isNaN = true
  · rw [hxn, Bool.true_or, if_pos rfl, hnan] at h
    exact absurd h Bool.false_ne_true
  · have hxi : x.isInfinite = true := by
      rw [isNaN, decide_eq_true_iff] at hxn
      rw [isInfinite, beq_iff_eq]
      omega
    rw [hxi, Bool.true_or, if_pos rfl] at h
    split at h
    · rw [hnan] at h
      exact absurd h Bool.false_ne_true
    · split at h
      · rw [hnan] at h
        exact absurd h Bool.false_ne_true
      · rw [hcode] at h
        exact absurd h Bool.false_ne_true

theorem signedUnits_of_negative {x : Binary64} (h : x.negative = false) :
    x.signedUnits = x.units := by
  unfold signedUnits
  rw [h]
  rfl

theorem signedUnits_ofRatio (a d : Nat) : 0 ≤ (ofRatio false a d).signedUnits := by
  by_cases hzero : a = 0
  · rw [show ofRatio false a d = ofCode false 0 by rw [hzero]; rfl]
    decide
  · rw [signedUnits_of_negative (code_ofRatio false (Nat.pos_of_ne_zero hzero) d).2]
    exact Int.natCast_nonneg _

end Binary64

/-! ## Bounds -/

namespace Timeout

/-- How long a timeout is: `a / d` seconds. -/
inductive Asks : Value → Int → Nat → Prop
  | int (n : Int) (form : NumberForm) : Asks (.scalar (.int n form)) n 1
  | float {x : Binary64} (form : NumberForm) (h : x.isFinite = true) :
      Asks (.scalar (.float x form)) x.signedUnits (2 ^ Binary64.unitScale)
  | duration (d : Duration) : Asks (.alien (.duration d)) d.toMicroseconds (10 ^ 6)
  | text {t : TimeText} (h : t.Proper) {u : TimeUnit} (hu : u.isSpelled t.unit = true)
      (form : TextForm) : Asks (.scalar (.text (String.ofList t.text) form))
        (t.digits * u.ratio.1 : Nat) (10 ^ t.fraction.length * u.ratio.2)

/-- A number of seconds that is on the same side of the bounds as `a / d`, and finite
    unless that is very large. -/
structure Keeps (x : Binary64) (a : Int) (d : Nat) : Prop where
  negative : a < 0 → x.negative = true ∧ 0 < x.units
  long : longest * d ≤ a → x.isFinite = true → longest * 2 ^ Binary64.unitScale ≤ x.units
  moderate : 0 ≤ a → a < 2 ^ 200 * d → x.isFinite = true ∧ 0 ≤ x.signedUnits

/-- The longest wait is a number. -/
theorem units_longest :
    (Binary64.ofRatio false longest 1).units = longest * 2 ^ Binary64.unitScale := by
  decide +kernel

/-- A ratio that is rounded keeps its side. -/
theorem keeps_ofRatio (n : Int) {d : Nat} (hd : 0 < d) (hfine : d ≤ 2 ^ Binary64.unitScale) :
    Keeps (Binary64.ofRatio (decide (n < 0)) n.natAbs d) n d where
  negative h := by
    have hpos : 0 < n.natAbs := by omega
    obtain ⟨hcode, hnegative⟩ := Binary64.code_ofRatio (decide (n < 0)) hpos d
    refine ⟨hnegative.trans (decide_eq_true h), Binary64.units_pos ?_⟩
    -- The least number is rounded to itself, and rounding is monotone.
    have hone : Binary64.roundCode 1 1 = 1 := by decide
    have hround : Binary64.roundCode 1 1 ≤
        Binary64.roundCode (n.natAbs * 2 ^ Binary64.unitScale) d := by
      refine Binary64.roundCode_mono Nat.one_pos hd ?_
      have := Nat.mul_le_mul_right (2 ^ Binary64.unitScale) hpos
      omega
    omega
  long h _ := by
    rw [← units_longest]
    exact Binary64.ofRatio_mono _ _ Nat.one_pos hd (by omega)
  moderate h hlt := by
    have hfinite : (Binary64.ofRatio false (2 ^ 200) 1).units <
        (Binary64.infinity false).units := by
      decide +kernel
    refine ⟨Binary64.isFinite_of_units_le hfinite
      (Binary64.ofRatio_mono _ _ hd Nat.one_pos (by omega)), ?_⟩
    rw [decide_eq_false (by omega)]
    exact Binary64.signedUnits_ofRatio n.natAbs d

/-- Seconds made of a unit reach the longest wait if the numeral reaches the quotient. -/
theorem longest_le_quotient_mul (u : TimeUnit) :
    (Binary64.ofRatio false (longest * u.ratio.2) u.ratio.1).isFinite = true ∧
      u.length.isFinite = true ∧ longest * 2 ^ Binary64.unitScale ≤
        ((Binary64.ofRatio false (longest * u.ratio.2) u.ratio.1).mul u.length).units := by
  cases u <;> decide +kernel

/-- A large power of ten makes a finite number of seconds with every unit. -/
theorem large_mul_finite (u : TimeUnit) :
    (Binary64.ofRatio false (10 ^ 100) 1).isFinite = true ∧
      (Binary64.ofRatio false (10 ^ 100) 1).units < (Binary64.infinity false).units ∧
      ((Binary64.ofRatio false (10 ^ 100) 1).mul u.length).units <
        (Binary64.infinity false).units := by
  cases u <;> decide +kernel

theorem ratio_bounds (u : TimeUnit) : 0 < u.ratio.1 ∧ u.ratio.1 ≤ 10 ^ 100 ∧
    0 < u.ratio.2 ∧ 2 ^ 200 * u.ratio.2 ≤ 10 ^ 100 := by
  cases u <;> decide +kernel

/-- A numeral that is multiplied with the length of a unit keeps its side. -/
theorem keeps_text (n k : Nat) (u : TimeUnit) :
    Keeps ((Decimal.toBinary false ⟨n, -(k : Int)⟩).mul u.length) (n * u.ratio.1 : Nat)
      (10 ^ k * u.ratio.2 : Nat) := by
  obtain ⟨hpos, hsmall, hfraction, hlarge⟩ := ratio_bounds u
  have hone := Nat.le_mul_of_pos_right n hpos
  constructor
  case negative => exact fun h => absurd h (by omega)
  case long =>
    intro h hfinite
    obtain ⟨hbound, hlength, hreach⟩ := longest_le_quotient_mul u
    have hfactor := Binary64.isFinite_of_mul hfinite
    refine Nat.le_trans hreach (Binary64.mul_mono hbound hfactor hlength ?_)
    have h : longest * (10 ^ k * u.ratio.2) ≤ n * u.ratio.1 := by exact_mod_cast h
    -- A numeral that is too small for a number was not long, and one that is too large is not
    -- finite.
    rcases Decimal.toBinary_shape n k with ⟨htiny, -⟩ | ⟨-, heq⟩ | heq
    · have hbelow : n * u.ratio.1 < 10 ^ k :=
        Nat.lt_of_le_of_lt (Nat.mul_le_mul_left n hsmall) htiny
      have hunit : 10 ^ k ≤ longest * (10 ^ k * u.ratio.2) :=
        Nat.le_trans (Nat.le_mul_of_pos_right _ hfraction)
          (Nat.le_mul_of_pos_left _ (by decide))
      omega
    · rw [heq] at hfactor
      exact absurd hfactor (by decide)
    · rw [heq]
      refine Binary64.ofRatio_mono _ _ hpos (Nat.pow_pos (by decide)) ?_
      rwa [Nat.mul_assoc, Nat.mul_comm u.ratio.2]
  case moderate =>
    intro _ hlt
    obtain ⟨hbound, hlow, hfinite⟩ := large_mul_finite u
    have hlt : n * u.ratio.1 < 2 ^ 200 * (10 ^ k * u.ratio.2) := by exact_mod_cast hlt
    -- No unit is so short that the numeral could be out of reach.
    have hnumeral : n ≤ 10 ^ 100 * 10 ^ k := by
      calc
        n ≤ 2 ^ 200 * (10 ^ k * u.ratio.2) := by omega
        _ = 2 ^ 200 * u.ratio.2 * 10 ^ k := by rw [Nat.mul_comm (10 ^ k), Nat.mul_assoc]
        _ ≤ 10 ^ 100 * 10 ^ k := Nat.mul_le_mul_right _ hlarge
    have hbelow := Decimal.toBinary_le (by decide) hnumeral
    have hfactor := Binary64.isFinite_of_units_le hlow hbelow
    obtain ⟨-, hlength, -⟩ := longest_le_quotient_mul u
    refine ⟨Binary64.isFinite_of_units_le hfinite
      (Binary64.mul_mono hfactor hbound hlength hbelow), ?_⟩
    have hpositive : u.length.negative = false := by cases u <;> decide +kernel
    rw [Binary64.signedUnits_of_negative]
    · exact Int.natCast_nonneg _
    · rw [Binary64.mul_negative hfactor hlength, Binary64.toBinary_negative, hpositive]
      rfl

end Timeout

end Docket
