import Docket.Number.Literal

/-!
# Digits

The decimal digits that numbers are written with, and the numbers that digits
spell. Writing is `toString`, reading is `digitsValue`, and the two undo each
other.

How many digits a number has is bounded by the powers of ten around it, which is
all that is ever needed of the count: it grows by one with each factor of ten,
so moving the point of a decimal does not change where its first digit stands.

## Theorems

* `digitsValue_toString`: The digits of a number spell it.
* `digitsValue_append`: Digits in two parts.
* `digitCount_le_iff`: How many digits are enough.
* `digitCount_mul_pow`: A factor of ten is one digit more.
* `takeWhile_digits`: Digits are taken as far as they go.
-/

namespace Docket

theorem toList_toString (n : Nat) : (toString n).toList = Nat.toDigits 10 n :=
  Nat.toList_repr

theorem digitsValue_eq_ofDigitChars (cs : List Char) :
    digitsValue cs = Nat.ofDigitChars 10 cs 0 := by
  unfold digitsValue Nat.ofDigitChars
  refine congrArg (fun f => List.foldl f 0 cs) (funext fun n => funext fun c => ?_)
  rw [Nat.mul_comm]
  rfl

/-- The digits of a number spell it. -/
theorem digitsValue_toString (n : Nat) : digitsValue (toString n).toList = n := by
  rw [toList_toString, digitsValue_eq_ofDigitChars, Nat.ofDigitChars_ten_toDigits]

/-- Digits in two parts. -/
theorem digitsValue_append (cs ds : List Char) :
    digitsValue (cs ++ ds) = digitsValue cs * 10 ^ ds.length + digitsValue ds := by
  simp only [digitsValue_eq_ofDigitChars, Nat.ofDigitChars_append]
  rw [Nat.ofDigitChars_eq_ofDigitChars_zero, Nat.mul_comm]

theorem digitsValue_zeros (k : Nat) : digitsValue (List.replicate k '0') = 0 := by
  rw [digitsValue_eq_ofDigitChars, Nat.ofDigitChars_replicate_zero, Nat.mul_zero]

theorem toString_ne_nil (n : Nat) : (toString n).toList ≠ [] := by
  rw [toList_toString]
  exact Nat.toDigits_ne_nil

theorem isAsciiDigit_of_mem_toString {n : Nat} {c : Char} (h : c ∈ (toString n).toList) :
    isAsciiDigit c = true := by
  rw [toList_toString] at h
  exact Nat.isDigit_of_mem_toDigits (by decide) (by decide) h

theorem length_toString (n : Nat) : (toString n).toList.length = digitCount n := by
  rw [digitCount, String.length_toList]

theorem digitCount_pos (n : Nat) : 0 < digitCount n := by
  rw [← length_toString]
  exact List.length_pos_iff.mpr (toString_ne_nil n)

/-- How many digits are enough. -/
theorem digitCount_le_iff {n k : Nat} (hk : 0 < k) : digitCount n ≤ k ↔ n < 10 ^ k := by
  rw [← length_toString, toList_toString]
  exact Nat.length_toDigits_le_iff (by decide) hk

/-- A factor of ten is one digit more. -/
theorem digitCount_mul_pow {n : Nat} (hn : 0 < n) (k : Nat) :
    digitCount (n * 10 ^ k) = digitCount n + k := by
  -- What is enough for the one is enough for the other, the shift apart.
  have hiff : ∀ m, n * 10 ^ k < 10 ^ (m + k) ↔ n < 10 ^ m := by
    intro m
    rw [Nat.pow_add]
    exact Nat.mul_lt_mul_right (Nat.pow_pos (by decide))
  have hpos := digitCount_pos n
  have hle : digitCount (n * 10 ^ k) ≤ digitCount n + k := by
    have hfits : n < 10 ^ digitCount n := (digitCount_le_iff hpos).mp (Nat.le_refl _)
    rw [digitCount_le_iff (by omega), hiff]
    exact hfits
  have hge : ¬ digitCount (n * 10 ^ k) < digitCount n + k := by
    intro hlt
    have hpos' := digitCount_pos (n * 10 ^ k)
    have hfits : n * 10 ^ k < 10 ^ digitCount (n * 10 ^ k) :=
      (digitCount_le_iff hpos').mp (Nat.le_refl _)
    by_cases hk : k < digitCount (n * 10 ^ k)
    · have hsplit : digitCount (n * 10 ^ k) = (digitCount (n * 10 ^ k) - k) + k := by omega
      rw [hsplit, hiff, ← digitCount_le_iff (by omega)] at hfits
      omega
    · have hle' := Nat.pow_le_pow_right (n := 10) (by decide) (Nat.le_of_not_lt hk)
      have hone := Nat.le_mul_of_pos_left (10 ^ k) hn
      omega
  omega

/-- Digits are taken as far as they go. -/
theorem takeWhile_digits {ds rest : List Char} (hds : ∀ c ∈ ds, isAsciiDigit c = true)
    (hrest : ∀ c ∈ rest.head?, isAsciiDigit c = false) :
    (ds ++ rest).takeWhile isAsciiDigit = ds ∧ (ds ++ rest).dropWhile isAsciiDigit = rest := by
  rw [List.takeWhile_append_of_pos hds, List.dropWhile_append_of_pos hds]
  cases rest with
  | nil => exact ⟨List.append_nil ds, rfl⟩
  | cons c rest =>
      have hc : ¬ isAsciiDigit c = true := by
        rw [hrest c rfl]
        exact Bool.false_ne_true
      rw [List.takeWhile_cons_of_neg hc, List.dropWhile_cons_of_neg hc]
      exact ⟨List.append_nil ds, rfl⟩

end Docket
