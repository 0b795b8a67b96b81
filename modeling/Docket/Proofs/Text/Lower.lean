import Docket.Text.Lower

/-!
# Small forms

What a character becomes when it is made small. In ASCII this is a table of letters that
is known. Beyond it a capital letter becomes a letter beyond ASCII too, with two
exceptions: the sign of the kelvin becomes a `k`, and the capital `i` with a dot becomes
an `i` with a dot over it, which are two characters. So a small form that is a certain
character of ASCII comes from ASCII, unless that character is one of the two.

The letters of ASCII may be made small first. That changes nothing about what is asked of
a character here, and so it does not change the small form of a text either, though one
letter of it depends on those around it.

## Theorems

* `lowerChar_cases`: What small forms there are.
* `lower_ne_nil`: The small form of a text is empty only if the text is.
* `count_colon_lowerFrom`: The small form of a text has no more colons than the text.
* `toLower_invariant`: What does not see the case of letters of ASCII.
* `lower_map_toLower`: The small form of a text is that of the text with small letters of
  ASCII.
-/

namespace Docket

/-- The runs of capital letters have small letters beyond the letters of ASCII, except for
    the sign of the kelvin. -/
theorem caseRuns_beyond : ∀ r ∈ caseRuns, 0x7A < r.first + r.distance ∨
    r.first = r.last ∧ r.first + r.distance = 0x6B := by
  decide +kernel

theorem toNat_ofNat_or (n : Nat) : (Char.ofNat n).toNat = n ∨ (Char.ofNat n).toNat = 0 := by
  by_cases h : n.isValidChar
  · have heq : Char.ofNat n = Char.ofNatAux n h := dif_pos h
    exact Or.inl (by rw [heq]; rfl)
  · have heq : Char.ofNat n = '\x00' := dif_neg h
    exact Or.inr (by rw [heq]; rfl)

/-- What a character becomes when it is made small. -/
theorem lowerChar_cases (c : Char) :
    (c.toNat < 0x80 ∧ lowerChar c = [c.toLower]) ∨
      0x80 ≤ c.toNat ∧ (lowerChar c = [c] ∨ lowerChar c = ['i', Char.ofNat 0x307] ∨
        ∃ d, lowerChar c = [d] ∧ (0x7A < d.toNat ∨ d.toNat = 0x6B ∨ d.toNat = 0)) := by
  unfold lowerChar
  simp only []
  split
  next hlt => exact Or.inl ⟨hlt, rfl⟩
  next hge =>
    refine Or.inr ⟨Nat.le_of_not_lt hge, ?_⟩
    split
    · exact Or.inr (Or.inl rfl)
    · split
      next r hfind =>
        -- The distance is that of the whole run, and the character is not before its start.
        have hin := List.find?_some hfind
        simp only [Bool.and_eq_true, decide_eq_true_eq] at hin
        have hbeyond := caseRuns_beyond r (List.mem_of_find?_eq_some hfind)
        refine Or.inr (Or.inr ⟨_, rfl, ?_⟩)
        rcases toNat_ofNat_or ((c.toNat : Int) + r.distance).toNat with h | h <;> omega
      next => exact Or.inl rfl

theorem lowerChar_ne_nil (c : Char) : lowerChar c ≠ [] := by
  rcases lowerChar_cases c with ⟨-, h⟩ | ⟨-, h | h | ⟨d, h, -⟩⟩
  all_goals rw [h]; exact List.cons_ne_nil _ _

theorem lower_ne_nil {cs : List Char} (h : cs ≠ []) : lower cs ≠ [] := by
  obtain ⟨c, rest, rfl⟩ := List.exists_cons_of_ne_nil h
  unfold lower
  rw [lowerFrom]
  refine List.append_ne_nil_of_left_ne_nil ?_ _
  split
  · exact List.cons_ne_nil _ _
  · exact lowerChar_ne_nil c

/-- Only a colon has a colon as its small form. -/
theorem count_colon_lowerChar (c : Char) : (lowerChar c).count ':' ≤ [c].count ':' := by
  have hascii : ∀ n < 0x80, [(Char.ofNat n).toLower].count ':' ≤ [Char.ofNat n].count ':' := by
    decide
  rcases lowerChar_cases c with ⟨hlt, h⟩ | ⟨-, h | h | ⟨d, h, hd⟩⟩
  · rw [h, ← Char.ofNat_toNat c]
    exact hascii c.toNat hlt
  · exact Nat.le_of_eq (by rw [h])
  · rw [h]
    exact Nat.zero_le _
  · have hcolon : ':' ≠ d := by
      rintro rfl
      exact absurd hd (by decide)
    rw [h, List.count_eq_zero.mpr (List.not_mem_cons_of_ne_of_not_mem hcolon List.not_mem_nil)]
    exact Nat.zero_le _

theorem count_colon_lowerFrom (inWord : Bool) (cs : List Char) :
    (lowerFrom inWord cs).count ':' ≤ cs.count ':' := by
  induction cs generalizing inWord with
  | nil => exact Nat.le_refl _
  | cons c rest ih =>
      -- No character but a colon becomes one.
      have hhead : (if c = 'Σ' ∧ inWord ∧ atWordEnd rest then ['ς'] else lowerChar c).count ':' ≤
          [c].count ':' := by
        split
        · exact Nat.zero_le _
        · exact count_colon_lowerChar c
      have hrest := ih (if isCaseIgnorable c then inWord else isCased c)
      have hcount : (c :: rest).count ':' = [c].count ':' + rest.count ':' := by
        rw [← List.count_append, List.singleton_append]
      rw [lowerFrom, List.count_append, hcount]
      omega

/-! ### Letters of ASCII -/

/-- What does not tell the capital letters of ASCII from the small ones does not tell any
    character from what it is with those made small. -/
theorem toLower_invariant {α : Type} {f : Char → α}
    (h : ∀ n < 26, f (Char.ofNat (0x41 + n)).toLower = f (Char.ofNat (0x41 + n))) (c : Char) :
    f c.toLower = f c := by
  by_cases hcapital : c.val ≥ 'A'.val ∧ c.val ≤ 'Z'.val
  · have hlow : 0x41 ≤ c.toNat := UInt32.le_iff_toNat_le.mp hcapital.1
    have hhigh : c.toNat ≤ 0x5A := UInt32.le_iff_toNat_le.mp hcapital.2
    have hc : c = Char.ofNat (0x41 + (c.toNat - 0x41)) := by
      rw [Nat.add_sub_cancel' hlow, Char.ofNat_toNat]
    rw [hc]
    exact h _ (by omega)
  · have hc : c.toLower = c := dif_neg hcapital
    rw [hc]

theorem isCased_toLower (c : Char) : isCased c.toLower = isCased c :=
  toLower_invariant (by decide +kernel) c

/-- No letter of ASCII is passed over. -/
theorem caseIgnorableRanges_apart : ∀ r ∈ caseIgnorableRanges,
    r.2 < 0x41 ∨ 0x5A < r.1 ∧ r.2 < 0x61 ∨ 0x7A < r.1 := by
  decide +kernel

theorem isCaseIgnorable_letter {c : Char} (h : 0x41 ≤ c.toNat ∧ c.toNat ≤ 0x5A ∨
    0x61 ≤ c.toNat ∧ c.toNat ≤ 0x7A) : isCaseIgnorable c = false := by
  refine List.any_eq_false.mpr fun r hr => ?_
  have hapart := caseIgnorableRanges_apart r hr
  simp only [Bool.and_eq_true, decide_eq_true_eq]
  omega

theorem isCaseIgnorable_toLower (c : Char) : isCaseIgnorable c.toLower = isCaseIgnorable c := by
  have hletter : ∀ n < 26, 0x41 ≤ (Char.ofNat (0x41 + n)).toNat ∧
      (Char.ofNat (0x41 + n)).toNat ≤ 0x5A ∧ 0x61 ≤ (Char.ofNat (0x41 + n)).toLower.toNat ∧
      (Char.ofNat (0x41 + n)).toLower.toNat ≤ 0x7A := by
    decide
  refine toLower_invariant (fun n hn => ?_) c
  rcases hletter n hn with ⟨h₁, h₂, h₃, h₄⟩
  rw [isCaseIgnorable_letter (Or.inr ⟨h₃, h₄⟩), isCaseIgnorable_letter (Or.inl ⟨h₁, h₂⟩)]

theorem lowerChar_toLower (c : Char) : lowerChar c.toLower = lowerChar c :=
  toLower_invariant (by decide +kernel) c

theorem toLower_eq_sigma (c : Char) : c.toLower = 'Σ' ↔ c = 'Σ' :=
  decide_eq_decide.mp (toLower_invariant (f := fun c => decide (c = 'Σ')) (by decide +kernel) c)

theorem atWordEnd_map_toLower (cs : List Char) :
    atWordEnd (cs.map Char.toLower) = atWordEnd cs := by
  have hignorable : isCaseIgnorable ∘ Char.toLower = isCaseIgnorable :=
    funext isCaseIgnorable_toLower
  unfold atWordEnd
  rw [List.dropWhile_map, hignorable, List.head?_map, Option.any_map]
  simp only [isCased_toLower]

theorem lower_map_toLower (cs : List Char) : lower (cs.map Char.toLower) = lower cs := by
  have hfrom (inWord : Bool) : lowerFrom inWord (cs.map Char.toLower) = lowerFrom inWord cs := by
    induction cs generalizing inWord with
    | nil => rfl
    | cons c rest ih =>
        -- A capital sigma looks at what follows it, which has been made small as well.
        rw [List.map_cons, lowerFrom, lowerFrom, atWordEnd_map_toLower, isCaseIgnorable_toLower,
          isCased_toLower, lowerChar_toLower, ih]
        simp only [toLower_eq_sigma]
  exact hfrom false

end Docket
