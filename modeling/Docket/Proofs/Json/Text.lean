import Docket.Json.Writer
import Docket.Proofs.Text.Utf8

/-!
# Texts in JSON

A text that is written is read back, whatever characters are in it. The reader
takes one step for each character: what is written for it begins with a backslash
or is the character itself, and in either case the character comes out. Controls
without a letter of their own are written by number; the numbers are small enough
that none is taken for half of a pair.

## Theorems

* `readJsonString_jsonChar`: One character is read back.
* `readJsonString_jsonString`: A text is read back.
-/

namespace Docket

/-- A control is spelled by four digits to the base sixteen. -/
theorem hex4_hexDigits : ∀ n < 32, ∃ a b c d,
    hexDigits 4 n = [a, b, c, d] ∧ hex4? a b c d = some n := by
  have hvalue : ∀ n < 32, hex4? (hexDigit (n / 16 / 16 / 16 % 16)) (hexDigit (n / 16 / 16 % 16))
      (hexDigit (n / 16 % 16)) (hexDigit (n % 16)) = some n := by
    decide
  exact fun n hn => ⟨_, _, _, _, rfl, hvalue n hn⟩

/-- A control that is written by number. -/
theorem readUnicodeEscape_control {c : Char} (hc : c.toNat < 32) {rest : List Char}
    (hrest : rest ≠ []) : readUnicodeEscape (hexDigits 4 c.toNat ++ rest) = some (c, rest) := by
  rcases hex4_hexDigits c.toNat hc with ⟨a, b, d, e, htext, hvalue⟩
  have hempty : ¬ rest.isEmpty = true := by rwa [List.isEmpty_iff]
  have hhigh : isHighSurrogate c.toNat = false := by
    unfold isHighSurrogate
    rw [decide_eq_false (by omega), Bool.false_and]
  rw [htext]
  change readUnicodeEscape (a :: b :: d :: e :: rest) = _
  unfold readUnicodeEscape
  simp only [if_neg hempty, hvalue, hhigh, Bool.false_and, charOfPoint_toNat]
  split
  · rfl
  · rfl

/-- One step of the reader at an escaped character. -/
theorem readJsonString_escape {start fuel : Nat} {done rest : List Char} {e d : Char}
    (he : e ≠ 'u') (hd : jsonEscape? e = some d) :
    readJsonString start (fuel + 1) done ('\\' :: e :: rest) =
      readJsonString start fuel (d :: done) rest := by
  rw [readJsonString, if_neg (by decide), if_pos rfl, hd]
  exact he

/-- One character is read back. -/
theorem readJsonString_jsonChar (start fuel : Nat) (done : List Char) (c : Char)
    {rest : List Char} (hrest : rest ≠ []) :
    readJsonString start (fuel + 1) done (jsonChar c ++ rest) =
      readJsonString start fuel (c :: done) rest := by
  have hnat : ∀ n, c.toNat = n → Char.ofNat n = c := by
    rintro n rfl
    exact Char.ofNat_toNat c
  -- A character is escaped by a letter, by its number, or not at all, and each of these is read
  -- in its own way.
  unfold jsonChar
  by_cases hquote : c = '"'
  · rw [if_pos hquote, hquote]
    exact readJsonString_escape (by decide) rfl
  rw [if_neg hquote]
  by_cases hbackslash : c = '\\'
  · rw [if_pos hbackslash, hbackslash]
    exact readJsonString_escape (by decide) rfl
  rw [if_neg hbackslash]
  by_cases hline : c = '\n'
  · rw [if_pos hline, hline]
    exact readJsonString_escape (by decide) rfl
  rw [if_neg hline]
  by_cases hreturn : c = '\r'
  · rw [if_pos hreturn, hreturn]
    exact readJsonString_escape (by decide) rfl
  rw [if_neg hreturn]
  by_cases htab : c = '\t'
  · rw [if_pos htab, htab]
    exact readJsonString_escape (by decide) rfl
  rw [if_neg htab]
  by_cases hback : c.toNat = 8
  · rw [if_pos hback, ← hnat 8 hback]
    exact readJsonString_escape (by decide) rfl
  rw [if_neg hback]
  by_cases hfeed : c.toNat = 12
  · rw [if_pos hfeed, ← hnat 12 hfeed]
    exact readJsonString_escape (by decide) rfl
  rw [if_neg hfeed]
  -- Control characters without a letter are escaped by their numbers.
  by_cases hcontrol : c.toNat < 0x20
  · rw [if_pos hcontrol, List.cons_append, List.cons_append, readJsonString, if_neg (by decide),
      if_pos rfl]
    rw [readUnicodeEscape_control hcontrol hrest]
  · rw [if_neg hcontrol, List.singleton_append, readJsonString.eq_def]
    simp only []
    rw [if_neg hquote, if_neg hbackslash, if_neg hcontrol]

theorem jsonChar_ne_nil (c : Char) : jsonChar c ≠ [] := by
  unfold jsonChar
  repeat' split
  all_goals exact List.cons_ne_nil _ _

/-- A text takes as many characters as it has, or more. -/
theorem length_le_flatMap_jsonChar (cs : List Char) :
    cs.length ≤ (cs.flatMap jsonChar).length := by
  induction cs with
  | nil => exact Nat.le_refl 0
  | cons c rest ih =>
      have hpos := List.length_pos_iff.mpr (jsonChar_ne_nil c)
      rw [List.flatMap_cons, List.length_append, List.length_cons]
      omega

/-- The characters of a text are read back up to the closing quote. -/
theorem readJsonString_flatMap (start : Nat) (cs rest : List Char) (done : List Char)
    (fuel : Nat) (hfuel : cs.length < fuel) :
    readJsonString start fuel done (cs.flatMap jsonChar ++ '"' :: rest) =
      .ok (done.reverse ++ cs, rest) := by
  induction cs generalizing done fuel with
  | nil =>
      cases fuel with
      | zero => exact absurd hfuel (Nat.lt_irrefl 0)
      | succ fuel =>
          rw [List.append_nil]
          rfl
  | cons c cs ih =>
      cases fuel with
      | zero => exact absurd hfuel (Nat.not_lt_zero _)
      | succ fuel =>
          rw [List.flatMap_cons, List.append_assoc, readJsonString_jsonChar start fuel done c
            (List.append_ne_nil_of_right_ne_nil _ (List.cons_ne_nil _ _)),
            ih (c :: done) fuel (Nat.lt_of_succ_lt_succ hfuel), List.reverse_cons,
            List.append_assoc, List.singleton_append]

/-- A text is read back. -/
theorem readJsonString_jsonString (s : String) (rest : List Char) : ∃ body,
    jsonString s ++ rest = '"' :: body ∧
      readJsonString (jsonString s ++ rest).length ((jsonString s ++ rest).length + 1) [] body =
        .ok (s.toList, rest) := by
  have htext : jsonString s ++ rest = '"' :: (s.toList.flatMap jsonChar ++ '"' :: rest) := by
    unfold jsonString
    rw [List.cons_append, List.cons_append, List.append_assoc, List.singleton_append]
  refine ⟨_, htext, ?_⟩
  have hlen := length_le_flatMap_jsonChar s.toList
  refine readJsonString_flatMap _ s.toList rest [] _ ?_
  rw [htext, List.length_cons, List.length_append]
  omega

end Docket
