import Docket.Text.Coding

/-!
# UTF-8 with more after it

Bytes that are a text in UTF-8 are still read as that text when more bytes follow, and
what follows is read after it. So if bytes are a text and so is the front of them, the
one is the front of the other; and it is not all of it, because no byte is without a
character that it is in.

The reader takes one character at a time, in one to four bytes, and what it makes of
them is told by these bytes alone.

## Theorems

* `decodeUtf8From_step`: One character.
* `decodeUtf8From_append`: Bytes with more after them.
* `decodeUtf8_append`: The front of a text in bytes is the front of the text.
-/

namespace Docket

/-- The first character of bytes, in however many of them it is. -/
theorem decodeUtf8From_step {pos : Nat} {done cs : List Char} {b : UInt8} {rest : Bytes}
    (h : decodeUtf8From pos done (b :: rest) = .ok cs) :
    ∃ pos' c taken left, rest = taken ++ left ∧
      ∀ more, decodeUtf8From pos done (b :: (taken ++ more)) =
        decodeUtf8From pos' (c :: done) more := by
  rw [decodeUtf8From] at h
  simp only [] at h
  -- One byte, or a lead that tells how many bytes there are; each of them must be there.
  by_cases hascii : b < 0x80
  · refine ⟨pos + 1, Char.ofNat b.toNat, [], rest, rfl, fun more => ?_⟩
    rw [List.nil_append, decodeUtf8From, if_pos hascii]
  rw [if_neg hascii] at h
  cases hlead : utf8Lead b with
  | none =>
      rw [hlead] at h
      exact absurd h nofun
  | some lead =>
      rcases lead with ⟨tails, low, high⟩
      rw [hlead] at h
      cases rest with
      | nil => exact absurd h nofun
      | cons b₁ rest₁ =>
          simp only [] at h
          by_cases hrange : b₁ < low ∨ high < b₁
          · rw [if_pos hrange] at h
            exact absurd h nofun
          rw [if_neg hrange] at h
          by_cases hone : tails = 1
          · refine ⟨pos + 2, charOfPoint (b.toNat % 32 * 64 + tailBits b₁), [b₁], rest₁, rfl,
              fun more => ?_⟩
            rw [List.singleton_append, decodeUtf8From, if_neg hascii, hlead]
            simp only []
            rw [if_neg hrange, if_pos hone]
          rw [if_neg hone] at h
          cases rest₁ with
          | nil =>
              simp only [] at h
              split at h
              next => exact absurd h nofun
              next => exact absurd h nofun
          | cons b₂ rest₂ =>
              simp only [] at h
              by_cases hsecond : (!isTail b₂) = true
              · rw [if_pos hsecond] at h
                exact absurd h nofun
              rw [if_neg hsecond] at h
              by_cases htwo : tails = 2
              · refine ⟨pos + 3, charOfPoint (b.toNat % 16 * 4096 + tailBits b₁ * 64 + tailBits b₂),
                  [b₁, b₂], rest₂, rfl, fun more => ?_⟩
                rw [List.cons_append, List.singleton_append, decodeUtf8From, if_neg hascii, hlead]
                simp only []
                rw [if_neg hrange, if_neg hone, if_neg hsecond, if_pos htwo]
              rw [if_neg htwo] at h
              cases rest₂ with
              | nil => exact absurd h nofun
              | cons b₃ rest₃ =>
                  simp only [] at h
                  by_cases hthird : (!isTail b₃) = true
                  · rw [if_pos hthird] at h
                    exact absurd h nofun
                  refine ⟨pos + 4, charOfPoint (b.toNat % 8 * 262144 + tailBits b₁ * 4096
                    + tailBits b₂ * 64 + tailBits b₃), [b₁, b₂, b₃], rest₃, rfl, fun more => ?_⟩
                  rw [List.cons_append, List.cons_append, List.singleton_append, decodeUtf8From,
                    if_neg hascii, hlead]
                  simp only []
                  rw [if_neg hrange, if_neg hone, if_neg hsecond, if_neg htwo, if_neg hthird]

/-- What has been read stays at the front, and bytes are read as something. -/
theorem decodeUtf8From_grows (bytes : Bytes) {pos : Nat} {done cs : List Char}
    (h : decodeUtf8From pos done bytes = .ok cs) :
    ∃ more, cs = done.reverse ++ more ∧ (bytes ≠ [] → more ≠ []) := by
  induction hlength : bytes.length using Nat.strongRecOn generalizing bytes pos done with
  | ind n ih =>
      cases bytes with
      | nil =>
          cases h
          exact ⟨[], (List.append_nil _).symm, fun hne => absurd rfl hne⟩
      | cons b rest =>
          -- The induction is on what is left, which may be several bytes less.
          rcases decodeUtf8From_step h with ⟨pos', c, taken, left, rfl, hstep⟩
          rw [hstep left] at h
          rw [List.length_cons, List.length_append] at hlength
          rcases ih left.length (by omega) left h rfl with ⟨more, rfl, -⟩
          refine ⟨c :: more, ?_, fun _ => List.cons_ne_nil c more⟩
          rw [List.reverse_cons, List.append_assoc, List.singleton_append]

/-- Bytes that are read do not keep those after them from being read. -/
theorem decodeUtf8From_append (front back : Bytes) {pos : Nat} {done cs : List Char}
    (h : decodeUtf8From pos done front = .ok cs) :
    ∃ pos', decodeUtf8From pos done (front ++ back) = decodeUtf8From pos' cs.reverse back := by
  induction hlength : front.length using Nat.strongRecOn generalizing front pos done with
  | ind n ih =>
      cases front with
      | nil =>
          cases h
          rw [List.reverse_reverse]
          exact ⟨pos, rfl⟩
      | cons b rest =>
          -- One character is taken, by bytes that are there whatever follows.
          rcases decodeUtf8From_step h with ⟨pos', c, taken, left, rfl, hstep⟩
          rw [hstep left] at h
          rw [List.length_cons, List.length_append] at hlength
          rcases ih left.length (by omega) left h rfl with ⟨pos'', hrest⟩
          refine ⟨pos'', ?_⟩
          rw [List.cons_append, List.append_assoc, hstep, hrest]

/-- The front of a text in bytes is the front of the text, and not all of it unless
    it is all of the bytes. -/
theorem decodeUtf8_append {front back : Bytes} {cs full : List Char}
    (h : decodeUtf8 front = .ok cs) (hfull : decodeUtf8 (front ++ back) = .ok full) :
    ∃ more, full = cs ++ more ∧ (back ≠ [] → more ≠ []) := by
  rcases decodeUtf8From_append front back h with ⟨pos, hrest⟩
  rw [decodeUtf8, hrest] at hfull
  rcases decodeUtf8From_grows back hfull with ⟨more, hmore, hne⟩
  rw [List.reverse_reverse] at hmore
  exact ⟨more, hmore, hne⟩

end Docket
