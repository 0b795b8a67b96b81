import Docket.Json.Reader
import Docket.Yaml.Reader

/-!
# Coded text read back

A text in UTF-8 is read back, whatever characters are in it. A character takes up
to four bytes. What its first byte says about those that follow is known from the
bits that it carries, and that the next byte lies in the range this allows is
where it matters that a character is coded in as few bytes as will do and that no
character is a surrogate.

A payload does not say which coding it is in. One that begins with two characters
of ASCII, neither of which is zero, is not taken for another coding. A reader that knows
but the marks of two other codings needs the first of them only.

## Theorems

* `decodeUtf8From_char`: One character is read back.
* `decodeUtf8_encodeUtf8`: A text is read back.
* `decodeStrictUtf8?_encodeUtf8`: So it is by readers that tolerate no surrogates.
* `decodeJsonBytes_front`: However little there is of a payload, its coding is told.
* `decodeJsonBytes_encodeUtf8`, `decodeYamlBytes_encodeUtf8`: A payload that begins like
  a text is read back.
-/

namespace Docket

theorem charOfPoint_toNat (c : Char) : charOfPoint c.toNat = c := by
  unfold charOfPoint
  have hvalid : c.toNat.isValidChar := c.valid
  rw [if_pos hvalid, Char.ofNat_toNat]

theorem toNat_lt_pointLimit (c : Char) : c.toNat < 0x110000 := by
  have hvalid : c.toNat.isValidChar := c.valid
  unfold Nat.isValidChar at hvalid
  omega

/-- What the first of two bytes says. -/
theorem utf8Lead_two : ∀ n < 32, 2 ≤ n → ¬ UInt8.ofNat (n + 0xC0) < 0x80 ∧
    utf8Lead (UInt8.ofNat (n + 0xC0)) = some (1, 0x80, 0xBF) ∧
      (UInt8.ofNat (n + 0xC0)).toNat % 32 = n := by
  decide

/-- What the first of three bytes says. -/
theorem utf8Lead_three : ∀ n < 16, ¬ UInt8.ofNat (n + 0xE0) < 0x80 ∧
    utf8Lead (UInt8.ofNat (n + 0xE0)) = some (2, if n = 0 then 0xA0 else 0x80, 0xBF) ∧
      (UInt8.ofNat (n + 0xE0)).toNat % 16 = n := by
  decide

/-- What the first of four bytes says. -/
theorem utf8Lead_four : ∀ n < 5, ¬ UInt8.ofNat (n + 0xF0) < 0x80 ∧
    utf8Lead (UInt8.ofNat (n + 0xF0)) =
      some (3, if n = 0 then 0x90 else 0x80, if n = 4 then 0x8F else 0xBF) ∧
      (UInt8.ofNat (n + 0xF0)).toNat % 8 = n := by
  decide

/-- What a byte says that continues a character. -/
theorem isTail_ofNat : ∀ n < 64, isTail (UInt8.ofNat (n + 0x80)) = true ∧
    tailBits (UInt8.ofNat (n + 0x80)) = n ∧
      ¬ (UInt8.ofNat (n + 0x80) < 0x80 ∨ 0xBF < UInt8.ofNat (n + 0x80)) ∧
      (32 ≤ n → ¬ (UInt8.ofNat (n + 0x80) < 0xA0 ∨ 0xBF < UInt8.ofNat (n + 0x80))) ∧
      (16 ≤ n → ¬ (UInt8.ofNat (n + 0x80) < 0x90 ∨ 0xBF < UInt8.ofNat (n + 0x80))) ∧
      (n < 16 → ¬ (UInt8.ofNat (n + 0x80) < 0x80 ∨ 0x8F < UInt8.ofNat (n + 0x80))) := by
  decide

/-- The bytes of a character, by how many there are. -/
theorem utf8EncodeChar_eq (c : Char) : String.utf8EncodeChar c =
    if c.toNat ≤ 0x7F then [UInt8.ofNat c.toNat]
    else if c.toNat ≤ 0x7FF then
      [UInt8.ofNat (c.toNat / 64 % 32 + 0xC0), UInt8.ofNat (c.toNat % 64 + 0x80)]
    else if c.toNat ≤ 0xFFFF then
      [UInt8.ofNat (c.toNat / 4096 % 16 + 0xE0), UInt8.ofNat (c.toNat / 64 % 64 + 0x80),
        UInt8.ofNat (c.toNat % 64 + 0x80)]
    else
      [UInt8.ofNat (c.toNat / 262144 % 8 + 0xF0), UInt8.ofNat (c.toNat / 4096 % 64 + 0x80),
        UInt8.ofNat (c.toNat / 64 % 64 + 0x80), UInt8.ofNat (c.toNat % 64 + 0x80)] :=
  rfl

/-- One character is read back. -/
theorem decodeUtf8From_char (pos : Nat) (done : List Char) (c : Char) (rest : Bytes) :
    ∃ pos', decodeUtf8From pos done (String.utf8EncodeChar c ++ rest) =
      decodeUtf8From pos' (c :: done) rest := by
  have hmax := toNat_lt_pointLimit c
  have hpoint := charOfPoint_toNat c
  have hlast := isTail_ofNat (c.toNat % 64) (Nat.mod_lt _ (by decide))
  rw [utf8EncodeChar_eq]
  by_cases hone : c.toNat ≤ 0x7F
  · rw [if_pos hone, List.singleton_append, decodeUtf8From]
    have hnat : (UInt8.ofNat c.toNat).toNat = c.toNat :=
      UInt8.toNat_ofNat_of_lt' (Nat.lt_of_le_of_lt hone (by decide))
    have hascii : UInt8.ofNat c.toNat < 0x80 := by
      rw [UInt8.lt_iff_toNat_lt, hnat]
      exact Nat.lt_succ_of_le hone
    rw [if_pos hascii, hnat, Char.ofNat_toNat]
    exact ⟨_, rfl⟩
  rw [if_neg hone]
  by_cases htwo : c.toNat ≤ 0x7FF
  · rw [if_pos htwo]
    rcases utf8Lead_two (c.toNat / 64 % 32) (Nat.mod_lt _ (by decide)) (by omega) with
      ⟨hascii, hlead, hbits⟩
    rw [List.cons_append, List.singleton_append, decodeUtf8From, if_neg hascii, hlead]
    simp only []
    rw [if_neg hlast.2.2.1, if_pos trivial, hbits, hlast.2.1]
    have hvalue : c.toNat / 64 % 32 * 64 + c.toNat % 64 = c.toNat := by omega
    rw [hvalue, hpoint]
    exact ⟨_, rfl⟩
  rw [if_neg htwo]
  have hmiddle := isTail_ofNat (c.toNat / 64 % 64) (Nat.mod_lt _ (by decide))
  by_cases hthree : c.toNat ≤ 0xFFFF
  · rw [if_pos hthree]
    rcases utf8Lead_three (c.toNat / 4096 % 16) (Nat.mod_lt _ (by decide)) with
      ⟨hascii, hlead, hbits⟩
    -- Two bytes would have done for what the excluded bytes spell.
    have hrange : ¬ (UInt8.ofNat (c.toNat / 64 % 64 + 0x80) <
        (if c.toNat / 4096 % 16 = 0 then 0xA0 else 0x80) ∨
          0xBF < UInt8.ofNat (c.toNat / 64 % 64 + 0x80)) := by
      by_cases hzero : c.toNat / 4096 % 16 = 0
      · rw [if_pos hzero]
        exact hmiddle.2.2.2.1 (by omega)
      · rw [if_neg hzero]
        exact hmiddle.2.2.1
    rw [List.cons_append, List.cons_append, List.singleton_append, decodeUtf8From,
      if_neg hascii, hlead]
    simp only []
    rw [if_neg hrange, if_neg (by decide)]
    simp only [hlast.1, Bool.not_true]
    rw [if_neg Bool.false_ne_true, if_pos trivial, hbits, hmiddle.2.1, hlast.2.1]
    have hvalue : c.toNat / 4096 % 16 * 4096 + c.toNat / 64 % 64 * 64 + c.toNat % 64 =
        c.toNat := by
      omega
    rw [hvalue, hpoint]
    exact ⟨_, rfl⟩
  · rw [if_neg hthree]
    have hsecond := isTail_ofNat (c.toNat / 4096 % 64) (Nat.mod_lt _ (by decide))
    rcases utf8Lead_four (c.toNat / 262144 % 8) (by omega) with ⟨hascii, hlead, hbits⟩
    -- Three bytes would have done, or there is no such character.
    have hrange : ¬ (UInt8.ofNat (c.toNat / 4096 % 64 + 0x80) <
        (if c.toNat / 262144 % 8 = 0 then 0x90 else 0x80) ∨
          (if c.toNat / 262144 % 8 = 4 then 0x8F else 0xBF) <
            UInt8.ofNat (c.toNat / 4096 % 64 + 0x80)) := by
      by_cases hzero : c.toNat / 262144 % 8 = 0
      · rw [if_pos hzero, if_neg (by omega)]
        exact hsecond.2.2.2.2.1 (by omega)
      · rw [if_neg hzero]
        by_cases hfour : c.toNat / 262144 % 8 = 4
        · rw [if_pos hfour]
          exact hsecond.2.2.2.2.2 (by omega)
        · rw [if_neg hfour]
          exact hsecond.2.2.1
    rw [List.cons_append, List.cons_append, List.cons_append, List.singleton_append,
      decodeUtf8From, if_neg hascii, hlead]
    simp only []
    rw [if_neg hrange, if_neg (by decide)]
    simp only [hmiddle.1, hlast.1, Bool.not_true]
    rw [if_neg Bool.false_ne_true, if_neg (by decide), if_neg Bool.false_ne_true, hbits,
      hsecond.2.1, hmiddle.2.1, hlast.2.1]
    have hvalue : c.toNat / 262144 % 8 * 262144 + c.toNat / 4096 % 64 * 4096 +
        c.toNat / 64 % 64 * 64 + c.toNat % 64 = c.toNat := by
      omega
    rw [hvalue, hpoint]
    exact ⟨_, rfl⟩

theorem decodeUtf8From_encodeUtf8 (pos : Nat) (done cs : List Char) :
    decodeUtf8From pos done (encodeUtf8 cs) = .ok (done.reverse ++ cs) := by
  induction cs generalizing pos done with
  | nil =>
      rw [List.append_nil]
      rfl
  | cons c rest ih =>
      rcases decodeUtf8From_char pos done c (encodeUtf8 rest) with ⟨pos', hpos⟩
      have hcons : encodeUtf8 (c :: rest) = String.utf8EncodeChar c ++ encodeUtf8 rest :=
        List.flatMap_cons
      rw [hcons, hpos, ih pos' (c :: done), List.reverse_cons, List.append_assoc,
        List.singleton_append]

/-- A text is read back. -/
theorem decodeUtf8_encodeUtf8 (cs : List Char) : decodeUtf8 (encodeUtf8 cs) = .ok cs :=
  decodeUtf8From_encodeUtf8 0 [] cs

/-- Only one byte begins a surrogate. -/
theorem spellsSurrogate_cons {b : UInt8} (hb : b ≠ 0xED) (rest : Bytes) :
    spellsSurrogate (b :: rest) = spellsSurrogate rest := by
  cases rest with
  | nil => rfl
  | cons b₁ rest => rw [spellsSurrogate, beq_eq_false_iff_ne.mpr hb, Bool.false_and, Bool.false_or]

/-- The bytes that are no such byte: those of characters in one, two or four bytes,
    and those that continue a character. -/
theorem beginsNoSurrogate : (∀ n ≤ 0x7F, UInt8.ofNat n ≠ 0xED) ∧
    (∀ n < 32, UInt8.ofNat (n + 0xC0) ≠ 0xED) ∧ (∀ n < 8, UInt8.ofNat (n + 0xF0) ≠ 0xED) ∧
      ∀ n < 64, UInt8.ofNat (n + 0x80) ≠ 0xED := by
  decide

/-- In three bytes, the byte may occur, but what follows it says that it begins no
    surrogate. -/
theorem spellsSurrogate_three : ∀ n < 16, ∀ m < 64, (n = 13 → m < 32) → ∀ rest,
    spellsSurrogate (UInt8.ofNat (n + 0xE0) :: UInt8.ofNat (m + 0x80) :: rest) =
      spellsSurrogate (UInt8.ofNat (m + 0x80) :: rest) := by
  have hbytes : ∀ n < 16, ∀ m < 64, (n = 13 → m < 32) →
      ((UInt8.ofNat (n + 0xE0) == 0xED) && decide (0x9F < UInt8.ofNat (m + 0x80))) = false := by
    decide
  intro n hn m hm h rest
  rw [spellsSurrogate, hbytes n hn m hm h, Bool.false_or]

/-- A character is no surrogate. -/
theorem spellsSurrogate_char (c : Char) (rest : Bytes) :
    spellsSurrogate (String.utf8EncodeChar c ++ rest) = spellsSurrogate rest := by
  rcases beginsNoSurrogate with ⟨hone, htwo, hfour, htail⟩
  have hlast := htail (c.toNat % 64) (Nat.mod_lt _ (by decide))
  have hmiddle := htail (c.toNat / 64 % 64) (Nat.mod_lt _ (by decide))
  rw [utf8EncodeChar_eq]
  by_cases h₁ : c.toNat ≤ 0x7F
  · rw [if_pos h₁]
    exact spellsSurrogate_cons (hone _ h₁) rest
  rw [if_neg h₁]
  by_cases h₂ : c.toNat ≤ 0x7FF
  · rw [if_pos h₂, List.cons_append, List.singleton_append,
      spellsSurrogate_cons (htwo _ (Nat.mod_lt _ (by decide))), spellsSurrogate_cons hlast]
  rw [if_neg h₂]
  by_cases h₃ : c.toNat ≤ 0xFFFF
  · have hvalid : c.toNat.isValidChar := c.valid
    -- Only a lead of 13 could begin a surrogate, and the characters with it lie below them.
    have hlead : c.toNat / 4096 % 16 = 13 → c.toNat / 64 % 64 < 32 := by
      unfold Nat.isValidChar at hvalid
      omega
    rw [if_pos h₃, List.cons_append, List.cons_append, List.singleton_append,
      spellsSurrogate_three _ (Nat.mod_lt _ (by decide)) _ (Nat.mod_lt _ (by decide)) hlead,
      spellsSurrogate_cons hmiddle, spellsSurrogate_cons hlast]
  · rw [if_neg h₃, List.cons_append, List.cons_append, List.cons_append, List.singleton_append,
      spellsSurrogate_cons (hfour _ (Nat.mod_lt _ (by decide))),
      spellsSurrogate_cons (htail _ (Nat.mod_lt _ (by decide))), spellsSurrogate_cons hmiddle,
      spellsSurrogate_cons hlast]

/-- A text is read back by strict readers. -/
theorem decodeStrictUtf8?_encodeUtf8 (cs : List Char) :
    decodeStrictUtf8? (encodeUtf8 cs) = some cs := by
  have hnone : spellsSurrogate (encodeUtf8 cs) = false := by
    induction cs with
    | nil => rfl
    | cons c rest ih =>
        have hcons : encodeUtf8 (c :: rest) = String.utf8EncodeChar c ++ encodeUtf8 rest :=
          List.flatMap_cons
        rw [hcons, spellsSurrogate_char, ih]
  unfold decodeStrictUtf8?
  rw [hnone, if_neg Bool.false_ne_true, decodeUtf8_encodeUtf8]
  rfl

/-- A character of ASCII that is not zero. -/
def IsAscii (c : Char) : Prop := 0 < c.toNat ∧ c.toNat < 0x80

theorem encodeUtf8_ascii {c : Char} (h : IsAscii c) (rest : List Char) :
    encodeUtf8 (c :: rest) = UInt8.ofNat c.toNat :: encodeUtf8 rest := by
  have hcons : encodeUtf8 (c :: rest) = String.utf8EncodeChar c ++ encodeUtf8 rest :=
    List.flatMap_cons
  rw [hcons, utf8EncodeChar_eq, if_pos (Nat.le_of_lt_succ h.2), List.singleton_append]

/-- A byte of ASCII that is not zero begins no mark. -/
theorem byteOrderMarks_head {m : Bytes × (Bytes → Except CodingFault (List Char))}
    (hm : m ∈ byteOrderMarks) : ∃ b bs, m.1 = b :: bs ∧ (b ≠ 0 → ¬ b < 0x80) := by
  unfold byteOrderMarks at hm
  simp only [List.mem_cons, List.not_mem_nil, or_false] at hm
  rcases hm with rfl | rfl | rfl | rfl | rfl
  · exact ⟨_, _, rfl, fun h => absurd rfl h⟩
  · exact ⟨_, _, rfl, fun _ => by decide⟩
  · exact ⟨_, _, rfl, fun _ => by decide⟩
  · exact ⟨_, _, rfl, fun _ => by decide⟩
  · exact ⟨_, _, rfl, fun _ => by decide⟩

/-- Bytes that begin with no zeros are those of characters. -/
theorem decodeUnmarked_utf8 {a b : UInt8} (ha : a ≠ 0) (hb : b ≠ 0) (rest : Bytes) :
    decodeUnmarked (a :: b :: rest) = decodeUtf8 (a :: b :: rest) := by
  match rest with
  | [] => rw [decodeUnmarked, if_neg ha, if_neg hb]
  | [c] => rfl
  | c :: d :: rest => rw [decodeUnmarked, if_neg ha, if_neg hb]

/-- Bytes that begin like a text begin with no mark. -/
theorem find?_byteOrderMarks {a : UInt8} (ha₀ : a ≠ 0) (ha₁ : a < 0x80) (rest : Bytes) :
    byteOrderMarks.find? (·.1.isPrefixOf (a :: rest)) = none := by
  rw [List.find?_eq_none]
  intro m hm hstart
  rcases byteOrderMarks_head hm with ⟨c, cs, hmark, hc⟩
  rw [hmark, List.isPrefixOf_cons_cons, Bool.and_eq_true] at hstart
  rw [beq_iff_eq.mp hstart.1] at hc
  exact hc ha₀ ha₁

theorem IsAscii.byte {c : Char} (h : IsAscii c) :
    UInt8.ofNat c.toNat ≠ 0 ∧ UInt8.ofNat c.toNat < 0x80 := by
  have hnat : (UInt8.ofNat c.toNat).toNat = c.toNat :=
    UInt8.toNat_ofNat_of_lt' (Nat.lt_trans h.2 (by decide))
  refine ⟨fun hzero => ?_, ?_⟩
  · rw [hzero] at hnat
    exact absurd hnat.symm (Nat.ne_of_gt h.1)
  · rw [UInt8.lt_iff_toNat_lt, hnat]
    exact h.2

/-- However much there is of a payload that begins like a text, it is read as one. -/
theorem decodeJsonBytes_front {a b : Char} (ha : IsAscii a) (hb : IsAscii b) {rest : List Char}
    {front back : Bytes} (h : encodeUtf8 (a :: b :: rest) = front ++ back) :
    decodeJsonBytes front = decodeUtf8 front := by
  rw [encodeUtf8_ascii ha, encodeUtf8_ascii hb] at h
  rcases ha.byte with ⟨ha₀, ha₁⟩
  rcases hb.byte with ⟨hb₀, -⟩
  -- How the bytes are read is told by the first two, or by the first if there is one only.
  match front with
  | [] => rfl
  | [c] =>
      rcases List.cons.inj h with ⟨rfl, -⟩
      unfold decodeJsonBytes
      rw [find?_byteOrderMarks ha₀ ha₁]
      rfl
  | c :: d :: tail =>
      rcases List.cons.inj h with ⟨rfl, h'⟩
      rcases List.cons.inj h' with ⟨rfl, -⟩
      unfold decodeJsonBytes
      rw [find?_byteOrderMarks ha₀ ha₁]
      exact decodeUnmarked_utf8 ha₀ hb₀ tail

/-- A payload that begins like a text is read as one. -/
theorem decodeJsonBytes_encodeUtf8 {a b : Char} (ha : IsAscii a) (hb : IsAscii b)
    (rest : List Char) :
    decodeJsonBytes (encodeUtf8 (a :: b :: rest)) = .ok (a :: b :: rest) := by
  rw [decodeJsonBytes_front ha hb (List.append_nil _).symm]
  exact decodeUtf8_encodeUtf8 (a :: b :: rest)

/-- The marks that are looked for begin with a byte beyond ASCII. -/
theorem decodeYamlBytes_encodeUtf8 {c : Char} (h : IsAscii c) (rest : List Char) :
    decodeYamlBytes? (encodeUtf8 (c :: rest)) = some (c :: rest) := by
  have hunmarked : ∀ {b : UInt8} (bs : Bytes), b < 0x80 →
      decodeYamlBytes? (b :: bs) = decodeStrictUtf8? (b :: bs) := by
    intro b bs hb
    unfold decodeYamlBytes?
    split
    · rename_i heq
      rw [(List.cons.inj heq).1] at hb
      exact absurd hb (by decide)
    · rename_i heq
      rw [(List.cons.inj heq).1] at hb
      exact absurd hb (by decide)
    · rfl
  rw [encodeUtf8_ascii h, hunmarked _ h.byte.2, ← encodeUtf8_ascii h, decodeStrictUtf8?_encodeUtf8]

end Docket
