import Docket.Proofs.Yaml.Texts
import Mathlib.Data.Bool.AllAny

/-!
# Texts between double quotes

Between double quotes each character is written as it is or escaped, and a fold may
stand anywhere. A fold stands for nothing, so a blank behind it is marked as the text's
own, and that is where the writer and the reader may disagree: the writer forgets that it
has written the mark, and if the line is full at once, folds again.

## Main definitions

* `hiddenBreak`: A fold before a given character.
* `YamlQuoteState.Awaits`: Where a reader may stand when the rest of a text is to come.

## Theorems

* `readDoubleQuoted_doubleQuotedEscape`: An escaped character is read back.
* `readDoubleQuoted_text`: A text between double quotes is read back, unless it is deep
  and a blank stands behind an escaped character.
-/

namespace Docket

theorem ne_of_isDoubleQuotedRaw {c : Char} (h : isDoubleQuotedRaw c = true) (d : Char)
    (hd : isDoubleQuotedRaw d = false) : c ≠ d := by
  rintro rfl
  exact Bool.noConfusion (h.symm.trans hd)

theorem isYamlLineEnd_of_isDoubleQuotedRaw {c : Char} (h : isDoubleQuotedRaw c = true) :
    isYamlLineEnd c = false := by
  have hne := ne_of_isDoubleQuotedRaw h
  simp [isYamlLineEnd, isYamlBreak, hne '\r' (by decide), hne '\n' (by decide),
    hne '\u0085' (by decide), hne '\u2028' (by decide), hne '\u2029' (by decide)]

/-- A fold between double quotes, before a given character. -/
def hiddenBreak (indent : Nat) (next : Option Char) : List Char :=
  '\\' :: yamlNewline indent ++ if next = some ' ' then ['\\'] else []

section

variable (folds : Bool) (indent : Nat) (first fresh : Bool) (column : Nat) {c : Char}
  (cs : List Char)

/-- A character that stands for itself, perhaps behind a fold. -/
theorem foldDoubleQuoted_raw (hc : isDoubleQuotedRaw c = true) : ∃ place,
    foldDoubleQuoted folds indent first fresh column (c :: cs) =
        c :: foldDoubleQuoted folds indent false false place cs ∨
      (folds = true ∧ yamlWidth < column) ∧
        foldDoubleQuoted folds indent first fresh column (c :: cs) =
          hiddenBreak indent (some c) ++
            c :: foldDoubleQuoted folds indent false false place cs := by
  rw [foldDoubleQuoted, if_pos hc]
  -- A blank behind the fold takes a backslash, which moves the column by one.
  split
  next hfold =>
    simp only [Bool.and_eq_true, decide_eq_true_eq] at hfold
    by_cases hspace : some c = some ' '
    · exact ⟨indent + 1 + 1, .inr ⟨⟨hfold.1.1.1.1, hfold.2⟩, by simp [hiddenBreak, hspace]⟩⟩
    · exact ⟨indent + 1, .inr ⟨⟨hfold.1.1.1.1, hfold.2⟩, by simp [hiddenBreak, hspace]⟩⟩
  next => exact ⟨_, .inl rfl⟩

/-- An escaped character, perhaps before a fold. -/
theorem foldDoubleQuoted_escape (hc : isDoubleQuotedRaw c = false) : ∃ place,
    foldDoubleQuoted folds indent first fresh column (c :: cs) =
        doubleQuotedEscape c ++ foldDoubleQuoted folds indent false true place cs ∨
      (folds = true ∧ (cs.head? = some ' ' → place = indent + 1)) ∧
        foldDoubleQuoted folds indent first fresh column (c :: cs) =
          doubleQuotedEscape c ++ hiddenBreak indent cs.head? ++
            foldDoubleQuoted folds indent false true place cs := by
  rw [foldDoubleQuoted, if_neg (by simp [hc])]
  simp only []
  split
  next hfold =>
    simp only [Bool.and_eq_true] at hfold
    by_cases hspace : cs.head? = some ' '
    · exact ⟨indent + 1, .inr ⟨⟨hfold.1.1.1, fun _ => rfl⟩, by simp [hiddenBreak, hspace]⟩⟩
    · exact ⟨indent, .inr ⟨⟨hfold.1.1.1, fun h => absurd h hspace⟩, by simp [hiddenBreak, hspace]⟩⟩
  next => exact ⟨_, .inl rfl⟩

end

section Double

variable (done : List Char) (gap : YamlGap) (rest : List Char)

/-! A character that cannot begin a break of two characters is read as the state says. -/

theorem readDoubleQuoted_inText {c : Char} (hc : c ≠ '\r') :
    readDoubleQuoted done (.text gap) (c :: rest) =
      if c = '"' then .ok ((gap.text ++ done).reverse, rest)
      else if c = '\\' then readDoubleQuoted (gap.text ++ done) .escape rest
      else if isYamlInnerBlank c then readDoubleQuoted done (.text (gap.addBlank c)) rest
      else
        match takeYamlBreak? [c] with
        | some (b, _) =>
          if atYamlMark rest then .error .malformed
          else readDoubleQuoted done (.text (gap.addBreak b)) rest
        | none => readDoubleQuoted (c :: (gap.text ++ done)) (.text .none) rest :=
  readDoubleQuoted.eq_5 done c rest gap fun _ h => absurd h hc

theorem readDoubleQuoted_inEscape {c : Char} (hc : c ≠ '\r') :
    readDoubleQuoted done .escape (c :: rest) =
      match yamlEscape? c, yamlEscapeDigits? c, takeYamlBreak? [c] with
      | some d, _, _ => readDoubleQuoted (d :: done) (.text .none) rest
      | none, some left, _ => readDoubleQuoted done (.number left 0) rest
      | none, none, some _ =>
        if atYamlMark rest then .error .malformed
        else readDoubleQuoted done (.text (.lines none [])) rest
      | none, none, none => .error .malformed :=
  readDoubleQuoted.eq_6 done c rest fun _ h => absurd h hc

theorem readDoubleQuoted_inNumber {c : Char} (left value : Nat) (hc : c ≠ '\r') :
    readDoubleQuoted done (.number left value) (c :: rest) =
      match hexValue? c with
      | none => .error .malformed
      | some v =>
        if left ≤ 1 then
          match yamlCharacter (value * 16 + v) with
          | .ok d => readDoubleQuoted (d :: done) (.text .none) rest
          | .error f => .error f
        else readDoubleQuoted done (.number (left - 1) (value * 16 + v)) rest :=
  readDoubleQuoted.eq_7 done c rest left value fun _ h => absurd h hc

theorem readDoubleQuoted_backslash :
    readDoubleQuoted done (.text gap) ('\\' :: rest) =
      readDoubleQuoted (gap.text ++ done) .escape rest := by
  rw [readDoubleQuoted_inText done gap rest (by decide)]
  rfl

theorem readDoubleQuoted_blank :
    readDoubleQuoted done (.text gap) (' ' :: rest) =
      readDoubleQuoted done (.text (gap.addBlank ' ')) rest := by
  rw [readDoubleQuoted_inText done gap rest (by decide)]
  rfl

theorem readDoubleQuoted_close :
    readDoubleQuoted done (.text gap) ('"' :: rest) = .ok ((gap.text ++ done).reverse, rest) := by
  rw [readDoubleQuoted_inText done gap rest (by decide)]
  rfl

/-- A blank that is marked as the text's own. -/
theorem readDoubleQuoted_marked_blank :
    readDoubleQuoted done .escape (' ' :: rest) =
      readDoubleQuoted (' ' :: done) (.text .none) rest := by
  rw [readDoubleQuoted_inEscape done rest (by decide)]
  rfl

theorem readDoubleQuoted_word {c : Char} (hspace : c ≠ ' ') (hc : isDoubleQuotedRaw c = true) :
    readDoubleQuoted done (.text gap) (c :: rest) =
      readDoubleQuoted (c :: (gap.text ++ done)) (.text .none) rest := by
  have hne := ne_of_isDoubleQuotedRaw hc
  have hend := isYamlLineEnd_of_isDoubleQuotedRaw hc
  rw [readDoubleQuoted_inText done gap rest (hne _ (by decide)),
    if_neg (hne _ (by decide)), if_neg (hne _ (by decide)), takeYamlBreak_of_not_end hend]
  simp [isYamlInnerBlank, hspace, hne '\t' (by decide)]

/-- The indentation behind a fold does not count. -/
theorem readDoubleQuoted_indent (b : Option Char) (more : List Char) (n : Nat) :
    readDoubleQuoted done (.text (.lines b more)) (List.replicate n ' ' ++ rest) =
      readDoubleQuoted done (.text (.lines b more)) rest := by
  induction n with
  | zero => rfl
  | succ n ih =>
      rw [List.replicate_succ, List.cons_append, readDoubleQuoted_blank]
      exact ih

/-- A fold stands for nothing. Behind it stands the next character, or the mark of a
    blank. -/
theorem readDoubleQuoted_hiddenBreak {indent : Nat} (hindent : 0 < indent) (next : Option Char) :
    readDoubleQuoted done (.text gap) (hiddenBreak indent next ++ rest) =
      readDoubleQuoted (gap.text ++ done)
        (if next = some ' ' then .escape else .text (.lines .none [])) rest := by
  have hfold : ∀ text, readDoubleQuoted done (.text gap) ('\\' :: (yamlNewline indent ++ text)) =
      readDoubleQuoted (gap.text ++ done) (.text (.lines .none [])) text := by
    intro text
    rw [readDoubleQuoted_backslash, yamlNewline, List.cons_append,
      readDoubleQuoted_inEscape _ _ (by decide)]
    change (if atYamlMark (List.replicate indent ' ' ++ text) = true then _ else _) = _
    rw [if_neg (by simp [atYamlMark_of_indented hindent]), readDoubleQuoted_indent]
  unfold hiddenBreak
  by_cases h : next = some ' '
  · rw [if_pos h, if_pos h, List.append_assoc, List.cons_append, hfold, List.singleton_append,
      readDoubleQuoted_backslash]
    rfl
  · rw [if_neg h, if_neg h, List.append_assoc, List.cons_append, hfold, List.nil_append]

variable {rest}

theorem hexValue_upper : ∀ d < 16,
    hexValue? (hexDigit d).toUpper = some d ∧ (hexDigit d).toUpper ≠ '\r' := by
  decide

theorem div_sixteen_lt {n width : Nat} (h : n < 16 ^ (width + 1)) : n / 16 < 16 ^ width := by
  rw [Nat.pow_succ] at h
  exact Nat.div_lt_of_lt_mul (by omega)

/-- The digits of a number but for the last are read from the left. -/
theorem readDoubleQuoted_hexDigits {left n : Nat} (value : Nat) {width : Nat} (hleft : width < left)
    (hn : n < 16 ^ width) :
    readDoubleQuoted done (.number left value) ((hexDigits width n).map Char.toUpper ++ rest) =
      readDoubleQuoted done (.number (left - width) (value * 16 ^ width + n)) rest := by
  induction width generalizing n rest with
  | zero =>
      rw [Nat.pow_zero, Nat.lt_one_iff] at hn
      rw [hn, Nat.pow_zero, Nat.mul_one]
      rfl
  | succ width ih =>
      obtain ⟨hdigit, hreturn⟩ := hexValue_upper (n % 16) (Nat.mod_lt n (by decide))
      rw [hexDigits, List.map_append, List.append_assoc, ih (by omega) (div_sixteen_lt hn),
        List.map_singleton, List.singleton_append,
        readDoubleQuoted_inNumber _ _ _ _ hreturn, hdigit]
      -- The digits read so far are moved one place to the left for the next.
      have hsum : (value * 16 ^ width + n / 16) * 16 + n % 16 = value * 16 ^ (width + 1) + n := by
        rw [Nat.pow_succ, Nat.add_mul, Nat.mul_assoc]
        omega
      simp only [hsum]
      rw [if_neg (by omega), Nat.sub_sub]

/-- A character that is written by number is read back. -/
theorem readDoubleQuoted_number {lead c : Char} {width : Nat} (hescape : yamlEscape? lead = none)
    (hdigits : yamlEscapeDigits? lead = some (width + 1)) (hlead : lead ≠ '\r')
    (hc : c.toNat < 16 ^ (width + 1)) :
    readDoubleQuoted done (.text gap)
        ('\\' :: lead :: ((hexDigits (width + 1) c.toNat).map Char.toUpper ++ rest)) =
      readDoubleQuoted (c :: (gap.text ++ done)) (.text .none) rest := by
  obtain ⟨hdigit, hreturn⟩ := hexValue_upper (c.toNat % 16) (Nat.mod_lt _ (by decide))
  -- The last digit completes the number of a character that exists.
  have hchar : yamlCharacter (c.toNat / 16 * 16 + c.toNat % 16) = .ok c := by
    rw [Nat.div_add_mod', yamlCharacter, if_pos (toNat_lt_pointLimit c), charOfPoint_toNat]
  rw [readDoubleQuoted_backslash, readDoubleQuoted_inEscape _ _ hlead, hescape, hdigits]
  simp only []
  rw [hexDigits, List.map_append, List.append_assoc,
    readDoubleQuoted_hexDigits _ 0 (Nat.lt_succ_self width) (div_sixteen_lt hc),
    List.map_singleton, List.singleton_append,
    readDoubleQuoted_inNumber _ _ _ _ hreturn, hdigit]
  simp only [Nat.zero_mul, Nat.zero_add]
  rw [if_pos (by omega), hchar]

/-- An escaped character is read back. -/
theorem readDoubleQuoted_doubleQuotedEscape (c : Char) :
    readDoubleQuoted done (.text gap) (doubleQuotedEscape c ++ rest) =
      readDoubleQuoted (c :: (gap.text ++ done)) (.text .none) rest := by
  have hshort : ∀ e ∈ yamlEscapes, yamlEscape? e.2 = some e.1 ∧ e.2 ≠ '\r' := by decide
  unfold doubleQuotedEscape
  split
  next e he =>
    have hc : e.1 = c := by simpa using List.find?_some he
    obtain ⟨hescape, hreturn⟩ := hshort e (List.mem_of_find?_eq_some he)
    rw [List.cons_append, List.singleton_append, readDoubleQuoted_backslash,
      readDoubleQuoted_inEscape _ _ hreturn, hescape, hc]
  next =>
    split
    next h => exact readDoubleQuoted_number done gap rfl rfl (by decide) (by omega)
    next =>
      split
      next h => exact readDoubleQuoted_number done gap rfl rfl (by decide) (by omega)
      next =>
        have hlt := toNat_lt_pointLimit c
        exact readDoubleQuoted_number done gap rfl rfl (by decide) (by omega)

end Double

namespace YamlQuoteState

/-- What a gap adds to the text. -/
def gapText : YamlQuoteState → List Char
  | text gap => gap.text
  | _ => []

/-- Where a reader stands when the rest of a text is to come, `column` being that of
    the writer. A blank does not come behind a fold, but behind the mark of a blank. -/
def Awaits (column : Nat) (cs : List Char) : YamlQuoteState → Prop
  | text gap => gap.hasBreak = true → cs.head? ≠ some ' '
  | escape => cs.head? = some ' ' ∧ column ≤ yamlWidth
  | number .. => False

end YamlQuoteState

section

variable {folds : Bool} {indent column : Nat} {q : YamlQuoteState} {c : Char} {cs : List Char}

/-- A character that stands for itself is read, and the reader stands where the rest of
    the text is to come. -/
theorem readDoubleQuoted_foldDoubleQuoted_raw (hindent : folds = true → 0 < indent)
    (hc : isDoubleQuotedRaw c = true) (hstate : q.Awaits column (c :: cs)) (first fresh : Bool)
    (done rest : List Char) : ∃ q' place done', q'.Awaits place cs ∧
      q'.gapText ++ done' = c :: (q.gapText ++ done) ∧
      readDoubleQuoted done q
          (foldDoubleQuoted folds indent first fresh column (c :: cs) ++ rest) =
        readDoubleQuoted done' q' (foldDoubleQuoted folds indent false false place cs ++ rest) := by
  obtain ⟨place, hplain | ⟨⟨hfolds, hwide⟩, hfold⟩⟩ :=
    foldDoubleQuoted_raw folds indent first fresh column cs hc
  · rw [hplain, List.cons_append]
    cases q with
    | text gap =>
        by_cases hspace : c = ' '
        · subst hspace
          have hopen : gap.hasBreak = false := by
            by_contra h
            exact hstate (by simpa using h) rfl
          rw [readDoubleQuoted_blank, YamlGap.addBlank_of_open hopen]
          exact ⟨.text (.blanks _), place, done, nofun, rfl, rfl⟩
        · rw [readDoubleQuoted_word done gap _ hspace hc]
          exact ⟨.text .none, place, _, nofun, rfl, rfl⟩
    | escape =>
        obtain rfl : c = ' ' := Option.some.inj hstate.1
        rw [readDoubleQuoted_marked_blank]
        exact ⟨.text .none, place, _, nofun, rfl, rfl⟩
    | number => exact hstate.elim
  -- The line is folded before the character, and a blank is marked then, or it would be lost.
  · rw [hfold, List.append_assoc, List.cons_append]
    cases q with
    | text gap =>
        rw [readDoubleQuoted_hiddenBreak done gap _ (hindent hfolds)]
        refine ⟨.text .none, place, c :: (gap.text ++ done), nofun, rfl, ?_⟩
        by_cases hspace : c = ' '
        · subst hspace
          rw [if_pos rfl, readDoubleQuoted_marked_blank]
        · rw [if_neg (by simpa using hspace), readDoubleQuoted_word _ _ _ hspace hc]
          rfl
    | escape => exact absurd hwide (Nat.not_lt.mpr hstate.2)
    | number => exact hstate.elim

/-- An escaped character is read, and the reader stands where the rest of the text is to
    come. If it stands behind the mark of a blank, the line must not be folded again. -/
theorem readDoubleQuoted_foldDoubleQuoted_escape (hindent : folds = true → 0 < indent)
    (hc : isDoubleQuotedRaw c = false) (hstate : q.Awaits column (c :: cs))
    (hdeep : indent < yamlWidth ∨ cs.head? ≠ some ' ') (first fresh : Bool)
    (done rest : List Char) : ∃ q' place done', q'.Awaits place cs ∧
      q'.gapText ++ done' = c :: (q.gapText ++ done) ∧
      readDoubleQuoted done q
          (foldDoubleQuoted folds indent first fresh column (c :: cs) ++ rest) =
        readDoubleQuoted done' q' (foldDoubleQuoted folds indent false true place cs ++ rest) := by
  cases q with
  | escape =>
      obtain rfl : c = ' ' := Option.some.inj hstate.1
      exact absurd hc (by decide)
  | number => exact hstate.elim
  | text gap =>
      obtain ⟨place, hplain | ⟨⟨hfolds, hplace⟩, hfold⟩⟩ :=
        foldDoubleQuoted_escape folds indent first fresh column cs hc
      · rw [hplain, List.append_assoc, readDoubleQuoted_doubleQuotedEscape]
        exact ⟨.text .none, place, _, nofun, rfl, rfl⟩
      · rw [hfold, List.append_assoc, List.append_assoc, readDoubleQuoted_doubleQuotedEscape,
          readDoubleQuoted_hiddenBreak _ _ _ (hindent hfolds)]
        -- The line is folded behind the character. The mark of the blank that follows is already
        -- written then.
        by_cases hspace : cs.head? = some ' '
        · have hshallow : indent < yamlWidth := hdeep.resolve_right fun h => h hspace
          rw [if_pos hspace]
          exact ⟨.escape, place, _, ⟨hspace, by rw [hplace hspace]; exact hshallow⟩, rfl, rfl⟩
        · rw [if_neg hspace]
          exact ⟨.text (.lines .none []), place, _, fun _ => hspace, rfl, rfl⟩

end

/-- A text between double quotes is read back. Only where lines are indented as far as
    they can be long, a blank must not stand behind an escaped character. -/
theorem readDoubleQuoted_foldDoubleQuoted {folds : Bool} {indent : Nat}
    (hindent : folds = true → 0 < indent) {cs : List Char} (rest : List Char) :
    ∀ {q : YamlQuoteState} {column : Nat} (first fresh : Bool) (done : List Char),
      q.Awaits column cs →
      (indent < yamlWidth ∨ hasNeighbours (fun c => !isDoubleQuotedRaw c) isSpace cs = false) →
      readDoubleQuoted done q
          (foldDoubleQuoted folds indent first fresh column cs ++ '"' :: rest) =
        .ok ((q.gapText ++ done).reverse ++ cs, rest) := by
  induction cs with
  | nil =>
      intro q column first fresh done hstate _
      cases q with
      | text gap =>
          rw [foldDoubleQuoted, List.nil_append, readDoubleQuoted_close, List.append_nil]
          rfl
      | escape => exact absurd hstate.1 (by decide)
      | number => exact hstate.elim
  | cons c cs ih =>
      intro q column first fresh done hstate hdeep
      have hdeep' : indent < yamlWidth ∨
          hasNeighbours (fun c => !isDoubleQuotedRaw c) isSpace cs = false :=
        hdeep.imp_right fun h => hasNeighbours_tail (b := some c) h
      by_cases hraw : isDoubleQuotedRaw c = true
      · obtain ⟨q', place, done', hstate', htext, hread⟩ :=
          readDoubleQuoted_foldDoubleQuoted_raw hindent hraw hstate first fresh done ('"' :: rest)
        rw [hread, ih _ _ _ hstate' hdeep', htext]
        simp
      · have hescape : isDoubleQuotedRaw c = false := by simpa using hraw
        -- Where lines have no room at all, no blank is behind an escaped character.
        have hnext : indent < yamlWidth ∨ cs.head? ≠ some ' ' := by
          refine hdeep.imp_right fun h hspace => ?_
          have hbehind := behind_of_hasNeighbours h (by simp [hescape])
          rw [hspace] at hbehind
          exact absurd hbehind (by decide)
        obtain ⟨q', place, done', hstate', htext, hread⟩ :=
          readDoubleQuoted_foldDoubleQuoted_escape hindent hescape hstate hnext first fresh done
            ('"' :: rest)
        rw [hread, ih _ _ _ hstate' hdeep', htext]
        simp

theorem readDoubleQuoted_text (folds : Bool) {indent : Nat} (hindent : folds = true → 0 < indent)
    {cs : List Char} (column : Nat) (rest : List Char) (hdeep : indent < yamlWidth ∨
      hasNeighbours (fun c => !isDoubleQuotedRaw c) isSpace cs = false) :
    readDoubleQuoted [] (.text .none)
        (foldDoubleQuoted folds indent true false column cs ++ '"' :: rest) = .ok (cs, rest) := by
  rw [readDoubleQuoted_foldDoubleQuoted (q := .text .none) hindent rest true false [] nofun hdeep]
  rfl

/-- A character between double quotes. -/
def doubleQuotedChar (c : Char) : List Char :=
  if isDoubleQuotedRaw c then [c] else doubleQuotedEscape c

theorem foldDoubleQuoted_false (indent : Nat) (first fresh : Bool) (column : Nat) (cs : List Char) :
    foldDoubleQuoted false indent first fresh column cs = cs.flatMap doubleQuotedChar := by
  induction cs generalizing first fresh column with
  | nil => rfl
  -- Both cases of a fold are excluded, as nothing is folded.
  | cons c cs ih =>
      rw [List.flatMap_cons, doubleQuotedChar]
      by_cases hraw : isDoubleQuotedRaw c = true
      · obtain ⟨place, h | ⟨⟨h, -⟩, -⟩⟩ :=
          foldDoubleQuoted_raw false indent first fresh column cs hraw
        · rw [h, if_pos hraw, ih]
          rfl
        · cases h
      · obtain ⟨place, h | ⟨⟨h, -⟩, -⟩⟩ :=
          foldDoubleQuoted_escape false indent first fresh column cs (by simpa using hraw)
        · rw [h, if_neg hraw, ih]
        · cases h

/-- What is written for an escaped character is visible ASCII. -/
theorem isGraphic_doubleQuotedEscape {c d : Char} (h : d ∈ doubleQuotedEscape c) :
    0x21 ≤ d.toNat ∧ d.toNat ≤ 0x7E := by
  have hshort : ∀ e ∈ yamlEscapes, 0x21 ≤ e.2.toNat ∧ e.2.toNat ≤ 0x7E := by decide
  have hdigit : ∀ n < 16,
      0x21 ≤ (hexDigit n).toUpper.toNat ∧ (hexDigit n).toUpper.toNat ≤ 0x7E := by
    decide
  have hdigits : ∀ width n, ∀ d ∈ (hexDigits width n).map Char.toUpper,
      0x21 ≤ d.toNat ∧ d.toNat ≤ 0x7E := by
    intro width
    induction width with
    | zero => exact fun n d hd => absurd hd List.not_mem_nil
    | succ width ih =>
        intro n d hd
        rw [hexDigits, List.map_append, List.mem_append] at hd
        rcases hd with hd | hd
        · exact ih _ d hd
        · rw [List.map_singleton, List.mem_singleton] at hd
          rw [hd]
          exact hdigit _ (Nat.mod_lt n (by decide))
  have hnumber : ∀ lead ∈ ['x', 'u', 'U'], ∀ width,
      d ∈ '\\' :: lead :: (hexDigits width c.toNat).map Char.toUpper →
        0x21 ≤ d.toNat ∧ d.toNat ≤ 0x7E := by
    intro lead hlead width hd
    have hlead' : ∀ e ∈ ['\\', 'x', 'u', 'U'], 0x21 ≤ e.toNat ∧ e.toNat ≤ 0x7E :=
      List.all_iff_forall_prop.mp (by decide)
    rcases List.mem_cons.mp hd with rfl | hd
    · exact hlead' _ List.mem_cons_self
    rcases List.mem_cons.mp hd with rfl | hd
    · exact hlead' _ (List.mem_cons_of_mem _ hlead)
    · exact hdigits _ _ d hd
  -- Either the character has a name of its own, or its number is written out.
  unfold doubleQuotedEscape at h
  split at h
  next e he =>
    rcases List.mem_cons.mp h with rfl | h
    · decide
    · rw [List.mem_singleton.mp h]
      exact hshort e (List.mem_of_find?_eq_some he)
  next =>
    split at h
    · exact hnumber 'x' (by decide) 2 h
    split at h
    · exact hnumber 'u' (by decide) 4 h
    · exact hnumber 'U' (by decide) 8 h

theorem isYamlLineEnd_doubleQuotedChar {c d : Char} (h : d ∈ doubleQuotedChar c) :
    isYamlLineEnd d = false := by
  unfold doubleQuotedChar at h
  split at h
  next hraw =>
    rw [List.mem_singleton.mp h]
    exact isYamlLineEnd_of_isDoubleQuotedRaw hraw
  next =>
    obtain ⟨hlow, hhigh⟩ := isGraphic_doubleQuotedEscape h
    -- All line ends are controls or beyond ASCII.
    have hne : ∀ e : Char, e.toNat < 0x21 ∨ 0x7E < e.toNat → d ≠ e := by
      rintro e he rfl
      omega
    simp [isYamlLineEnd, isYamlBreak, hne '\r' (by decide), hne '\n' (by decide),
      hne '\u0085' (by decide), hne '\u2028' (by decide), hne '\u2029' (by decide)]

end Docket
