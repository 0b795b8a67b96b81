import Docket.Proofs.Number.Layout
import Docket.Yaml.Leaf
import Docket.Yaml.Writer
import Mathlib.Data.Bool.AllAny
import Mathlib.Data.List.TakeWhile

/-!
# Numbers in YAML

A number that is written stands for itself: its text needs no quotes, speaks for the
tag of integers or of floating-point numbers, and is read back as the number. A point
tells the two apart, so every layout for YAML keeps one, also before an exponent.

The text of a number has few characters, and each of them is plain: it can be written
raw, ends no word, is the small form of itself and no blank. Whatever looks at the text
as a whole finds nothing else.

## Main definitions

* `numeralChars`: The characters of numbers.
* `YamlNumeral`: A text that begins like a number and has no other characters.

## Theorems

* `YamlNumeral.fitsPlain`: Numbers need no quotes.
* `yamlPlainTag_int`, `yamlPlainTag_float`: The tags that they speak for.
* `yamlInt_toString`, `yamlFloat_write`: They are read back.
-/

namespace Docket

/-- The characters of numbers. -/
def numeralChars : List Char := "0123456789.e+-".toList

theorem mem_digits {c : Char} (h : isAsciiDigit c = true) : c ∈ "0123456789".toList := by
  have hall : ∀ n < 0x3A, 0x30 ≤ n → Char.ofNat n ∈ "0123456789".toList := by decide
  rw [isAsciiDigit, Bool.and_eq_true, decide_eq_true_iff, decide_eq_true_iff] at h
  have hlow : 0x30 ≤ c.toNat := h.1
  have hhigh : c.toNat ≤ 0x39 := h.2
  rw [← Char.ofNat_toNat c]
  exact hall c.toNat (by omega) hlow

theorem digit_ne_sign {d : Char} (h : isAsciiDigit d = true) : d ≠ '+' ∧ d ≠ '-' := by
  have hsigns : ∀ d ∈ "0123456789".toList, d ≠ '+' ∧ d ≠ '-' :=
    List.all_iff_forall_prop.mp (by decide)
  exact hsigns d (mem_digits h)

theorem mem_numeralChars_of_digit {c : Char} (h : isAsciiDigit c = true) : c ∈ numeralChars := by
  have hsub : "0123456789".toList ⊆ numeralChars := by decide
  exact hsub (mem_digits h)

/-- What is plain about the characters of numbers. -/
theorem numeralChars_plain : ∀ c ∈ numeralChars, isYamlWritable c = true ∧ isYamlBlank c = false ∧
    isBlank c = false ∧ c ≠ ':' ∧ c ≠ '#' ∧ c ≠ '_' ∧ c ≠ 'Σ' ∧ lowerChar c = [c] :=
  List.all_iff_forall_prop.mp (by decide)

theorem asciiDigits_numeral {cs : List Char} (h : ∀ c ∈ cs, c ∈ numeralChars) :
    asciiDigits cs = cs := by
  have hone : ∀ c ∈ numeralChars, asciiDigits [c] = [c] :=
    List.all_iff_forall_prop.mp (by decide)
  induction cs with
  | nil => rfl
  | cons c rest ih =>
      rw [List.forall_mem_cons] at h
      change asciiDigits [c] ++ asciiDigits rest = _
      rw [hone c h.1, ih h.2]
      rfl

theorem trim_numeral {cs : List Char} (h : ∀ c ∈ cs, c ∈ numeralChars) : trim cs = cs := by
  have hkeep : ∀ ds : List Char, (∀ c ∈ ds, c ∈ numeralChars) → ds.dropWhile isBlank = ds := by
    intro ds hds
    cases ds with
    | nil => rfl
    | cons d rest =>
        have hblank : ¬ isBlank d = true := by
          rw [(numeralChars_plain d (hds d List.mem_cons_self)).2.2.1]
          exact Bool.false_ne_true
        rw [List.dropWhile_cons_of_neg hblank]
  unfold trim trimEnd trimStart
  rw [hkeep cs h, hkeep cs.reverse fun c hc => h c (List.mem_reverse.mp hc), List.reverse_reverse]

theorem withoutLows_numeral {cs : List Char} (h : ∀ c ∈ cs, c ∈ numeralChars) :
    withoutLows cs = cs := by
  unfold withoutLows
  rw [List.filter_eq_self]
  intro c hc
  rw [bne_iff_ne]
  exact (numeralChars_plain c (h c hc)).2.2.2.2.2.1

theorem lower_numeral {cs : List Char} (h : ∀ c ∈ cs, c ∈ numeralChars) : lower cs = cs := by
  have hfrom : ∀ inWord, lowerFrom inWord cs = cs := by
    induction cs with
    | nil => exact fun inWord => rfl
    | cons c rest ih =>
        intro inWord
        rw [List.forall_mem_cons] at h
        obtain ⟨-, -, -, -, -, -, hsigma, hlower⟩ := numeralChars_plain c h.1
        rw [lowerFrom, if_neg fun hc => hsigma hc.1, hlower, ih h.2]
        rfl
  exact hfrom false

theorem dropUnderscores_numeral {cs : List Char} (h : ∀ c ∈ cs, c ∈ numeralChars) :
    dropUnderscores? cs = some cs := by
  have hlow : ∀ c ∈ cs, c ≠ '_' := fun c hc => (numeralChars_plain c (h c hc)).2.2.2.2.2.1
  clear h
  fun_induction dropUnderscores? cs with
  | case1 => rfl
  | case2 => exact absurd rfl (hlow '_' List.mem_cons_self)
  | case3 c d rest => exact absurd rfl (hlow '_' (List.mem_cons_of_mem _ List.mem_cons_self))
  | case4 => exact absurd rfl (hlow '_' (List.mem_cons_of_mem _ List.mem_cons_self))
  | case5 => exact absurd rfl (hlow '_' (List.mem_cons_of_mem _ List.mem_cons_self))
  | case6 c rest _ _ _ ih =>
      rw [List.forall_mem_cons] at hlow
      rw [ih hlow.2]
      rfl

/-- A text that begins like a number and has no characters but those of numbers. -/
structure YamlNumeral (cs : List Char) : Prop where
  chars : ∀ c ∈ cs, c ∈ numeralChars
  begins : ∃ negative d body, cs = signOf negative ++ d :: body ∧ isAsciiDigit d = true

namespace YamlNumeral

variable {cs : List Char}

theorem ne_nil (h : YamlNumeral cs) : cs ≠ [] := by
  obtain ⟨negative, d, body, rfl, -⟩ := h.begins
  exact List.append_ne_nil_of_right_ne_nil _ (List.cons_ne_nil d body)

/-- The first character is a digit or a sign. -/
theorem head (h : YamlNumeral cs) : ∃ c rest, cs = c :: rest ∧
    (isAsciiDigit c = true ∨ c = '-' ∧ ∃ d body, rest = d :: body ∧ isAsciiDigit d = true) := by
  obtain ⟨negative, d, body, rfl, hd⟩ := h.begins
  cases negative with
  | true => exact ⟨'-', _, rfl, Or.inr ⟨rfl, d, body, rfl, hd⟩⟩
  | false => exact ⟨d, body, rfl, Or.inl hd⟩

theorem hasYamlSeparator_eq_false (before : Char) {cs : List Char}
    (h : ∀ c ∈ cs, c ∈ numeralChars) : hasYamlSeparator before cs = false := by
  induction cs generalizing before with
  | nil => rfl
  | cons c rest ih =>
      rw [List.forall_mem_cons] at h
      obtain ⟨-, -, -, hcolon, hhash, -⟩ := numeralChars_plain c h.1
      rw [hasYamlSeparator, beq_false_of_ne hcolon, beq_false_of_ne hhash, ih c h.2]
      rfl

theorem looksLikeYaml_eq_false (h : YamlNumeral cs) : looksLikeYaml cs = false := by
  obtain ⟨c, rest, rfl, hc⟩ := h.head
  have hmarks : ∀ d ∈ "0123456789".toList, d ∉ yamlIndicators ∧ d ≠ '?' ∧ d ≠ ':' ∧
      d ≠ '-' ∧ d ≠ '.' ∧ isYamlBlank d = false :=
    List.all_iff_forall_prop.mp (by decide)
  have hsep := hasYamlSeparator_eq_false c fun x hx =>
    h.chars x (List.mem_cons_of_mem c hx)
  unfold looksLikeYaml
  rcases hc with hc | ⟨rfl, d, body, rfl, hd⟩
  · obtain ⟨hindicator, hquestion, hcolon, hdash, hdot, -⟩ := hmarks c (mem_digits hc)
    simp [hsep, hindicator, hquestion, hcolon, hdash, List.isPrefixOf, Ne.symm hdash,
      Ne.symm hdot]
  · obtain ⟨-, -, -, hdash, -, hblank⟩ := hmarks d (mem_digits hd)
    simp [hsep, atYamlBlank, hblank, List.isPrefixOf, Ne.symm hdash]
    decide

/-- Numbers need no quotes. -/
theorem fitsPlain (h : YamlNumeral cs) (tag : YamlTag) :
    YamlScalar.fitsPlain ⟨tag, cs⟩ = true := by
  have hplain := fun c hc => numeralChars_plain c (h.chars c hc)
  have hspace : ∀ c ∈ cs, isSpace c = false := by
    intro c hc
    obtain ⟨-, hblank, -⟩ := hplain c hc
    simp only [isYamlBlank, Bool.or_eq_false_iff] at hblank
    exact hblank.1.1.1
  have hbreak : cs.any isYamlBreak = false := by
    rw [List.any_eq_false]
    intro c hc
    obtain ⟨-, hblank, -⟩ := hplain c hc
    simp only [isYamlBlank, isYamlLineEnd, Bool.or_eq_false_iff] at hblank
    rw [hblank.2.2]
    exact Bool.false_ne_true
  -- No numeral has a blank or a break in it, and none looks like YAML.
  have houter : hasOuterSpace cs = false := by
    have hnone : ∀ o : Option Char, (∀ c ∈ o, isSpace c = false) → o.any isSpace = false := by
      intro o ho
      cases o with
      | none => rfl
      | some c => exact ho c rfl
    unfold hasOuterSpace
    rw [hnone _ fun c hc => hspace c (List.mem_of_mem_head? hc),
      hnone _ fun c hc => hspace c (List.mem_of_mem_getLast? hc)]
    rfl
  unfold YamlScalar.fitsPlain YamlScalar.isMultiline
  rw [hbreak, houter, h.looksLikeYaml_eq_false, List.all_eq_true.mpr fun c hc => (hplain c hc).1]
  rfl

theorem withoutLastBreak_eq (h : YamlNumeral cs) : withoutLastBreak cs = cs := by
  have hnewline : '\n' ∉ numeralChars := by decide
  unfold withoutLastBreak
  rw [if_neg]
  intro hlast
  exact hnewline (h.chars _ (List.mem_of_mem_getLast? hlast))

/-- No number is a word of truth. -/
theorem not_truth (h : YamlNumeral cs) : yamlTruthWords.any (·.toList == cs) = false := by
  obtain ⟨c, rest, rfl, hc⟩ := h.head
  have hwords : ∀ w ∈ yamlTruthWords,
      w.toList.head?.all (fun c => !isAsciiDigit c && c != '-') = true := by
    decide
  rw [List.any_eq_false]
  intro w hw heq
  have hletter := hwords w hw
  rw [beq_iff_eq.mp heq, List.head?_cons, Option.all_some, Bool.and_eq_true, Bool.not_eq_true',
    bne_iff_ne] at hletter
  obtain ⟨hdigit, hdash⟩ := hletter
  rcases hc with hc | ⟨rfl, -⟩
  · exact Bool.false_ne_true (hdigit.symm.trans hc)
  · exact hdash rfl

/-- The tag of a number is that of its kind. -/
theorem yamlPlainTag_eq (h : YamlNumeral cs) :
    (isYamlFloat cs = true → yamlPlainTag cs = .float) ∧
      (isYamlFloat cs = false → isYamlInt cs = true → yamlPlainTag cs = .int) := by
  have hempty : cs.isEmpty = false := by
    rw [List.isEmpty_eq_false_iff]
    exact h.ne_nil
  unfold yamlPlainTag
  simp only [h.withoutLastBreak_eq, hempty, h.not_truth, Bool.false_eq_true, if_false]
  exact ⟨fun hfloat => if_pos hfloat, fun hfloat hint => by rw [hfloat, hint]; rfl⟩

end YamlNumeral

theorem afterSign_signOf (negative : Bool) {d : Char} (body : List Char)
    (hd : isAsciiDigit d = true) : afterSign (signOf negative ++ d :: body) = d :: body := by
  obtain ⟨hplus, hminus⟩ := digit_ne_sign hd
  cases negative with
  | true => rfl
  | false =>
      change afterSign (d :: body) = d :: body
      unfold afterSign
      split
      next heq => exact absurd (List.cons.inj heq).1 hplus
      next heq => exact absurd (List.cons.inj heq).1 hminus
      next => rfl

/-- The digits of an integer. -/
structure YamlDigits (ds : List Char) : Prop where
  digits : ∀ c ∈ ds, isAsciiDigit c = true
  begins : ∃ d rest, ds = d :: rest ∧ (d = '0' → rest = [])

theorem yamlDigits_toString (n : Nat) : YamlDigits (toString n).toList where
  digits := fun c hc => isAsciiDigit_of_mem_toString hc
  begins := by
    by_cases hn : n = 0
    · exact ⟨'0', [], by rw [hn]; rfl, fun _ => rfl⟩
    · obtain ⟨d, rest, hds, hd⟩ := toString_eq_cons (Nat.pos_of_ne_zero hn)
      exact ⟨d, rest, hds, fun h => absurd h hd⟩

theorem YamlDigits.numeral {ds : List Char} (h : YamlDigits ds) (negative : Bool) :
    YamlNumeral (signOf negative ++ ds) where
  chars := by
    intro c hc
    rcases List.mem_append.mp hc with hc | hc
    · cases negative with
      | true => exact List.mem_singleton.mp hc ▸ (by decide)
      | false => exact absurd hc List.not_mem_nil
    · exact mem_numeralChars_of_digit (h.digits c hc)
  begins := by
    obtain ⟨d, rest, rfl, -⟩ := h.begins
    exact ⟨negative, d, rest, rfl, h.digits d List.mem_cons_self⟩

/-- Digits speak for the tag of integers. -/
theorem yamlPlainTag_int {ds : List Char} (h : YamlDigits ds) (negative : Bool) :
    yamlPlainTag (signOf negative ++ ds) = .int := by
  obtain ⟨d, rest, rfl, hzero⟩ := h.begins
  have hd := h.digits d List.mem_cons_self
  have hafter := afterSign_signOf negative rest hd
  refine (h.numeral negative).yamlPlainTag_eq.2 ?_ ?_
  · -- There is no point.
    have hpoint : (d :: rest).dropWhile (· != '.') = [] := by
      rw [List.dropWhile_eq_nil_iff]
      intro c hc
      rw [bne_iff_ne]
      rintro rfl
      exact absurd (h.digits _ hc) (by decide)
    unfold isYamlFloat
    rw [hafter]
    dsimp only
    rw [hpoint]
  · unfold isYamlInt
    rw [hafter]
    rw [Bool.or_eq_true]
    left
    by_cases hd0 : d = '0'
    · rw [hzero hd0, hd0]
      rfl
    · split
      next heq => exact absurd (List.cons.inj heq).1 hd0
      next heq => exact absurd (List.cons.inj heq).1 hd0
      next heq => exact absurd (List.cons.inj heq).1 hd0
      next =>
        rw [isPositive, hd, bne_iff_ne.mpr hd0]
        rw [Bool.true_and, Bool.true_and, List.all_eq_true]
        intro c hc
        rw [isDigitOrLow, h.digits c (List.mem_cons_of_mem _ hc)]
        rfl

/-- Digits are read as the number that they spell. -/
theorem readDigits_ten {ds : List Char} (hne : ds ≠ []) (h : ∀ c ∈ ds, isAsciiDigit c = true) :
    readDigits? 10 ds = some (digitsValue ds) := by
  -- The two folds agree digit by digit, whatever has been read before.
  have hfold : ∀ n, ds.foldlM (fun n c => do
      let v ← hexValue? c
      if v < 10 then some (n * 10 + v) else none) n =
        some (ds.foldl (fun n c => n * 10 + (c.toNat - 0x30)) n) := by
    clear hne
    induction ds with
    | nil => exact fun n => rfl
    | cons c rest ih =>
        intro n
        rw [List.forall_mem_cons] at h
        have hc := h.1
        rw [isAsciiDigit, Bool.and_eq_true, decide_eq_true_iff, decide_eq_true_iff] at hc
        have hhigh : c.toNat ≤ 0x39 := hc.2
        have hvalue : hexValue? c = some (c.toNat - 0x30) := if_pos hc
        rw [List.foldlM_cons, hvalue, List.foldl_cons, ← ih h.2]
        change (if c.toNat - 0x30 < 10 then _ else _) >>= _ = _
        rw [if_pos (by omega)]
        rfl
  unfold readDigits?
  rw [if_neg (by rwa [List.isEmpty_iff])]
  exact hfold 0

theorem yamlMagnitude_digits {ds : List Char} (h : YamlDigits ds)
    (hlength : ds.length ≤ maxDigits) : yamlMagnitude ds = .ok (digitsValue ds) := by
  obtain ⟨d, rest, rfl, hzero⟩ := h.begins
  by_cases hd0 : d = '0'
  · rw [hzero hd0, hd0]
    rfl
  have hchars : ∀ c ∈ d :: rest, c ∈ numeralChars := fun c hc =>
    mem_numeralChars_of_digit (h.digits c hc)
  have hcolon : ¬ (d :: rest).contains ':' = true := by
    rw [List.contains_iff_mem]
    exact fun hmem => (numeralChars_plain _ (hchars _ hmem)).2.2.2.1 rfl
  -- The first digit is no zero, so that no other base is meant.
  have hread : readInteger? 10 (d :: rest) = some ((digitsValue (d :: rest) : Nat) : Int) := by
    obtain ⟨hplus, hminus⟩ := digit_ne_sign (h.digits d List.mem_cons_self)
    have hafter : afterBaseMark 10 (d :: rest) = d :: rest := by
      unfold afterBaseMark
      split
      next heq => exact absurd (List.cons.inj heq).1 hd0
      next => rfl
    unfold readInteger?
    rw [trim_numeral hchars, asciiDigits_numeral hchars]
    have hshort : ¬ (decide ((10 : Nat) = 10) && decide (maxDigits < (d :: rest).length)) =
        true := by
      rw [Bool.and_eq_true, decide_eq_true_iff, decide_eq_true_iff]
      omega
    dsimp only
    split
    next heq => exact absurd (List.cons.inj heq).1 hminus
    next heq => exact absurd (List.cons.inj heq).1 hplus
    next =>
      dsimp only
      rw [hafter, if_neg hshort, readDigits_ten (List.cons_ne_nil _ _) h.digits]
      rfl
  unfold yamlMagnitude
  dsimp only
  split
  next heq => cases heq
  next heq => exact absurd (List.cons.inj heq).1 hd0
  next heq => exact absurd (List.cons.inj heq).1 hd0
  next heq => exact absurd (List.cons.inj heq).1 hd0
  next heq => exact absurd (List.cons.inj heq).1 hd0
  next =>
    rw [if_neg hcolon, hread]

theorem yamlInt_minus {cs : List Char} (h : withoutLows ('-' :: cs) = '-' :: cs) :
    yamlInt ('-' :: cs) = (yamlMagnitude cs).map fun n => -n := by
  unfold yamlInt
  rw [h]
  rfl

theorem yamlInt_unsigned {d : Char} {body : List Char} (hd : isAsciiDigit d = true)
    (h : withoutLows (d :: body) = d :: body) :
    yamlInt (d :: body) = yamlMagnitude (d :: body) := by
  obtain ⟨hplus, hminus⟩ := digit_ne_sign hd
  unfold yamlInt
  rw [h]
  split
  next heq => cases heq
  next heq => exact absurd (List.cons.inj heq).1 hminus
  next heq => exact absurd (List.cons.inj heq).1 hplus
  next => rfl

/-- An integer is read back. -/
theorem yamlInt_toString {n : Int} (h : n.natAbs < 10 ^ maxDigits) :
    yamlInt (toString n).toList = .ok n := by
  have hdigits := yamlDigits_toString n.natAbs
  have hlength : (toString n.natAbs).toList.length ≤ maxDigits := by
    rw [length_toString, digitCount_le_iff (by decide)]
    exact h
  have hread := yamlMagnitude_digits hdigits hlength
  rw [digitsValue_toString] at hread
  have hlows := fun negative => withoutLows_numeral (hdigits.numeral negative).chars
  rw [toList_toString_int]
  -- A sign is written for negative numbers only.
  by_cases hneg : n < 0
  · rw [decide_eq_true hneg]
    have hminus : yamlInt ('-' :: (toString n.natAbs).toList) = _ := yamlInt_minus (hlows true)
    refine hminus.trans ?_
    rw [hread]
    change Except.ok (-(n.natAbs : Int)) = Except.ok n
    exact congrArg Except.ok (by omega)
  · obtain ⟨d, rest, hds, -⟩ := hdigits.begins
    have hd := hdigits.digits d (hds ▸ List.mem_cons_self)
    have hlows := hlows false
    rw [decide_eq_false hneg]
    change yamlInt (toString n.natAbs).toList = _
    change withoutLows (toString n.natAbs).toList = (toString n.natAbs).toList at hlows
    rw [hds] at hread hlows ⊢
    rw [yamlInt_unsigned hd hlows, hread]
    exact congrArg Except.ok (by omega)

theorem NumeralParts.Proper.text_begins {p : NumeralParts} (h : p.Proper) :
    ∃ d body, p.text = d :: body ∧ isAsciiDigit d = true := by
  obtain ⟨d, ds, hwhole, -⟩ := h.begins
  refine ⟨d, ds ++ (pointed p.fraction ++ p.ending), ?_,
    h.whole_digits d (hwhole ▸ List.mem_cons_self)⟩
  unfold text
  rw [hwhole, List.cons_append]

/-- The text of a numeral with a point. -/
theorem NumeralParts.Proper.numeral {p : NumeralParts} (h : p.Proper) (negative : Bool) :
    YamlNumeral (signOf negative ++ p.text) where
  chars := by
    -- All parts are made of digits, but for the sign, the point and the exponent.
    have hpoint : '.' ∈ numeralChars ∧ 'e' ∈ numeralChars ∧ '+' ∈ numeralChars ∧
        '-' ∈ numeralChars := by decide
    have hfraction : ∀ c ∈ pointed p.fraction, c ∈ numeralChars := by
      unfold pointed
      split
      · exact fun c hc => absurd hc List.not_mem_nil
      · rw [List.forall_mem_cons]
        exact ⟨hpoint.1, fun c hc => mem_numeralChars_of_digit (h.fraction_digits c hc)⟩
    have hending : ∀ c ∈ p.ending, c ∈ numeralChars := by
      unfold ending
      split
      · exact fun c hc => absurd hc List.not_mem_nil
      next e heq =>
        obtain ⟨sign, ds, htext, hsign, -, hds, -⟩ := exponentText_reads e
        rw [htext, List.forall_mem_cons, List.forall_mem_cons]
        refine ⟨hpoint.2.1, ?_, fun c hc => mem_numeralChars_of_digit (hds c hc)⟩
        rcases hsign with rfl | rfl
        · exact hpoint.2.2.1
        · exact hpoint.2.2.2
    unfold text
    rw [List.forall_mem_append, List.forall_mem_append, List.forall_mem_append]
    refine ⟨?_, fun c hc => mem_numeralChars_of_digit (h.whole_digits c hc), hfraction, hending⟩
    cases negative with
    | true => exact List.forall_mem_singleton.mpr hpoint.2.2.2
    | false => exact fun c hc => absurd hc List.not_mem_nil
  begins := by
    obtain ⟨d, body, htext, hd⟩ := h.text_begins
    exact ⟨negative, d, body, by rw [htext], hd⟩

section

variable {p : NumeralParts}

theorem NumeralParts.text_eq (hpoint : p.fraction ≠ []) :
    p.text = p.whole ++ '.' :: (p.fraction ++ p.ending) := by
  unfold text pointed
  rw [if_neg (by rwa [List.isEmpty_iff]), List.cons_append]

/-- A numeral with a point speaks for the tag of floating-point numbers. -/
theorem yamlPlainTag_float (h : p.Proper) (hpoint : p.fraction ≠ []) (negative : Bool) :
    yamlPlainTag (signOf negative ++ p.text) = .float := by
  refine (h.numeral negative).yamlPlainTag_eq.1 ?_
  obtain ⟨d, ds, hwhole, -⟩ := h.begins
  have hdigits := h.whole_digits
  have htext := NumeralParts.text_eq hpoint
  have hafter : afterSign (signOf negative ++ p.text) = p.text := by
    obtain ⟨d, body, hbegins, hd⟩ := h.text_begins
    rw [hbegins]
    exact afterSign_signOf negative body hd
  have hkeep : ∀ c ∈ p.whole, (c != '.') = true := by
    intro c hc
    rw [bne_iff_ne]
    rintro rfl
    exact absurd (hdigits _ hc) (by decide)
  have hstop : ¬ (('.' : Char) != '.') = true := by decide
  have hnumeral : isNumeral p.whole = true := by
    rw [hwhole] at hdigits ⊢
    rw [List.forall_mem_cons] at hdigits
    rw [isNumeral, hdigits.1, Bool.true_and, List.all_eq_true]
    intro c hc
    rw [isDigitOrLow, hdigits.2 c hc]
    rfl
  -- Behind the digits of the fraction comes nothing, or an exponent with its sign.
  have hexponent : isYamlExponent ((p.fraction ++ p.ending).dropWhile isDigitOrLow) = true := by
    rw [List.dropWhile_append_of_pos fun c hc => by
      rw [isDigitOrLow, h.fraction_digits c hc]
      rfl]
    unfold NumeralParts.ending
    split
    · rfl
    next e heq =>
      obtain ⟨sign, ds, htext, hsign, hne, hds, -⟩ := exponentText_reads e
      have hall : someAll isAsciiDigit ds = true := by
        rw [someAll, Bool.and_eq_true, Bool.not_eq_true', List.isEmpty_eq_false_iff,
          List.all_eq_true]
        exact ⟨hne, hds⟩
      rw [htext, List.dropWhile_cons_of_neg (by decide), isYamlExponent, hall]
      rcases hsign with rfl | rfl <;> rfl
  unfold isYamlFloat
  rw [hafter, htext]
  dsimp only
  rw [List.takeWhile_append_of_pos hkeep, List.dropWhile_append_of_pos hkeep,
    List.takeWhile_cons_of_neg (p := (· != '.')) hstop,
    List.dropWhile_cons_of_neg (p := (· != '.')) hstop, List.append_nil]
  split
  next fraction heq =>
    obtain ⟨-, rfl⟩ := List.cons.inj heq
    rw [hnumeral, hexponent]
    rfl
  next hne => exact absurd rfl (hne _)

/-- A numeral is read as its decimal. -/
theorem readUnsigned_text (h : p.Proper) (hpoint : p.fraction ≠ []) :
    readUnsigned? p.text = some p.decimal := by
  have htext := NumeralParts.text_eq hpoint
  have hpointStops : ∀ c ∈ ('.' :: (p.fraction ++ p.ending)).head?, isAsciiDigit c = false := by
    intro c hc
    rw [← Option.some.inj hc]
    rfl
  have hendingStops : ∀ c ∈ p.ending.head?, isAsciiDigit c = false := by
    unfold NumeralParts.ending
    split
    · exact nofun
    · intro c hc
      rw [← Option.some.inj hc]
      rfl
  have hwhole := takeWhile_digits h.whole_digits hpointStops
  have hfraction := takeWhile_digits h.fraction_digits hendingStops
  have hempty : ¬ (p.whole.isEmpty && p.fraction.isEmpty) = true := by
    rw [Bool.and_eq_true, List.isEmpty_iff, List.isEmpty_iff]
    exact fun hboth => hpoint hboth.2
  unfold readUnsigned?
  rw [htext, hwhole.1, hwhole.2]
  simp only []
  rw [hfraction.1, hfraction.2, if_neg hempty]
  unfold NumeralParts.ending NumeralParts.decimal
  -- The rest is the exponent, if there is one.
  cases p.exponent with
  | none => rfl
  | some e =>
      obtain ⟨sign, ds, htext, -, -, -, hread⟩ := exponentText_reads e
      dsimp only
      rw [if_pos (Or.inl rfl), htext, hread]
      rfl

/-- Digits that stand at the beginning are read without sign. -/
theorem readFloat_of_begins {cs ds body : List Char} {d : Char} (hds : asciiDigits (trim cs) = ds)
    (hchars : ∀ c ∈ ds, c ∈ numeralChars) (hbegins : ds = d :: body) (hd : isAsciiDigit d = true) :
    readFloat? cs = (readUnsigned? ds).map (Decimal.toBinary false) := by
  obtain ⟨hplus, hminus⟩ := digit_ne_sign hd
  -- A word begins with a letter, the numeral with a digit.
  have hletters : ∀ d ∈ "0123456789".toList, ∀ w ∈ ["inf", "infinity", "nan"],
      w.toList.head? ≠ some d.toLower :=
    List.all_iff_forall_prop.mp (by decide)
  have hword : ∀ w ∈ ["inf", "infinity", "nan"],
      String.ofList ((d :: body).map Char.toLower) ≠ w := by
    rintro w hw rfl
    refine hletters d (mem_digits hd) _ hw ?_
    rw [String.toList_ofList]
    rfl
  unfold readFloat?
  rw [hds, dropUnderscores_numeral hchars, hbegins]
  change (some (d :: body)).bind _ = _
  rw [Option.bind_some]
  split
  next negative rest heq =>
    split at heq
    next h => exact absurd (List.cons.inj h).1 hminus
    next h => exact absurd (List.cons.inj h).1 hplus
    next =>
      obtain ⟨rfl, rfl⟩ := Prod.mk.inj heq
      rw [if_neg (not_or.mpr ⟨hword _ (by simp), hword _ (by simp)⟩), if_neg (hword _ (by simp))]

theorem readFloat_text (h : p.Proper) (hpoint : p.fraction ≠ []) :
    readFloat? p.text = some (p.decimal.toBinary false) := by
  have hchars : ∀ c ∈ p.text, c ∈ numeralChars := (h.numeral false).chars
  obtain ⟨d, body, htext, hd⟩ := h.text_begins
  have hdigits : asciiDigits (trim p.text) = p.text := by
    rw [trim_numeral hchars, asciiDigits_numeral hchars]
  rw [readFloat_of_begins hdigits hchars htext hd, readUnsigned_text h hpoint]
  rfl

theorem yamlFloatMagnitude_text (h : p.Proper) (hpoint : p.fraction ≠ []) :
    yamlFloatMagnitude p.text = .ok (p.decimal.toBinary false) := by
  have hnumeral := h.numeral false
  have hcolon : ¬ p.text.contains ':' = true := by
    rw [List.contains_iff_mem]
    exact fun hmem => (numeralChars_plain _ (hnumeral.chars _ hmem)).2.2.2.1 rfl
  have hword : ∀ w ∈ [".inf", ".nan"], p.text ≠ w.toList := by
    have hletter : ∀ w ∈ [".inf", ".nan"], 'n' ∈ w.toList := by decide
    intro w hw heq
    have hn : 'n' ∈ p.text := heq ▸ hletter w hw
    exact absurd (hnumeral.chars 'n' hn) (by decide)
  unfold yamlFloatMagnitude
  rw [if_neg (hword _ (by simp)), if_neg (hword _ (by simp)), if_neg hcolon,
    readFloat_text h hpoint]

end

namespace Binary64

theorem neg_ofCode {code : Nat} (h : code ≤ infinityCode) :
    (ofCode false code).neg = ofCode true code := by
  have hlt : code < 2 ^ 63 := Nat.lt_of_le_of_lt h (by decide)
  have hbits : (ofCode false code).bits.toNat = code := by
    change (UInt64.ofNat code).toNat = code
    rw [UInt64.toNat_ofNat']
    omega
  unfold neg negative
  rw [show (ofCode false code).code = code by unfold Binary64.code; rw [hbits]; omega, hbits,
    decide_eq_false (by omega)]
  rfl

end Binary64

/-- The sign of a decimal makes no other difference. -/
theorem Decimal.toBinary_neg (d : Decimal) : (d.toBinary false).neg = d.toBinary true := by
  have hround : ∀ a b, (Binary64.ofRatio false a b).neg = Binary64.ofRatio true a b := by
    intro a b
    unfold Binary64.ofRatio
    refine Binary64.neg_ofCode ?_
    split
    · exact Nat.zero_le _
    · exact Nat.min_le_right _ _
  unfold Decimal.toBinary
  dsimp only
  split
  · exact Binary64.neg_ofCode (Nat.zero_le _)
  · split
    · exact Binary64.neg_ofCode (Nat.le_refl _)
    · split
      · exact Binary64.neg_ofCode (Nat.zero_le _)
      · split <;> exact hround _ _

theorem yamlFloat_minus {cs : List Char} (h : lower (withoutLows ('-' :: cs)) = '-' :: cs) :
    yamlFloat ('-' :: cs) = (yamlFloatMagnitude cs).map Binary64.neg := by
  unfold yamlFloat
  rw [h]
  rfl

theorem yamlFloat_unsigned {d : Char} {body : List Char} (hd : isAsciiDigit d = true)
    (h : lower (withoutLows (d :: body)) = d :: body) :
    yamlFloat (d :: body) = yamlFloatMagnitude (d :: body) := by
  obtain ⟨hplus, hminus⟩ := digit_ne_sign hd
  unfold yamlFloat
  rw [h]
  split
  next heq => cases heq
  next heq => exact absurd (List.cons.inj heq).1 hminus
  next heq => exact absurd (List.cons.inj heq).1 hplus
  next => rfl

/-- A finite number is read back. -/
theorem yamlFloat_write {x : Binary64} (h : x.isFinite = true) :
    yamlFloat (Layout.yaml.write x).toList = .ok x := by
  -- The shortest digits are laid out as a numeral of the same worth, and they read back.
  obtain ⟨p, hproper, htext, hworth, hpoint⟩ :=
    writeDecimal_parts Layout.yaml (by decide) x.shortest
  have hread := yamlFloatMagnitude_text hproper (hpoint rfl)
  have hback := Binary64.toBinary_shortest h
  have hsame : ∀ negative, lower (withoutLows (signOf negative ++ p.text)) =
      signOf negative ++ p.text := by
    intro negative
    have hchars := (hproper.numeral negative).chars
    rw [withoutLows_numeral hchars, lower_numeral hchars]
  rw [write_of_isFinite Layout.yaml h, htext]
  refine Eq.trans ?_ (congrArg Except.ok hback)
  generalize x.negative = negative
  cases negative with
  | true =>
      have hminus : yamlFloat ('-' :: p.text) = _ := yamlFloat_minus (hsame true)
      refine hminus.trans ?_
      rw [hread, ← hworth, ← Decimal.toBinary_neg]
      rfl
  | false =>
      obtain ⟨d, body, hbegins, hd⟩ := hproper.text_begins
      have hsame := hsame false
      change yamlFloat p.text = _
      change lower (withoutLows p.text) = p.text at hsame
      rw [hbegins] at hread hsame ⊢
      rw [yamlFloat_unsigned hd hsame, hread, ← hworth]

end Docket
