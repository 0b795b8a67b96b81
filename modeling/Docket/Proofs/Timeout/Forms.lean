import Docket.Proofs.Text.Lower
import Docket.Proofs.Yaml.Numbers
import Docket.Timeout
import Mathlib.Data.Bool.AllAny
import Mathlib.Data.List.Forall2

/-!
# The form of timeouts

What a text looks like that is read as a timeout: a numeral and a unit, with blanks
around them. The reader looks for these parts one after another, and each part ends
where the next one begins, because no character can belong to two of them.

The letters of a unit are compared one by one, without regard to case. Making them
small afterwards gives the name of the unit, unless there is a letter among them that
is taken for another one without becoming that letter when it is made small.

## Main definitions

* `TimeText`: The parts of a text.
* `TimeText.Proper`: Parts that make a timeout.
* `isStray`: Letters that do not become the letters that they are taken for.

## Theorems

* `trim_split`: What trimming takes away.
* `readTimeValue?_eq_some_iff`: The texts that are read are those of the form.
* `ofName?_of_isSpelled`: The unit is found, unless it has a stray letter.
-/

namespace Docket

/-! ## Characters -/

/-- The characters that the names of units may be spelled with. -/
def unitChars : List Char := "acdhimnorsACDHIMNORSſıİ".toList

/-- Letters that are taken for an s or an i and do not become one. -/
def isStray (c : Char) : Bool := c == 'ſ' || c == 'ı' || c == 'İ'

/-- What becomes a letter of a unit when it is made small is that letter, or its
    capital. -/
theorem mem_unitChars_of_lowerChar {letter c : Char} (hletter : letter ∈ "acdhimnors".toList)
    (h : lowerChar c = [letter]) : c ∈ unitChars := by
  have hascii : ∀ letter ∈ "acdhimnors".toList, ∀ n < 0x80,
      (Char.ofNat n).toLower = letter → Char.ofNat n ∈ unitChars :=
    List.all_iff_forall_prop.mp (by decide)
  have hrange : ∀ letter ∈ "acdhimnors".toList, 0x61 ≤ letter.toNat ∧ letter.toNat ≤ 0x7A ∧
      letter.toNat ≠ 0x6B :=
    List.all_iff_forall_prop.mp (by decide)
  have hrange := hrange letter hletter
  -- Beyond ASCII the small form is the character itself, two characters, or one that no unit
  -- has: the sign of the kelvin becomes a letter that is in none.
  rcases lowerChar_cases c with ⟨hlt, hc⟩ | ⟨hge, hc | hc | ⟨d, hc, hd⟩⟩
  · rw [hc] at h
    rw [← Char.ofNat_toNat c] at h ⊢
    exact hascii letter hletter c.toNat hlt (List.singleton_inj.mp h)
  · rw [hc] at h
    obtain rfl := List.singleton_inj.mp h
    omega
  · rw [hc] at h
    exact absurd (List.cons.inj h).2 (List.cons_ne_nil _ _)
  · rw [hc] at h
    obtain rfl := List.singleton_inj.mp h
    omega

theorem name_subset (u : TimeUnit) : ∀ letter ∈ u.name.toList, letter ∈ "acdhimnors".toList :=
  List.all_iff_forall_prop.mp (by cases u <;> decide)

theorem mem_unitChars {letter c : Char} (hletter : letter ∈ "acdhimnors".toList)
    (h : TimeUnit.standsFor letter c = true) : c ∈ unitChars := by
  unfold TimeUnit.standsFor at h
  rw [Bool.or_eq_true, Bool.or_eq_true, beq_iff_eq] at h
  rcases h with (h | h) | h
  · exact mem_unitChars_of_lowerChar hletter h
  · simp only [Bool.and_eq_true, beq_iff_eq] at h
    rw [h.2]
    decide
  · simp only [Bool.and_eq_true, Bool.or_eq_true, beq_iff_eq] at h
    rcases h.2 with rfl | rfl <;> decide

/-- No character of a unit is a blank, a digit or a point. -/
theorem unitChars_apart : ∀ c ∈ unitChars, isBlank c = false ∧ isDigit c = false ∧ c ≠ '.' :=
  List.all_iff_forall_prop.mp (by decide)

/-- No digit is a blank or a point. -/
theorem digit_apart {c : Char} (h : isDigit c = true) : isBlank c = false ∧ c ≠ '.' := by
  have hascii : ∀ n < 0x80, isDigit (Char.ofNat n) = true →
      isBlank (Char.ofNat n) = false ∧ Char.ofNat n ≠ '.' := by
    decide
  -- The digits of the other scripts come in tens, of which there are few enough to look at.
  have hscript : ∀ z ∈ digitZeros, ∀ k < 10, isBlank (Char.ofNat (z + k)) = false ∧
      Char.ofNat (z + k) ≠ '.' := by
    decide +kernel
  by_cases hlt : c.toNat < 0x80
  · rw [← Char.ofNat_toNat c] at h ⊢
    exact hascii c.toNat hlt h
  · unfold isDigit digitValue? at h
    rw [if_neg hlt, Option.isSome_map, List.find?_isSome] at h
    obtain ⟨z, hz, hin⟩ := h
    rw [decide_eq_true_iff] at hin
    have hc : c = Char.ofNat (z + (c.toNat - z)) := by
      rw [Nat.add_sub_cancel' hin.1, Char.ofNat_toNat]
    rw [hc]
    exact hscript z hz _ (by omega)

theorem blank_apart {c : Char} (h : isBlank c = true) : isDigit c = false ∧ c ≠ '.' := by
  constructor
  · cases hd : isDigit c with
    | false => rfl
    | true =>
        rw [(digit_apart hd).1] at h
        exact absurd h Bool.false_ne_true
  · rintro rfl
    exact absurd h (by decide)

/-! ## Units -/

/-- The characters of a unit, one for each letter of its name. -/
theorem isSpelled_iff {u : TimeUnit} {cs : List Char} : u.isSpelled cs = true ↔
    List.Forall₂ (fun letter c => TimeUnit.standsFor letter c = true) u.name.toList cs := by
  unfold TimeUnit.isSpelled
  generalize u.name.toList = letters
  simp only [Bool.and_eq_true, beq_iff_eq, List.all_eq_true]
  rw [List.forall₂_iff_zip]
  refine and_congr_right fun _ => ⟨fun h a b hab => h (a, b) hab, fun h p hp => h hp⟩

theorem unitChars_of_isSpelled {u : TimeUnit} {cs : List Char} (h : u.isSpelled cs = true) :
    cs ≠ [] ∧ ∀ c ∈ cs, c ∈ unitChars := by
  rw [isSpelled_iff] at h
  have hne : u.name.toList ≠ [] := by cases u <;> decide
  have hletters := name_subset u
  generalize u.name.toList = letters at *
  constructor
  · rintro rfl
    exact hne (List.forall₂_nil_right_iff.mp h)
  · clear hne
    induction h with
    | nil => exact fun c hc => absurd hc List.not_mem_nil
    | cons hc _ ih =>
        rw [List.forall_mem_cons] at hletters ⊢
        exact ⟨mem_unitChars hletters.1 hc, ih hletters.2⟩

/-- Without a stray letter the small letters are the name. -/
theorem lowerFrom_of_spelled {letters cs : List Char} (inWord : Bool)
    (h : List.Forall₂ (fun letter c => TimeUnit.standsFor letter c = true) letters cs)
    (hletters : ∀ letter ∈ letters, letter ∈ "acdhimnors".toList)
    (hstray : ∀ c ∈ cs, isStray c = false) : lowerFrom inWord cs = letters := by
  induction h generalizing inWord with
  | nil => rfl
  | @cons letter c letters cs hc _ ih =>
      rw [List.forall_mem_cons] at hletters hstray
      -- The one letter that depends on its place in a word is in no unit.
      have hsigma : ∀ c ∈ unitChars, c ≠ 'Σ' := List.all_iff_forall_prop.mp (by decide)
      have hlower : lowerChar c = [letter] := by
        have hplain := hstray.1
        unfold isStray at hplain
        unfold TimeUnit.standsFor at hc
        simp only [Bool.or_eq_false_iff, beq_eq_false_iff_ne] at hplain
        simpa [hplain] using hc
      rw [lowerFrom, if_neg fun h => hsigma c (mem_unitChars hletters.1 hc) h.1, hlower,
        ih _ hletters.2 hstray.2]
      rfl

/-- The small form of a stray letter has a character that is not ASCII. -/
theorem lowerFrom_of_stray {cs : List Char} (inWord : Bool) (h : ∃ c ∈ cs, isStray c = true) :
    ∃ c ∈ lowerFrom inWord cs, 0x80 ≤ c.toNat := by
  have hstray : ∀ c, isStray c = true → c ≠ 'Σ' ∧ ∃ d ∈ lowerChar c, 0x80 ≤ d.toNat := by
    intro c hc
    simp only [isStray, Bool.or_eq_true, beq_iff_eq] at hc
    rcases hc with (rfl | rfl) | rfl
    all_goals exact ⟨by decide, List.any_iff_exists_prop.mp (by decide +kernel)⟩
  induction cs generalizing inWord with
  | nil =>
      obtain ⟨c, hc, -⟩ := h
      exact absurd hc List.not_mem_nil
  | cons c rest ih =>
      rw [lowerFrom]
      obtain ⟨d, hd, hstrayd⟩ := h
      rcases List.mem_cons.mp hd with rfl | hd
      · obtain ⟨hsigma, e, he, hbeyond⟩ := hstray d hstrayd
        rw [if_neg fun h => hsigma h.1]
        exact ⟨e, List.mem_append_left _ he, hbeyond⟩
      · obtain ⟨e, he, hbeyond⟩ := ih _ ⟨d, hd, hstrayd⟩
        exact ⟨e, List.mem_append_right _ he, hbeyond⟩

/-- A unit is found by its small letters, unless it has a stray one. -/
theorem ofName?_of_isSpelled {u : TimeUnit} {cs : List Char} (h : u.isSpelled cs = true) :
    TimeUnit.ofName? (String.ofList (lower cs)) =
      if cs.any isStray = true then none else some u := by
  by_cases hstray : cs.any isStray = true
  · rw [if_pos hstray]
    -- A stray letter is lowered to one beyond ASCII, where no name of a unit has any.
    obtain ⟨c, hc, hbeyond⟩ := lowerFrom_of_stray false (List.any_eq_true.mp hstray)
    have hascii : ∀ u : TimeUnit, ∀ letter ∈ u.name.toList, letter.toNat < 0x80 :=
      fun u => List.all_iff_forall_prop.mp (by cases u <;> decide)
    unfold TimeUnit.ofName?
    rw [List.find?_eq_none]
    intro v _ hname
    have hletter := hascii v c
    rw [beq_iff_eq.mp hname, String.toList_ofList] at hletter
    have := hletter hc
    omega
  · rw [if_neg hstray]
    have hplain : ∀ c ∈ cs, isStray c = false := by simpa using hstray
    have hfound : ∀ u : TimeUnit, TimeUnit.ofName? u.name = some u := by
      intro u
      cases u <;> rfl
    unfold lower
    rw [lowerFrom_of_spelled false (isSpelled_iff.mp h) (name_subset u) hplain,
      String.ofList_toList]
    exact hfound u

/-! ## Texts -/

/-- A text in the parts that make a timeout. -/
structure TimeText where
  before : List Char
  whole : List Char
  fraction : List Char
  between : List Char
  unit : List Char
  after : List Char

namespace TimeText

/-- A numeral: digits, and others behind a point. -/
def numeral (t : TimeText) : List Char := t.whole ++ pointed t.fraction

def text (t : TimeText) : List Char :=
  t.before ++ (t.numeral ++ (t.between ++ (t.unit ++ t.after)))

/-- Digits of any script, a unit in any letter case, and blanks. -/
structure Proper (t : TimeText) : Prop where
  before : ∀ c ∈ t.before, isBlank c = true
  whole : ∀ c ∈ t.whole, isDigit c = true
  whole_ne_nil : t.whole ≠ []
  fraction : ∀ c ∈ t.fraction, isDigit c = true
  between : ∀ c ∈ t.between, isBlank c = true
  unit : ∃ u : TimeUnit, u.isSpelled t.unit = true
  after : ∀ c ∈ t.after, isBlank c = true

end TimeText

/-- A part ends where a character begins that does not belong to it. -/
theorem takeWhile_part {p : Char → Bool} {cs rest : List Char} (hcs : ∀ c ∈ cs, p c = true)
    (hrest : ∀ c ∈ rest.head?, p c = false) :
    (cs ++ rest).takeWhile p = cs ∧ (cs ++ rest).dropWhile p = rest := by
  rw [List.takeWhile_append_of_pos hcs, List.dropWhile_append_of_pos hcs]
  cases rest with
  | nil => exact ⟨List.append_nil cs, rfl⟩
  | cons c rest =>
      have hc : ¬ p c = true := by
        rw [hrest c rfl]
        exact Bool.false_ne_true
      rw [List.takeWhile_cons_of_neg hc, List.dropWhile_cons_of_neg hc]
      exact ⟨List.append_nil cs, rfl⟩

theorem trimStart_split (cs : List Char) :
    ∃ before, cs = before ++ trimStart cs ∧ ∀ c ∈ before, isBlank c = true :=
  ⟨cs.takeWhile isBlank, List.takeWhile_append_dropWhile.symm,
    fun _ hc => List.mem_takeWhile_imp hc⟩

/-- What trimming takes away is blanks. -/
theorem trim_split (cs : List Char) : ∃ before after, cs = before ++ (trim cs ++ after) ∧
    (∀ c ∈ before, isBlank c = true) ∧ ∀ c ∈ after, isBlank c = true := by
  obtain ⟨before, hcs, hbefore⟩ := trimStart_split cs
  obtain ⟨after, hrest, hafter⟩ := trimStart_split (trimStart cs).reverse
  refine ⟨before, after.reverse, ?_, hbefore, fun c hc => hafter c (List.mem_reverse.mp hc)⟩
  have hend : trimStart cs = trim cs ++ after.reverse := by
    rw [← List.reverse_reverse (trimStart cs), hrest, List.reverse_append]
    rfl
  rw [← hend]
  exact hcs

/-- What begins and ends with no blank is what is left. -/
theorem trim_eq {before cs after : List Char} (hbefore : ∀ c ∈ before, isBlank c = true)
    (hafter : ∀ c ∈ after, isBlank c = true) (hcs : ∀ c ∈ cs, isBlank c = false)
    (hne : cs ≠ []) : trim (before ++ (cs ++ after)) = cs := by
  have hhead : ∀ {ds rest : List Char}, (∀ c ∈ ds, isBlank c = false) → ds ≠ [] →
      ∀ c ∈ (ds ++ rest).head?, isBlank c = false := by
    intro ds rest hds hne c hc
    cases ds with
    | nil => exact absurd rfl hne
    | cons d ds => exact hds c (by rw [← Option.some.inj hc]; exact List.mem_cons_self)
  -- From the back the text is reversed, and the same argument holds.
  have hlast : (after.reverse ++ cs.reverse).dropWhile isBlank = cs.reverse := by
    refine (takeWhile_part (fun c hc => hafter c (List.mem_reverse.mp hc)) ?_).2
    rw [← List.append_nil cs.reverse]
    refine hhead (fun c hc => hcs c (List.mem_reverse.mp hc)) ?_
    rwa [Ne, List.reverse_eq_nil_iff]
  unfold trim trimEnd trimStart
  rw [(takeWhile_part hbefore (hhead hcs hne)).2, List.reverse_append, hlast,
    List.reverse_reverse]

namespace TimeText

variable {t : TimeText}

theorem Proper.unit_chars (h : t.Proper) : t.unit ≠ [] ∧ ∀ c ∈ t.unit, c ∈ unitChars := by
  obtain ⟨u, hu⟩ := h.unit
  exact unitChars_of_isSpelled hu

/-- What follows the numeral is neither a digit nor a point. -/
theorem Proper.rest_head (h : t.Proper) :
    ∀ c ∈ (t.between ++ (t.unit ++ t.after)).head?, isDigit c = false ∧ c ≠ '.' := by
  intro c hc
  obtain ⟨hne, hunit⟩ := h.unit_chars
  -- A blank follows if there is one, and else the first letter of the unit.
  cases hb : t.between with
  | cons b rest =>
      rw [hb] at hc
      obtain rfl := Option.some.inj hc
      exact blank_apart (h.between b (hb ▸ List.mem_cons_self))
  | nil =>
      rw [hb] at hc
      obtain ⟨d, rest, hd⟩ := List.exists_cons_of_ne_nil hne
      rw [hd] at hc
      obtain rfl := Option.some.inj hc
      exact (unitChars_apart d (hunit d (hd ▸ List.mem_cons_self))).2

theorem Proper.takeNumeral_eq (h : t.Proper) :
    takeNumeral (t.numeral ++ (t.between ++ (t.unit ++ t.after))) =
      (t.numeral, t.between ++ (t.unit ++ t.after)) := by
  have hhead := h.rest_head
  generalize t.between ++ (t.unit ++ t.after) = rest at *
  have hwhole {rest : List Char} (hrest : ∀ c ∈ rest.head?, isDigit c = false) :=
    takeWhile_part h.whole hrest
  unfold takeNumeral numeral pointed
  -- Without a fraction no point is taken, even if one comes next.
  by_cases hfraction : t.fraction.isEmpty = true
  · rw [if_pos hfraction, List.append_nil, (hwhole fun c hc => (hhead c hc).1).1,
      (hwhole fun c hc => (hhead c hc).1).2]
    cases rest with
    | nil => rfl
    | cons c rest =>
        have hpoint := (hhead c rfl).2
        simp only []
        split
        next more heq => exact absurd (List.cons.inj heq).1 hpoint
        next => rfl
  · have hpoint : ∀ c ∈ ('.' :: (t.fraction ++ rest)).head?, isDigit c = false := by
      intro c hc
      rw [← Option.some.inj hc]
      decide
    have htail := takeWhile_part h.fraction fun c hc => (hhead c hc).1
    have hempty : (t.whole.isEmpty || t.fraction.isEmpty) = false := by
      simpa [List.isEmpty_iff, h.whole_ne_nil] using hfraction
    rw [if_neg hfraction, List.append_assoc, List.cons_append, (hwhole hpoint).1,
      (hwhole hpoint).2]
    simp only [htail.1, htail.2, hempty, Bool.false_eq_true, if_false]

/-- Blanks come before the first digit. -/
theorem Proper.trimStart_text (h : t.Proper) :
    trimStart t.text = t.numeral ++ (t.between ++ (t.unit ++ t.after)) := by
  refine (takeWhile_part h.before fun c hc => ?_).2
  obtain ⟨d, rest, hd⟩ := List.exists_cons_of_ne_nil h.whole_ne_nil
  unfold numeral at hc
  rw [hd] at hc
  obtain rfl := Option.some.inj hc
  exact (digit_apart (h.whole d (hd ▸ List.mem_cons_self))).1

/-- A text of the form is taken apart into its parts. -/
theorem Proper.reads (h : t.Proper) : readTimeValue? t.text = some (t.numeral, t.unit) := by
  obtain ⟨hne, hunit⟩ := h.unit_chars
  have hnumeral : ¬ t.numeral = [] := fun h' => h.whole_ne_nil (List.append_eq_nil_iff.mp h').1
  have hspelled : TimeUnit.all.any (·.isSpelled t.unit) = true := by
    obtain ⟨u, hu⟩ := h.unit
    exact List.any_eq_true.mpr ⟨u, by cases u <;> decide, hu⟩
  unfold readTimeValue?
  rw [h.trimStart_text, h.takeNumeral_eq]
  simp only []
  rw [trim_eq h.between h.after (fun c hc => (unitChars_apart c (hunit c hc)).1) hne]
  simp [hspelled, hnumeral]

end TimeText

/-- Digits are taken, and a point with digits on both sides. -/
theorem takeNumeral_split (cs : List Char) : ∃ whole fraction,
    (takeNumeral cs).1 = whole ++ pointed fraction ∧
      cs = whole ++ pointed fraction ++ (takeNumeral cs).2 ∧
      (∀ c ∈ whole, isDigit c = true) ∧ (∀ c ∈ fraction, isDigit c = true) ∧
        (whole = [] → fraction = []) := by
  have hwhole : ∀ c ∈ cs.takeWhile isDigit, isDigit c = true := fun c => List.mem_takeWhile_imp
  -- If there is no point, or no digit on one side of it, it is not part of the numeral.
  have hplain : ∃ whole fraction, cs.takeWhile isDigit = whole ++ pointed fraction ∧
      cs = whole ++ pointed fraction ++ cs.dropWhile isDigit ∧
      (∀ c ∈ whole, isDigit c = true) ∧ (∀ c ∈ fraction, isDigit c = true) ∧
        (whole = [] → fraction = []) :=
    ⟨cs.takeWhile isDigit, [], (List.append_nil _).symm,
      by rw [pointed, if_pos List.isEmpty_nil, List.append_nil, List.takeWhile_append_dropWhile],
      hwhole, fun c hc => absurd hc List.not_mem_nil, fun _ => rfl⟩
  unfold takeNumeral
  simp only []
  split
  next more heq =>
    split
    next => exact hplain
    next hdigits =>
      simp only [Bool.or_eq_true, List.isEmpty_iff, not_or] at hdigits
      have hpointed : pointed (more.takeWhile isDigit) = '.' :: more.takeWhile isDigit := by
        rw [pointed, if_neg (by rw [List.isEmpty_iff]; exact hdigits.2)]
      refine ⟨cs.takeWhile isDigit, more.takeWhile isDigit, ?_, ?_, hwhole,
        fun c => List.mem_takeWhile_imp, fun h => absurd h hdigits.1⟩
      · rw [hpointed]
      · rw [hpointed, List.append_assoc, List.cons_append, List.takeWhile_append_dropWhile,
          ← heq, List.takeWhile_append_dropWhile]
  next => exact hplain

/-- The texts that are read are those of the form. -/
theorem readTimeValue?_eq_some_iff {cs numeral unit : List Char} :
    readTimeValue? cs = some (numeral, unit) ↔
      ∃ t : TimeText, t.Proper ∧ t.text = cs ∧ t.numeral = numeral ∧ t.unit = unit := by
  constructor
  · intro h
    obtain ⟨before, hcs, hbefore⟩ := trimStart_split cs
    obtain ⟨whole, fraction, hnumeral, hrest, hwhole, hfraction, hempty⟩ :=
      takeNumeral_split (trimStart cs)
    obtain ⟨between, after, hunit, hbetween, hafter⟩ := trim_split (takeNumeral (trimStart cs)).2
    unfold readTimeValue? at h
    simp only [] at h
    split at h
    next => exact absurd h nofun
    next hread =>
      simp only [Bool.or_eq_true, Bool.not_eq_true', not_or, Bool.not_eq_false,
        List.isEmpty_iff] at hread
      obtain ⟨rfl, rfl⟩ := Prod.mk.inj (Option.some.inj h)
      obtain ⟨u, -, hu⟩ := List.any_eq_true.mp hread.2
      -- The parts are where the reader has cut the text.
      refine ⟨⟨before, whole, fraction, between, trim (takeNumeral (trimStart cs)).2, after⟩,
        ⟨hbefore, hwhole, ?_, hfraction, hbetween, ⟨u, hu⟩, hafter⟩, ?_, hnumeral.symm, rfl⟩
      · rintro rfl
        rw [hempty rfl] at hnumeral
        exact hread.1 hnumeral
      · unfold TimeText.text TimeText.numeral
        simp only []
        rw [← hunit, ← hrest, ← hcs]
  · rintro ⟨t, ht, rfl, rfl, rfl⟩
    exact ht.reads

end Docket
