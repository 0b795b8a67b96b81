import Docket.Proofs.Number.Shortest

/-!
# Laid out numbers

What the text of a number looks like, whatever the layout: digits, a point with more
digits, and an exponent. The point or the exponent may be missing, but not both, and
no zero leads other digits. A layout that keeps a point before exponents always has
one.

A layout moves the point and drops or adds zeros at the end, so the parts of a text
need not be the digits that were laid out. They are worth the same, which is all that
reading asks for.

## Main definitions

* `NumeralParts`: The parts of a numeral without its sign.
* `NumeralParts.Proper`: Parts as they are written.

## Theorems

* `exponentText_reads`: An exponent is read back.
* `writeDigits_parts`, `writeDecimal_parts`: Digits and decimals are written in parts.
* `write_of_isFinite`: A finite number is written as its sign and its shortest decimal.
* `toList_toString_int`: An integer is written as its sign and its digits.
-/

namespace Docket

/-- A sign at the start of a numeral. -/
def signOf (negative : Bool) : List Char := if negative then ['-'] else []

/-- Digits behind a point, if there are any. -/
def pointed (fraction : List Char) : List Char :=
  if fraction.isEmpty then [] else '.' :: fraction

/-- Digits before the point and behind it, and an exponent. -/
structure NumeralParts where
  whole : List Char
  fraction : List Char
  exponent : Option Int

namespace NumeralParts

/-- The text of an exponent, if there is one. -/
def ending (p : NumeralParts) : List Char :=
  match p.exponent with
  | none => []
  | some e => 'e' :: Layout.exponentText e

def text (p : NumeralParts) : List Char := p.whole ++ (pointed p.fraction ++ p.ending)

def decimal (p : NumeralParts) : Decimal := decimalOf p.whole p.fraction (p.exponent.getD 0)

/-- Parts as they are written: no zero leads other digits, and something tells the
    numeral from an integer. -/
structure Proper (p : NumeralParts) : Prop where
  whole_digits : ∀ c ∈ p.whole, isAsciiDigit c = true
  fraction_digits : ∀ c ∈ p.fraction, isAsciiDigit c = true
  begins : ∃ d ds, p.whole = d :: ds ∧ (d = '0' → ds = [])
  marked : p.fraction ≠ [] ∨ p.exponent ≠ none

end NumeralParts

/-- An exponent is a sign and digits, and is read back. -/
theorem exponentText_reads (e : Int) : ∃ sign ds, Layout.exponentText e = sign :: ds ∧
    (sign = '+' ∨ sign = '-') ∧ ds ≠ [] ∧ (∀ c ∈ ds, isAsciiDigit c = true) ∧
      readExponent? (sign :: ds) = some e := by
  -- A zero before the digits changes nothing about them.
  have hpadded : ∃ ds, (if (toString e.natAbs).toList.length < 2 then
      '0' :: (toString e.natAbs).toList else (toString e.natAbs).toList) = ds ∧ ds ≠ [] ∧
        (∀ c ∈ ds, isAsciiDigit c = true) ∧ digitsValue ds = e.natAbs := by
    have hdigits : ∀ c ∈ (toString e.natAbs).toList, isAsciiDigit c = true :=
      fun c hc => isAsciiDigit_of_mem_toString hc
    by_cases hshort : (toString e.natAbs).toList.length < 2
    · rw [if_pos hshort]
      refine ⟨_, rfl, List.cons_ne_nil _ _, fun c hc => ?_, digitsValue_toString e.natAbs⟩
      rcases List.mem_cons.mp hc with rfl | hc
      · rfl
      · exact hdigits c hc
    · rw [if_neg hshort]
      exact ⟨_, rfl, toString_ne_nil _, hdigits, digitsValue_toString e.natAbs⟩
  rcases hpadded with ⟨ds, hds, hne, hdigits, hvalue⟩
  have hread : ¬ (ds.isEmpty || !ds.all isAsciiDigit) = true := by
    rw [Bool.or_eq_true, List.isEmpty_iff, Bool.not_eq_true', List.all_eq_false]
    rintro (h | ⟨c, hc, hcd⟩)
    · exact hne h
    · exact hcd (hdigits c hc)
  unfold Layout.exponentText
  simp only [hds]
  by_cases he : e < 0
  · refine ⟨'-', ds, by rw [if_pos he], Or.inr rfl, hne, hdigits, ?_⟩
    unfold readExponent?
    simp only []
    rw [if_neg hread, if_pos trivial, hvalue]
    exact congrArg some (by omega)
  · refine ⟨'+', ds, by rw [if_neg he], Or.inl rfl, hne, hdigits, ?_⟩
    unfold readExponent?
    simp only []
    rw [if_neg hread, if_neg Bool.false_ne_true, hvalue]
    exact congrArg some (by omega)

/-- Digits without the zeros at their end. -/
theorem trimZeros_split (ds : List Char) :
    ∃ k, ds = Layout.trimZeros ds ++ List.replicate k '0' := by
  refine ⟨(ds.reverse.takeWhile (· == '0')).length, ?_⟩
  have hzeros : ds.reverse.takeWhile (· == '0') =
      List.replicate (ds.reverse.takeWhile (· == '0')).length '0' := by
    refine List.eq_replicate_of_mem fun c hc => ?_
    exact beq_iff_eq.mp (List.all_eq_true.mp List.all_takeWhile c hc)
  have hsplit := List.takeWhile_append_dropWhile (p := (· == '0')) (l := ds.reverse)
  have hreverse := congrArg List.reverse hsplit
  rw [List.reverse_append, List.reverse_reverse] at hreverse
  unfold Layout.trimZeros
  rw [← List.reverse_replicate, ← hzeros]
  exact hreverse.symm

/-- The first digit of a number that is not zero. -/
theorem toString_eq_cons {n : Nat} (hn : 0 < n) :
    ∃ d ds, (toString n).toList = d :: ds ∧ d ≠ '0' := by
  rw [toList_toString]
  induction n using Nat.strongRecOn with
  | ind n ih =>
      by_cases hten : n < 10
      · refine ⟨n.digitChar, [], Nat.toDigits_of_lt_base hten, ?_⟩
        have hchars : ∀ m < 10, 0 < m → m.digitChar ≠ '0' := by decide
        exact hchars n hten hn
      · rcases ih (n / 10) (by omega) (by omega) with ⟨d, ds, hds, hd⟩
        refine ⟨d, ds ++ [(n % 10).digitChar], ?_, hd⟩
        rw [Nat.toDigits_of_base_le (by decide) (by omega), hds]
        rfl

/-- Some parts are written in the place of a decimal that they are worth. -/
def Layout.WritesAs (layout : Layout) (cs : List Char) (d : Decimal) : Prop :=
  ∃ p : NumeralParts, p.Proper ∧ cs = p.text ∧
    (∀ negative, p.decimal.toBinary negative = d.toBinary negative) ∧
    (layout.pointBeforeExponent = true → p.fraction ≠ [])

section

variable (layout : Layout) {d : Char} {ds : List Char}

theorem isAsciiDigit_of_mem_zeros {k : Nat} {c : Char} (h : c ∈ List.replicate k '0') :
    isAsciiDigit c = true := by
  rw [List.eq_of_mem_replicate h]
  rfl

/-- Zeros between the point and the first digit. -/
theorem writesAs_small (hds : ∀ c ∈ d :: ds, isAsciiDigit c = true) {point : Int}
    (hpoint : point ≤ 0) :
    layout.WritesAs (['0', '.'] ++ List.replicate (-point).toNat '0' ++ d :: ds)
      ⟨digitsValue (d :: ds), point - (d :: ds).length⟩ := by
  have hne : List.replicate (-point).toNat '0' ++ d :: ds ≠ [] :=
    List.append_ne_nil_of_right_ne_nil _ (List.cons_ne_nil d ds)
  -- The zeros stand in the fraction: they leave the value of the digits as it is, and the point
  -- is counted from the last digit.
  refine ⟨⟨['0'], List.replicate (-point).toNat '0' ++ d :: ds, none⟩, ?_, ?_, fun negative => ?_,
    fun _ => hne⟩
  · exact
      { whole_digits := List.forall_mem_singleton.mpr rfl
        fraction_digits := fun c hc =>
          (List.mem_append.mp hc).elim isAsciiDigit_of_mem_zeros (hds c)
        begins := ⟨'0', [], rfl, fun _ => rfl⟩
        marked := Or.inl hne }
  · unfold NumeralParts.text NumeralParts.ending pointed
    rw [if_neg (by rwa [List.isEmpty_iff])]
    simp
  · refine congrArg (Decimal.toBinary negative) ?_
    have hvalue : digitsValue ['0'] = 0 := rfl
    unfold NumeralParts.decimal decimalOf
    rw [digitsValue_append, digitsValue_append, digitsValue_zeros, List.length_append,
      List.length_replicate, hvalue, Nat.zero_mul, Nat.zero_mul, Nat.zero_add, Nat.zero_add,
      Decimal.mk.injEq]
    exact ⟨rfl, by simp only [Option.getD_none]; omega⟩

/-- Zeros between the last digit and the point. -/
theorem writesAs_large (hds : ∀ c ∈ d :: ds, isAsciiDigit c = true) (hzero : d ≠ '0') {point : Int}
    (hpoint : 0 < point) (hlength : (d :: ds).length ≤ point.toNat) :
    layout.WritesAs (d :: ds ++ List.replicate (point.toNat - (d :: ds).length) '0' ++ ['.', '0'])
      ⟨digitsValue (d :: ds), point - (d :: ds).length⟩ := by
  refine ⟨⟨d :: ds ++ List.replicate (point.toNat - (d :: ds).length) '0', ['0'], none⟩, ?_, ?_,
    fun negative => ?_, fun _ => List.cons_ne_nil _ _⟩
  · exact
      { whole_digits := fun c hc => (List.mem_append.mp hc).elim (hds c) isAsciiDigit_of_mem_zeros
        fraction_digits := List.forall_mem_singleton.mpr rfl
        begins := ⟨d, _, rfl, fun h => absurd h hzero⟩
        marked := Or.inl (List.cons_ne_nil _ _) }
  · unfold NumeralParts.text NumeralParts.ending pointed
    simp
  -- The zeros behind the digits are part of what is read, so that the decimal is another one with
  -- the same value.
  · rw [← Decimal.toBinary_shift negative ⟨digitsValue (d :: ds), point - (d :: ds).length⟩
      (point.toNat - (d :: ds).length + 1)]
    refine congrArg (Decimal.toBinary negative) ?_
    have hone : (['0'] : List Char).length = 1 := rfl
    unfold NumeralParts.decimal decimalOf Decimal.shift
    rw [List.append_assoc, ← List.replicate_succ', digitsValue_append,
      digitsValue_zeros, List.length_replicate, Nat.add_zero, Decimal.mk.injEq, hone]
    refine ⟨rfl, ?_⟩
    simp only [Option.getD_none]
    omega

/-- The point among the digits. -/
theorem writesAs_between (hds : ∀ c ∈ d :: ds, isAsciiDigit c = true) (hzero : d ≠ '0')
    {point : Int} (hpoint : 0 < point) (hlength : ¬ (d :: ds).length ≤ point.toNat) :
    layout.WritesAs ((d :: ds).take point.toNat ++ '.' :: (d :: ds).drop point.toNat)
      ⟨digitsValue (d :: ds), point - (d :: ds).length⟩ := by
  -- The point stands behind at least one digit, so the first one begins the number.
  have htake : (d :: ds).take point.toNat = d :: ds.take (point.toNat - 1) := by
    have hsucc : point.toNat = (point.toNat - 1) + 1 := by omega
    rw [hsucc]
    rfl
  have hne : (d :: ds).drop point.toNat ≠ [] := fun h => hlength (List.drop_eq_nil_iff.mp h)
  refine ⟨⟨(d :: ds).take point.toNat, (d :: ds).drop point.toNat, none⟩, ?_, ?_,
    fun negative => congrArg (Decimal.toBinary negative) ?_, fun _ => hne⟩
  · exact
      { whole_digits := fun c hc => hds c (List.mem_of_mem_take hc)
        fraction_digits := fun c hc => hds c (List.mem_of_mem_drop hc)
        begins := ⟨d, _, htake, fun h => absurd h hzero⟩
        marked := Or.inl hne }
  · unfold NumeralParts.text NumeralParts.ending pointed
    rw [if_neg (by rwa [List.isEmpty_iff]), List.append_nil]
  · unfold NumeralParts.decimal decimalOf
    rw [List.take_append_drop, List.length_drop, Decimal.mk.injEq]
    exact ⟨rfl, by simp only [Option.getD_none]; omega⟩

/-- One digit before the point, and an exponent. -/
theorem writesAs_exponent (hds : ∀ c ∈ d :: ds, isAsciiDigit c = true) {point : Int}
    (hpositional : ¬ (layout.positionalBottom < point ∧ point ≤ layout.positionalTop)) :
    layout.WritesAs (layout.writeDigits (d :: ds) point)
      ⟨digitsValue (d :: ds), point - (d :: ds).length⟩ := by
  unfold Layout.writeDigits
  rw [if_neg hpositional]
  have hproper : ∀ {fraction : List Char}, (∀ c ∈ fraction, isAsciiDigit c = true) →
      NumeralParts.Proper ⟨[d], fraction, some (point - 1)⟩ := fun hfraction =>
    { whole_digits := List.forall_mem_singleton.mpr (hds d List.mem_cons_self)
      fraction_digits := hfraction
      begins := ⟨d, [], rfl, fun _ => rfl⟩
      marked := Or.inr (Option.some_ne_none _) }
  -- With one digit alone it is up to the layout whether a point and a zero follow it.
  cases ds with
  | cons c rest =>
      refine ⟨⟨[d], c :: rest, some (point - 1)⟩,
        hproper fun x hx => hds x (List.mem_cons_of_mem d hx), rfl,
        fun negative => congrArg (Decimal.toBinary negative) ?_, fun _ => List.cons_ne_nil _ _⟩
      unfold NumeralParts.decimal decimalOf
      rw [List.length_cons, List.length_cons, Decimal.mk.injEq]
      exact ⟨rfl, by simp only [Option.getD_some, List.length_cons]; omega⟩
  | nil =>
      by_cases hpoint : layout.pointBeforeExponent = true
      · refine ⟨⟨[d], ['0'], some (point - 1)⟩, hproper (List.forall_mem_singleton.mpr rfl),
          by simp only [if_pos hpoint]; rfl, fun negative => ?_, fun _ => List.cons_ne_nil _ _⟩
        rw [← Decimal.toBinary_shift negative ⟨digitsValue [d], point - ([d] : List Char).length⟩ 1]
        refine congrArg (Decimal.toBinary negative) ?_
        unfold NumeralParts.decimal decimalOf Decimal.shift
        rw [digitsValue_append, Decimal.mk.injEq]
        exact ⟨rfl, by simp⟩
      · refine ⟨⟨[d], [], some (point - 1)⟩, hproper nofun, by simp only [if_neg hpoint]; rfl,
          fun negative => congrArg (Decimal.toBinary negative) ?_, fun h => absurd h hpoint⟩
        unfold NumeralParts.decimal decimalOf
        rw [Decimal.mk.injEq]
        exact ⟨rfl, by simp⟩

/-- Digits `d₁d₂…` behind the point, times a power of ten, are written in parts. -/
theorem writeDigits_parts (point : Int) (hds : ∀ c ∈ d :: ds, isAsciiDigit c = true)
    (hzero : d ≠ '0') : layout.WritesAs (layout.writeDigits (d :: ds) point)
      ⟨digitsValue (d :: ds), point - (d :: ds).length⟩ := by
  -- The layout says up to which powers of ten no exponent is written.
  by_cases hpositional : layout.positionalBottom < point ∧ point ≤ layout.positionalTop
  · unfold Layout.writeDigits
    rw [if_pos hpositional]
    by_cases hpoint : point ≤ 0
    · rw [if_pos hpoint]
      exact writesAs_small layout hds hpoint
    · rw [if_neg hpoint]
      by_cases hlength : (d :: ds).length ≤ point.toNat
      · simp only [if_pos hlength]
        exact writesAs_large layout hds hzero (by omega) hlength
      · simp only [if_neg hlength]
        exact writesAs_between layout hds hzero (by omega) hlength
  · exact writesAs_exponent layout hds hpositional

/-- A decimal is written in parts, if zero is not written with an exponent. -/
theorem writeDecimal_parts (hlayout : layout.positionalBottom < 1 ∧ 1 ≤ layout.positionalTop)
    (d : Decimal) : layout.WritesAs (layout.writeDecimal d) d := by
  unfold Layout.writeDecimal
  by_cases hzero : d.digits = 0
  · rw [if_pos hzero]
    refine ⟨⟨['0'], ['0'], none⟩, ?_, ?_, fun negative => ?_, fun _ => List.cons_ne_nil _ _⟩
    · exact
        { whole_digits := List.forall_mem_singleton.mpr rfl
          fraction_digits := List.forall_mem_singleton.mpr rfl
          begins := ⟨'0', [], rfl, fun _ => rfl⟩
          marked := Or.inl (List.cons_ne_nil _ _) }
    · unfold Layout.writeDigits
      rw [if_pos hlayout]
      rfl
    · unfold Decimal.toBinary
      rw [if_pos hzero]
      rfl
  · rw [if_neg hzero]
    rcases toString_eq_cons (Nat.pos_of_ne_zero hzero) with ⟨c, cs, hcs, hc⟩
    rcases trimZeros_split (toString d.digits).toList with ⟨k, hk⟩
    -- The first digit is not trimmed, because it is not zero.
    rcases htrim : Layout.trimZeros (toString d.digits).toList with _ | ⟨c', rest⟩
    · rw [htrim, hcs, List.nil_append] at hk
      have hmem : c ∈ List.replicate k '0' := hk ▸ List.mem_cons_self
      exact absurd (List.eq_of_mem_replicate hmem) hc
    have hsame : c = c' := by
      rw [htrim, hcs, List.cons_append] at hk
      exact (List.cons.inj hk).1
    rw [htrim] at hk
    have hdigits : ∀ x ∈ c' :: rest, isAsciiDigit x = true := by
      intro x hx
      refine isAsciiDigit_of_mem_toString (n := d.digits) ?_
      rw [hk]
      exact List.mem_append_left _ hx
    obtain ⟨p, hproper, htext, hworth, hpoint⟩ := writeDigits_parts layout
      (((toString d.digits).toList.length : Int) + d.exponent) hdigits (hsame ▸ hc)
    simp only [htrim]
    refine ⟨p, hproper, htext, fun negative => ?_, hpoint⟩
    rw [hworth negative, ← Decimal.toBinary_shift negative ⟨digitsValue (c' :: rest), _⟩ k]
    refine congrArg (Decimal.toBinary negative) ?_
    have hvalue : digitsValue (c' :: rest) * 10 ^ k = d.digits := by
      rw [← digitsValue_toString d.digits, hk, digitsValue_append, digitsValue_zeros,
        List.length_replicate, Nat.add_zero]
    have hlength : (toString d.digits).toList.length = (c' :: rest).length + k := by
      rw [hk, List.length_append, List.length_replicate]
    unfold Decimal.shift
    simp only [hvalue, hlength]
    have hexponent : (((c' :: rest).length + k : Nat) : Int) + d.exponent -
        ((c' :: rest).length : Nat) - k = d.exponent := by
      omega
    rw [hexponent]

/-- A finite number is written as its sign and its shortest decimal. -/
theorem write_of_isFinite {x : Binary64} (h : x.isFinite = true) :
    (layout.write x).toList = signOf x.negative ++ layout.writeDecimal x.shortest := by
  have hcode : x.code < Binary64.infinityCode := of_decide_eq_true h
  -- A code below that of infinity is neither of the two special ones.
  have hnan : ¬ x.isNaN = true := by
    unfold Binary64.isNaN
    rw [decide_eq_true_iff]
    omega
  have hinfinite : ¬ x.isInfinite = true := by
    unfold Binary64.isInfinite
    rw [beq_iff_eq]
    omega
  unfold Layout.write signOf
  simp only []
  rw [if_neg hnan, if_neg hinfinite]
  by_cases hneg : x.negative = true
  · rw [if_pos hneg, if_pos hneg, String.toList_append]
    change ['-'] ++ (String.ofList _).toList = _
    rw [String.toList_ofList]
  · rw [if_neg hneg, if_neg hneg, String.toList_ofList]
    rfl

end

theorem toList_toString_int (n : Int) :
    (toString n).toList = signOf (decide (n < 0)) ++ (toString n.natAbs).toList := by
  cases n with
  | ofNat m => rfl
  | negSucc m =>
      have hneg : Int.negSucc m < 0 := Int.negSucc_lt_zero m
      rw [decide_eq_true hneg]
      change ("-" ++ toString (m + 1)).toList = _
      rw [String.toList_append]
      rfl

end Docket
