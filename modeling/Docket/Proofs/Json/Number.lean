import Docket.Json.Reader
import Docket.Json.Writer
import Docket.Proofs.Number.Layout

/-!
# Numbers in JSON

A number that is written is read back as it was: an integer as the same integer, a
floating-point number as the same floating-point number. What tells the two apart
is whether the numeral has a point or an exponent, so it has to be shown that one
of them is there for the second kind and none for the first.

What follows a numeral must not go on with it. `Stops` says so, and it is true of
all that may follow a value.

`Spells` says that a text is read as a decimal whatever its sign and whatever
follows. It is true of every text that a layout writes, because such a text has a
point or an exponent and is worth the decimal that it was written for.

## Main definitions

* `Stops`: What a numeral ends before.
* `Spells`: A text that is read as a decimal.

## Theorems

* `readJsonNumber_int`: An integer is read back.
* `NumeralParts.Proper.spells`, `spells_writeDecimal`: What is written of a decimal spells it.
* `readJsonNumber_float`: A floating-point number is read back.
-/

namespace Docket

/-- Does not go on with a numeral. -/
def Stops (cs : List Char) : Prop :=
  ∀ c ∈ cs.head?, isAsciiDigit c = false ∧ c ≠ '.' ∧ c ≠ 'e' ∧ c ≠ 'E'

theorem stops_nil : Stops [] := fun _ h => absurd h (Option.not_mem_none _)

theorem wholeDigits_digits {d : Char} {ds rest : List Char} (hd : d ≠ '0')
    (hds : ∀ c ∈ d :: ds, isAsciiDigit c = true)
    (hrest : ∀ c ∈ rest.head?, isAsciiDigit c = false) :
    wholeDigits (d :: ds ++ rest) = d :: ds := by
  unfold wholeDigits
  have hhead : ¬ (d :: ds ++ rest).head? = some '0' := fun h => hd (Option.some.inj h)
  rw [if_neg hhead, (takeWhile_digits hds hrest).1]

theorem takeFraction_digits {ds rest : List Char} (hne : ds ≠ [])
    (hds : ∀ c ∈ ds, isAsciiDigit c = true)
    (hrest : ∀ c ∈ rest.head?, isAsciiDigit c = false) :
    takeFraction ('.' :: ds ++ rest) = (ds, rest) := by
  rw [List.cons_append, takeFraction]
  rw [(takeWhile_digits hds hrest).1, (takeWhile_digits hds hrest).2]
  rw [if_neg (by rwa [List.isEmpty_iff])]

theorem takeFraction_of_stops {cs : List Char} (h : ∀ c ∈ cs.head?, c ≠ '.') :
    takeFraction cs = ([], cs) := by
  unfold takeFraction
  split
  next rest => exact absurd rfl (h '.' rfl)
  next => rfl

theorem takeExponent_of_stops {cs : List Char} (h : ∀ c ∈ cs.head?, c ≠ 'e' ∧ c ≠ 'E') :
    takeExponent cs = ([], cs) := by
  cases cs with
  | nil => rfl
  | cons c rest =>
      rcases h c rfl with ⟨hsmall, hlarge⟩
      rw [takeExponent, if_neg fun hc => hc.elim hsmall hlarge]

/-- A sign before digits. -/
theorem takeSign_sign {sign : Char} (h : sign = '+' ∨ sign = '-') (cs : List Char) :
    takeSign (sign :: cs) = ([sign], cs) := by
  rcases h with rfl | rfl
  · rfl
  · rfl

theorem takeExponent_digits {sign : Char} {ds rest : List Char} (h : sign = '+' ∨ sign = '-')
    (hne : ds ≠ []) (hds : ∀ c ∈ ds, isAsciiDigit c = true)
    (hrest : ∀ c ∈ rest.head?, isAsciiDigit c = false) :
    takeExponent ('e' :: sign :: ds ++ rest) = (sign :: ds, rest) := by
  rw [List.cons_append, List.cons_append, takeExponent, if_pos (Or.inl rfl), takeSign_sign h]
  simp only []
  rw [(takeWhile_digits hds hrest).1, (takeWhile_digits hds hrest).2]
  rw [if_neg (by rwa [List.isEmpty_iff])]
  rfl

theorem readJsonNumber_signOf (negative : Bool) {d : Char} (body : List Char)
    (hd : isAsciiDigit d = true) :
    readJsonNumber (signOf negative ++ d :: body) =
      readUnsignedNumber negative (signOf negative ++ d :: body).length (d :: body) := by
  cases negative with
  | true => rfl
  | false =>
      change readJsonNumber (d :: body) = readUnsignedNumber false (d :: body).length (d :: body)
      unfold readJsonNumber
      split
      next body' heq =>
        rw [(List.cons.inj heq).1] at hd
        exact absurd hd (by decide)
      next => rfl

/-- A numeral without point and exponent is an integer. -/
theorem readUnsignedNumber_int {negative : Bool} {remaining : Nat} {ds rest : List Char}
    (hwhole : wholeDigits (ds ++ rest) = ds) (hne : ds ≠ []) (hlen : ds.length ≤ maxDigits)
    (hrest : Stops rest) :
    readUnsignedNumber negative remaining (ds ++ rest) =
      .ok (.int (if negative then -(digitsValue ds : Int) else digitsValue ds), rest) := by
  have hdrop : (ds ++ rest).drop ds.length = rest := List.drop_left
  have hempty : ¬ ds.isEmpty = true := by rwa [List.isEmpty_iff]
  unfold readUnsignedNumber
  simp only [hwhole, hdrop]
  rw [if_neg hempty, takeFraction_of_stops fun c hc => (hrest c hc).2.1]
  simp only []
  rw [takeExponent_of_stops fun c hc => (hrest c hc).2.2]
  exact if_neg (Nat.not_lt.mpr hlen)

/-- A numeral with a point or an exponent is a floating-point number. -/
theorem readUnsignedNumber_float {negative : Bool} {remaining : Nat}
    {whole fraction exponent body rest rest' : List Char} {e : Int}
    (hwhole : wholeDigits (whole ++ body) = whole) (hne : whole ≠ [])
    (hfraction : takeFraction body = (fraction, rest'))
    (hexponent : takeExponent rest' = (exponent, rest))
    (hvalue : (readExponent? exponent).getD 0 = e) (hpart : fraction ≠ [] ∨ exponent ≠ []) :
    readUnsignedNumber negative remaining (whole ++ body) =
      .ok (.float ((decimalOf whole fraction e).toBinary negative), rest) := by
  have hdrop : (whole ++ body).drop whole.length = body := List.drop_left
  have hempty : ¬ whole.isEmpty = true := by rwa [List.isEmpty_iff]
  -- One of the parts is there, so the numeral is no integer.
  have hparts : ¬ (fraction.isEmpty && exponent.isEmpty) = true := by
    rw [Bool.and_eq_true, List.isEmpty_iff, List.isEmpty_iff]
    rintro ⟨hf, he⟩
    exact hpart.elim (absurd hf) (absurd he)
  unfold readUnsignedNumber
  simp only [hwhole, hdrop]
  rw [if_neg hempty, hfraction]
  simp only []
  rw [hexponent]
  simp only []
  rw [if_neg hparts, hvalue]

/-- A text that is read as a decimal, whatever its sign and whatever follows. -/
def Spells (cs : List Char) (d : Decimal) : Prop :=
  ∀ negative rest, Stops rest →
    readJsonNumber (signOf negative ++ (cs ++ rest)) = .ok (.float (d.toBinary negative), rest)

/-- What is worth the same is spelled the same. -/
theorem Spells.of_toBinary {cs : List Char} {d d' : Decimal} (h : Spells cs d)
    (heq : ∀ negative, d.toBinary negative = d'.toBinary negative) : Spells cs d' := by
  intro negative rest hrest
  rw [h negative rest hrest, heq negative]

theorem notDigit_point (rest : List Char) : ∀ c ∈ ('.' :: rest).head?, isAsciiDigit c = false := by
  intro c hc
  rw [← Option.some.inj hc]
  rfl

theorem notDigit_exponent (rest : List Char) :
    ∀ c ∈ ('e' :: rest).head?, isAsciiDigit c = false ∧ c ≠ '.' := by
  intro c hc
  rw [← Option.some.inj hc]
  exact ⟨rfl, by decide⟩

theorem takeFraction_pointed {fraction rest : List Char}
    (hfraction : ∀ c ∈ fraction, isAsciiDigit c = true)
    (hrest : ∀ c ∈ rest.head?, isAsciiDigit c = false ∧ c ≠ '.') :
    takeFraction (pointed fraction ++ rest) = (fraction, rest) := by
  unfold pointed
  by_cases hempty : fraction.isEmpty = true
  · rw [if_pos hempty, List.isEmpty_iff.mp hempty]
    exact takeFraction_of_stops fun c hc => (hrest c hc).2
  · rw [if_neg hempty]
    exact takeFraction_digits (by rwa [List.isEmpty_iff] at hempty) hfraction
      fun c hc => (hrest c hc).1

/-- What follows an exponent is left, and so is what follows if there is none. -/
theorem takeExponent_ending (p : NumeralParts) {rest : List Char} (hrest : Stops rest) :
    ∃ exponent, takeExponent (p.ending ++ rest) = (exponent, rest) ∧
      (readExponent? exponent).getD 0 = p.exponent.getD 0 ∧ (p.exponent ≠ none → exponent ≠ []) ∧
      ∀ c ∈ (p.ending ++ rest).head?, isAsciiDigit c = false ∧ c ≠ '.' := by
  obtain ⟨whole, fraction, exponent⟩ := p
  cases exponent with
  | none =>
      exact ⟨[], takeExponent_of_stops fun c hc => (hrest c hc).2.2, rfl, fun h => absurd rfl h,
        fun c hc => ⟨(hrest c hc).1, (hrest c hc).2.1⟩⟩
  | some e =>
      rcases exponentText_reads e with ⟨sign, ds, htext, hsign, hne, hds, hread⟩
      unfold NumeralParts.ending
      simp only [htext]
      exact ⟨sign :: ds, takeExponent_digits hsign hne hds fun c hc => (hrest c hc).1,
        by rw [hread], fun _ => List.cons_ne_nil _ _, notDigit_exponent _⟩

/-- Parts as they are written are read. -/
theorem NumeralParts.Proper.spells {p : NumeralParts} (h : p.Proper) : Spells p.text p.decimal := by
  intro negative rest hrest
  obtain ⟨d, ds, hwhole, hzero⟩ := h.begins
  obtain ⟨exponent, htake, hread, hnone, hstops⟩ := takeExponent_ending p hrest
  have hfollows : ∀ c ∈ (pointed p.fraction ++ (p.ending ++ rest)).head?,
      isAsciiDigit c = false := by
    unfold pointed
    by_cases hempty : p.fraction.isEmpty = true
    · rw [if_pos hempty]
      exact fun c hc => (hstops c hc).1
    · rw [if_neg hempty]
      exact notDigit_point _
  have hdigits := h.whole_digits
  unfold text decimal
  rw [hwhole] at hdigits ⊢
  rw [List.append_assoc, List.append_assoc, List.cons_append,
    readJsonNumber_signOf _ _ (hdigits d List.mem_cons_self), ← List.cons_append]
  refine readUnsignedNumber_float ?_ (List.cons_ne_nil d ds)
    (takeFraction_pointed h.fraction_digits hstops) htake hread (h.marked.imp_right hnone)
  -- A zero in front stands alone, so either way all digits up to the point are taken.
  by_cases hd : d = '0'
  · rw [hzero hd, hd]
    rfl
  · exact wholeDigits_digits hd hdigits hfollows

/-- The text of a decimal spells it. -/
theorem spells_writeDecimal (d : Decimal) : Spells (Layout.display.writeDecimal d) d := by
  obtain ⟨p, hproper, htext, hworth, -⟩ := writeDecimal_parts Layout.display (by decide) d
  rw [htext]
  exact hproper.spells.of_toBinary hworth

/-- A text that spells a decimal begins with a digit. -/
theorem Spells.begins {cs : List Char} {d : Decimal} (h : Spells cs d) :
    ∃ c body, cs = c :: body ∧ isAsciiDigit c = true := by
  have hread := h true [] stops_nil
  rw [List.append_nil] at hread
  change readUnsignedNumber true ('-' :: cs).length cs = _ at hread
  -- Without a digit there is nothing to read.
  have hnone : ∀ {remaining : Nat}, wholeDigits cs = [] →
      readUnsignedNumber true remaining cs = .error ⟨.value, remaining⟩ := by
    intro remaining hwhole
    unfold readUnsignedNumber
    simp only [hwhole, List.isEmpty_nil, if_true]
  cases cs with
  | nil =>
      rw [hnone rfl] at hread
      exact absurd hread (by simp only [reduceCtorEq, not_false_eq_true])
  | cons c body =>
      refine ⟨c, body, rfl, ?_⟩
      by_cases hc : isAsciiDigit c = true
      · exact hc
      · have hzero : ¬ (c :: body).head? = some '0' := by
          intro heq
          rw [Option.some.inj heq] at hc
          exact hc rfl
        rw [hnone (by rw [wholeDigits, if_neg hzero, List.takeWhile_cons_of_neg hc])] at hread
        exact absurd hread (by simp only [reduceCtorEq, not_false_eq_true])

/-- The text of a floating-point number. -/
theorem jsonFloat_eq {x : Binary64} {cs : List Char} (h : jsonFloat x = .ok cs) :
    x.isFinite = true ∧ cs = signOf x.negative ++ Layout.display.writeDecimal x.shortest := by
  unfold jsonFloat at h
  by_cases hfinite : x.isFinite = true
  · rw [if_pos hfinite] at h
    refine ⟨hfinite, ?_⟩
    rw [← Except.ok.inj h]
    exact write_of_isFinite Layout.display hfinite
  · rw [if_neg hfinite] at h
    exact absurd h (by simp only [reduceCtorEq, not_false_eq_true])

/-- A floating-point number is read back. -/
theorem readJsonNumber_float {x : Binary64} {cs rest : List Char} (h : jsonFloat x = .ok cs)
    (hrest : Stops rest) : readJsonNumber (cs ++ rest) = .ok (.float x, rest) := by
  rcases jsonFloat_eq h with ⟨hfinite, rfl⟩
  rw [List.append_assoc, spells_writeDecimal x.shortest x.negative rest hrest,
    Binary64.toBinary_shortest hfinite]

theorem jsonInt_short {n : Int} (h : n.natAbs < 10 ^ maxDigits) :
    jsonInt n = .ok (toString n).toList := by
  unfold jsonInt intText?
  rw [if_pos h]

theorem jsonInt_long {n : Int} (h : ¬ n.natAbs < 10 ^ maxDigits) :
    jsonInt n = .error .longInteger := by
  unfold jsonInt intText?
  rw [if_neg h]

/-- The text of an integer. -/
theorem jsonInt_eq {n : Int} {cs : List Char} (h : jsonInt n = .ok cs) :
    n.natAbs < 10 ^ maxDigits ∧
      cs = signOf (decide (n < 0)) ++ (toString n.natAbs).toList := by
  by_cases hshort : n.natAbs < 10 ^ maxDigits
  · rw [jsonInt_short hshort] at h
    rw [← toList_toString_int]
    exact ⟨hshort, (Except.ok.inj h).symm⟩
  · rw [jsonInt_long hshort] at h
    exact absurd h (by simp only [reduceCtorEq, not_false_eq_true])

/-- An integer is read back. -/
theorem readJsonNumber_int {n : Int} {cs rest : List Char} (h : jsonInt n = .ok cs)
    (hrest : Stops rest) : readJsonNumber (cs ++ rest) = .ok (.int n, rest) := by
  rcases jsonInt_eq h with ⟨hshort, rfl⟩
  have hlen : (toString n.natAbs).toList.length ≤ maxDigits := by
    rw [length_toString, digitCount_le_iff (by decide)]
    exact hshort
  have hvalue := digitsValue_toString n.natAbs
  have hwhole : ∃ d ds, (toString n.natAbs).toList = d :: ds ∧
      wholeDigits (d :: ds ++ rest) = d :: ds := by
    -- Zero is one digit, and no other number begins with one.
    by_cases hzero : n.natAbs = 0
    · exact ⟨'0', [], by rw [hzero]; rfl, rfl⟩
    · rcases toString_eq_cons (Nat.pos_of_ne_zero hzero) with ⟨d, ds, hds, hd⟩
      refine ⟨d, ds, hds, wholeDigits_digits hd (fun c hc => ?_) fun c hc => (hrest c hc).1⟩
      exact isAsciiDigit_of_mem_toString (n := n.natAbs) (hds ▸ hc)
  rcases hwhole with ⟨d, ds, hds, hwhole⟩
  have hd : isAsciiDigit d = true :=
    isAsciiDigit_of_mem_toString (n := n.natAbs) (hds ▸ List.mem_cons_self)
  rw [hds] at hlen hvalue ⊢
  rw [List.append_assoc, List.cons_append, readJsonNumber_signOf _ _ hd, ← List.cons_append,
    readUnsignedNumber_int hwhole (List.cons_ne_nil d ds) hlen hrest, hvalue]
  refine congrArg (fun m => Except.ok (Value.int m, rest)) ?_
  by_cases hneg : n < 0
  · rw [decide_eq_true hneg, if_pos rfl]
    omega
  · rw [decide_eq_false hneg, if_neg Bool.false_ne_true]
    omega

end Docket
