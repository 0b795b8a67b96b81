import Docket.Proofs.Json.Nesting

/-!
# Strings, numbers and constants of JSON with more after them

What the reader of JSON reads of a text it reads of a longer one as well, as long as
what it has read was over. A string is over with its closing quote and a constant with
its last letter. A numeral is over only if something follows that does not go on with
it, and at the end of a text that is not known: `12` may be cut from `12.5`. So `Ends`
asks for something more than `Stops` does, which holds of the end as well.

Of all that is in a string only a character that is escaped by number looks ahead.
It may be the first half of a pair, and then what follows decides. Where that was cut
off (`CutPair`), the reader takes the first half by itself, but then fails at the
second one, because the string is not over either.

## Main definitions

* `CutPair`: What may yet become the second half of a pair.
* `Ends`: What a numeral is over before, whatever follows.

## Theorems

* `readUnicodeEscape_append`, `readJsonString_append`: Strings.
* `readUnsignedNumber_append`, `readJsonNumber_append`: Numbers.
* `readJsonAtom_append`: Constants and numbers.
-/

namespace Docket

/-- Blanks are skipped up to something that is none. -/
theorem skipJsonBlanks_append {cs : List Char} (h : skipJsonBlanks cs ≠ []) (more : List Char) :
    skipJsonBlanks (cs ++ more) = skipJsonBlanks cs ++ more := by
  induction cs with
  | nil => exact absurd rfl h
  | cons c rest ih =>
      by_cases hc : isJsonBlank c = true
      · have hskip : ∀ t, skipJsonBlanks (c :: t) = skipJsonBlanks t :=
          fun t => List.dropWhile_cons_of_pos hc
        rw [hskip] at h
        rw [List.cons_append, hskip, hskip, ih h]
      · rw [Bool.not_eq_true] at hc
        rw [List.cons_append, skipJsonBlanks_cons _ hc, skipJsonBlanks_cons _ hc, List.cons_append]

theorem isEmpty_append_of_not {cs : List Char} (h : cs.isEmpty = false) (more : List Char) :
    (cs ++ more).isEmpty = false := by
  cases cs with
  | nil => exact absurd h.symm Bool.false_ne_true
  | cons c rest => rfl

/-- What may yet become the second half of a pair, if more follows. -/
def CutPair (cs : List Char) : Prop :=
  cs = [] ∨ cs = ['\\'] ∨ ∃ tail, cs = '\\' :: 'u' :: tail ∧ tail.length ≤ 4

/-- What begins like the second half of a pair is one, or may yet become one. -/
theorem cutPair_or_pair {cs more : List Char} {a b c d : Char} {rest : List Char}
    (h : cs ++ more = '\\' :: 'u' :: a :: b :: c :: d :: rest) :
    CutPair cs ∨ ∃ rest', cs = '\\' :: 'u' :: a :: b :: c :: d :: rest' := by
  match cs with
  | [] => exact Or.inl (Or.inl rfl)
  | [x] =>
      rw [(List.cons.inj h).1]
      exact Or.inl (Or.inr (Or.inl rfl))
  | x :: y :: tail =>
      simp only [List.cons_append, List.cons.injEq] at h
      rcases h with ⟨rfl, rfl, htail⟩
      -- With fewer than four digits the escape may still be completed.
      match tail with
      | [] => exact Or.inl (Or.inr (Or.inr ⟨_, rfl, by decide⟩))
      | [_] => exact Or.inl (Or.inr (Or.inr ⟨_, rfl, Nat.le_of_ble_eq_true rfl⟩))
      | [_, _] => exact Or.inl (Or.inr (Or.inr ⟨_, rfl, Nat.le_of_ble_eq_true rfl⟩))
      | [_, _, _] => exact Or.inl (Or.inr (Or.inr ⟨_, rfl, Nat.le_of_ble_eq_true rfl⟩))
      | a' :: b' :: c' :: d' :: rest' =>
          simp only [List.cons_append, List.cons.injEq] at htail
          rcases htail with ⟨rfl, rfl, rfl, rfl, -⟩
          exact Or.inr ⟨rest', rfl⟩

/-- An escaped number and what follows it, which may be the second half of a pair. -/
def finishEscape (n : Nat) (tail : List Char) : Option (Char × List Char) :=
  match tail with
  | '\\' :: 'u' :: a :: b :: c :: d :: rest =>
    if isHighSurrogate n && !rest.isEmpty then
      match hex4? a b c d with
      | none => none
      | some m =>
        if isLowSurrogate m then
          some (Char.ofNat (0x10000 + (n - 0xD800) * 1024 + (m - 0xDC00)), rest)
        else some (charOfPoint n, tail)
    else some (charOfPoint n, tail)
  | _ => some (charOfPoint n, tail)

theorem readUnicodeEscape_four (a b c d : Char) (tail : List Char) :
    readUnicodeEscape (a :: b :: c :: d :: tail) =
      if tail.isEmpty then none else (hex4? a b c d).bind fun n => finishEscape n tail := by
  have hfour : readUnicodeEscape (a :: b :: c :: d :: tail) =
      if tail.isEmpty then none
      else match hex4? a b c d with
        | none => none
        | some n => finishEscape n tail :=
    rfl
  rw [hfour]
  cases hex4? a b c d with
  | none => rfl
  | some n => rfl

theorem finishEscape_pair (n : Nat) (a b c d : Char) (rest : List Char) :
    finishEscape n ('\\' :: 'u' :: a :: b :: c :: d :: rest) =
      if isHighSurrogate n && !rest.isEmpty then
        match hex4? a b c d with
        | none => none
        | some m =>
          if isLowSurrogate m then
            some (Char.ofNat (0x10000 + (n - 0xD800) * 1024 + (m - 0xDC00)), rest)
          else some (charOfPoint n, '\\' :: 'u' :: a :: b :: c :: d :: rest)
      else some (charOfPoint n, '\\' :: 'u' :: a :: b :: c :: d :: rest) :=
  rfl

theorem finishEscape_append {n : Nat} {tail rest : List Char} {c : Char}
    (h : finishEscape n tail = some (c, rest)) (hcut : ¬ CutPair rest) (more : List Char) :
    finishEscape n (tail ++ more) = some (c, rest ++ more) := by
  unfold finishEscape at h
  split at h
  next a b d e tail' =>
    change finishEscape n ('\\' :: 'u' :: a :: b :: d :: e :: (tail' ++ more)) = _
    rw [finishEscape_pair]
    -- The second half is looked at only if something follows it, so a pair that ends the text is
    -- cut.
    by_cases hhigh : (isHighSurrogate n && !tail'.isEmpty) = true
    · rw [if_pos hhigh] at h
      rw [Bool.and_eq_true, Bool.not_eq_true'] at hhigh
      have hmore : (isHighSurrogate n && !(tail' ++ more).isEmpty) = true := by
        rw [isEmpty_append_of_not hhigh.2, hhigh.1]
        rfl
      rw [if_pos hmore]
      split at h
      next => exact absurd h nofun
      next m hm =>
        split at h
        next hlow =>
          rcases Prod.mk.inj (Option.some.inj h) with ⟨rfl, rfl⟩
          rw [if_pos hlow]
        next hlow =>
          rcases Prod.mk.inj (Option.some.inj h) with ⟨rfl, rfl⟩
          rw [if_neg hlow]
          rfl
    · rw [if_neg hhigh] at h
      cases h
      have hmore : ¬ (isHighSurrogate n && !(tail' ++ more).isEmpty) = true := by
        rw [Bool.and_eq_true] at hhigh ⊢
        rintro ⟨hn, -⟩
        have htail : ¬ tail'.isEmpty = false := fun hfull =>
          hhigh ⟨hn, congrArg not hfull⟩
        rw [Bool.not_eq_false, List.isEmpty_iff] at htail
        rw [htail] at hcut
        exact hcut (Or.inr (Or.inr ⟨_, rfl, Nat.le_refl 4⟩))
      rw [if_neg hmore]
      rfl
  -- No second half follows, and none is made by what is appended.
  next hnone =>
    cases h
    unfold finishEscape
    split
    next a b d e rest' heq =>
      rcases cutPair_or_pair heq with hpair | ⟨rest', rfl⟩
      · exact absurd hpair hcut
      · exact absurd rfl (hnone _ _ _ _ _)
    next => rfl

theorem readUnicodeEscape_append {cs rest : List Char} {c : Char}
    (h : readUnicodeEscape cs = some (c, rest)) (hcut : ¬ CutPair rest) (more : List Char) :
    readUnicodeEscape (cs ++ more) = some (c, rest ++ more) := by
  match cs with
  | a :: b :: d :: e :: tail =>
      rw [readUnicodeEscape_four] at h
      -- Four digits at the very end are refused, as no closing quote can follow.
      by_cases htail : tail.isEmpty = true
      · rw [if_pos htail] at h
        exact absurd h nofun
      · rw [if_neg htail] at h
        rw [Bool.not_eq_true] at htail
        rcases Option.bind_eq_some_iff.mp h with ⟨n, hn, hfinish⟩
        change readUnicodeEscape (a :: b :: d :: e :: (tail ++ more)) = _
        rw [readUnicodeEscape_four, isEmpty_append_of_not htail, if_neg Bool.false_ne_true, hn]
        exact finishEscape_append hfinish hcut more
  | [] => exact absurd h nofun
  | [_] => exact absurd h nofun
  | [_, _] => exact absurd h nofun
  | [_, _, _] => exact absurd h nofun

/-- There must be something left after the digits of an escape. -/
theorem readUnicodeEscape_short {tail : List Char} (h : tail.length ≤ 4) :
    readUnicodeEscape tail = none := by
  unfold readUnicodeEscape
  split
  next a b c d rest =>
    simp only [List.length_cons] at h
    have hrest : rest = [] := List.eq_nil_of_length_eq_zero (by omega)
    rw [hrest]
    rfl
  next => rfl

/-- A string is not over where a pair may be cut. -/
theorem CutPair.not_ok {cs : List Char} (h : CutPair cs) {start fuel : Nat}
    {done : List Char} {r : List Char × List Char} : readJsonString start fuel done cs ≠ .ok r := by
  intro hread
  cases fuel with
  | zero => cases hread
  | succ fuel =>
      rcases h with rfl | rfl | ⟨tail, rfl, hlength⟩
      · cases hread
      · cases hread
      · rw [readJsonString, if_neg (by decide), if_pos rfl] at hread
        simp only [readUnicodeEscape_short hlength] at hread
        cases hread

theorem readJsonString_numbered (start fuel : Nat) (done tail : List Char) :
    readJsonString start (fuel + 1) done ('\\' :: 'u' :: tail) =
      match readUnicodeEscape tail with
      | some (c, rest) => readJsonString start fuel (c :: done) rest
      | none => .error ⟨.unicodeEscape, unicodeFaultAt tail⟩ :=
  rfl

theorem readJsonString_lettered (start fuel : Nat) (done tail : List Char) {e : Char}
    (he : e ≠ 'u') :
    readJsonString start (fuel + 1) done ('\\' :: e :: tail) =
      match jsonEscape? e with
      | some c => readJsonString start fuel (c :: done) tail
      | none => .error ⟨.escape, tail.length + 2⟩ := by
  rw [readJsonString]
  · exact (if_neg (by decide)).trans (if_pos rfl)
  · exact he

theorem readJsonString_append {start start' : Nat} {n m : Nat} (hfuel : n ≤ m)
    {done cs s rest : List Char} (h : readJsonString start n done cs = .ok (s, rest))
    (more : List Char) : readJsonString start' m done (cs ++ more) = .ok (s, rest ++ more) := by
  induction n generalizing m done cs with
  | zero => cases h
  | succ n ih =>
      cases m with
      | zero => exact absurd hfuel (Nat.not_succ_le_zero n)
      | succ m =>
          -- The reader takes one character or one escape at a time, as the induction does.
          have hless := Nat.le_of_succ_le_succ hfuel
          cases cs with
          | nil => cases h
          | cons c tail =>
              by_cases hbackslash : c = '\\'
              · rw [hbackslash] at h ⊢
                cases tail with
                | nil => cases h
                | cons e tail =>
                    rw [List.cons_append, List.cons_append]
                    by_cases he : e = 'u'
                    · rw [he, readJsonString_numbered] at h ⊢
                      cases hescape : readUnicodeEscape tail with
                      | none =>
                          rw [hescape] at h
                          cases h
                      | some r =>
                          rw [hescape] at h
                          -- A string whose last escape may be half of a pair is not over.
                          have hcut : ¬ CutPair r.2 := fun hcut => hcut.not_ok h
                          rw [readUnicodeEscape_append hescape hcut]
                          exact ih hless h
                    · rw [readJsonString_lettered _ _ _ _ he] at h ⊢
                      cases hescape : jsonEscape? e with
                      | none =>
                          rw [hescape] at h
                          cases h
                      | some d =>
                          rw [hescape] at h
                          exact ih hless h
              · rw [List.cons_append, readJsonString.eq_def]
                rw [readJsonString.eq_def] at h
                simp only [] at h ⊢
                by_cases hquote : c = '"'
                · rw [if_pos hquote] at h ⊢
                  cases h
                  rfl
                rw [if_neg hquote, if_neg hbackslash] at h ⊢
                by_cases hcontrol : c.toNat < 0x20
                · rw [if_pos hcontrol] at h
                  cases h
                · rw [if_neg hcontrol] at h ⊢
                  exact ih hless h

/-- A numeral is over before something that does not go on with it. -/
structure Ends (cs : List Char) : Prop where
  ne_nil : cs ≠ []
  stops : Stops cs

/-- The characters of some kind at the front of a text, if another one follows. -/
theorem takeWhile_append_of_ne_nil {p : Char → Bool} {cs : List Char} (h : cs.dropWhile p ≠ [])
    (more : List Char) :
    (cs ++ more).takeWhile p = cs.takeWhile p ∧
      (cs ++ more).dropWhile p = cs.dropWhile p ++ more := by
  induction cs with
  | nil => exact absurd rfl h
  | cons c rest ih =>
      rw [List.cons_append]
      by_cases hc : p c = true
      · rw [List.dropWhile_cons_of_pos hc] at h ⊢
        rw [List.dropWhile_cons_of_pos hc, List.takeWhile_cons_of_pos hc,
          List.takeWhile_cons_of_pos hc, (ih h).1, (ih h).2]
        exact ⟨rfl, rfl⟩
      · rw [List.dropWhile_cons_of_neg hc, List.dropWhile_cons_of_neg hc,
          List.takeWhile_cons_of_neg hc, List.takeWhile_cons_of_neg hc]
        exact ⟨rfl, rfl⟩

theorem head?_append {cs : List Char} (h : cs ≠ []) (more : List Char) :
    (cs ++ more).head? = cs.head? := by
  cases cs with
  | nil => exact absurd rfl h
  | cons c rest => rfl

theorem drop_takeWhile (p : Char → Bool) (cs : List Char) :
    cs.drop (cs.takeWhile p).length = cs.dropWhile p := by
  have hsplit : cs.takeWhile p ++ cs.dropWhile p = cs := List.takeWhile_append_dropWhile
  calc cs.drop (cs.takeWhile p).length
      = (cs.takeWhile p ++ cs.dropWhile p).drop (cs.takeWhile p).length := by rw [hsplit]
    _ = cs.dropWhile p := List.drop_left

/-- The digits before a point, and what follows them. -/
theorem wholeDigits_append {cs : List Char} (h : cs.drop (wholeDigits cs).length ≠ [])
    (more : List Char) :
    wholeDigits (cs ++ more) = wholeDigits cs ∧
      (cs ++ more).drop (wholeDigits cs).length = cs.drop (wholeDigits cs).length ++ more := by
  have hne : cs ≠ [] := by
    rintro rfl
    exact h List.drop_nil
  -- A leading zero is all there is; else the digits end within the text, or nothing were left.
  by_cases hzero : cs.head? = some '0'
  · have hmore : (cs ++ more).head? = some '0' := (head?_append hne more).trans hzero
    have hone : wholeDigits cs = ['0'] := if_pos hzero
    have hlength : ['0'].length ≤ cs.length := List.length_pos_iff.mpr hne
    rw [hone, List.drop_append_of_le_length hlength]
    exact ⟨if_pos hmore, rfl⟩
  · have hmore : (cs ++ more).head? ≠ some '0' := (head?_append hne more).symm ▸ hzero
    have hwhole : wholeDigits cs = cs.takeWhile isAsciiDigit := if_neg hzero
    rw [hwhole, drop_takeWhile] at h
    rcases takeWhile_append_of_ne_nil h more with ⟨htake, hdrop⟩
    have hwhole' : wholeDigits (cs ++ more) = cs.takeWhile isAsciiDigit :=
      (if_neg hmore).trans htake
    rw [hwhole, hwhole', drop_takeWhile, ← hdrop, ← htake, drop_takeWhile]
    exact ⟨rfl, rfl⟩

/-- A point and the digits after it. -/
theorem takeFraction_append {cs fraction rest : List Char} (h : takeFraction cs = (fraction, rest))
    (hne : rest ≠ []) (hpoint : ∀ c ∈ rest.head?, c ≠ '.') (more : List Char) :
    takeFraction (cs ++ more) = (fraction, rest ++ more) := by
  unfold takeFraction at h
  split at h
  next tail =>
    simp only [] at h
    -- A point without digits is left where it is, and what is left has none in front.
    by_cases hdigits : (tail.takeWhile isAsciiDigit).isEmpty = true
    · rw [if_pos hdigits] at h
      cases h
      exact absurd rfl (hpoint '.' rfl)
    · rw [if_neg hdigits] at h
      cases h
      rcases takeWhile_append_of_ne_nil hne more with ⟨htake, hdrop⟩
      rw [List.cons_append, takeFraction, htake, hdrop, if_neg hdigits]
  next hnone =>
    cases h
    refine takeFraction_of_stops fun c hc => ?_
    rw [head?_append hne] at hc
    exact hpoint c hc

/-- A sign before something else. -/
theorem takeSign_append {cs : List Char} (h : (takeSign cs).2 ≠ []) (more : List Char) :
    takeSign (cs ++ more) = ((takeSign cs).1, (takeSign cs).2 ++ more) := by
  cases cs with
  | nil => exact absurd rfl h
  | cons c rest =>
      by_cases hplus : c = '+'
      · rw [hplus]
        rfl
      by_cases hminus : c = '-'
      · rw [hminus]
        rfl
      -- Any other character is no sign and is left where it is.
      have hnone : ∀ t, takeSign (c :: t) = ([], c :: t) := by
        intro t
        rw [takeSign]
        · exact fun _ heq => hplus (List.cons.inj heq).1
        · exact fun _ heq => hminus (List.cons.inj heq).1
      rw [List.cons_append, hnone, hnone]
      rfl

/-- An exponent, with its letter, sign and digits. -/
theorem takeExponent_append {cs exponent rest : List Char}
    (h : takeExponent cs = (exponent, rest)) (hne : rest ≠ [])
    (hletter : ∀ c ∈ rest.head?, c ≠ 'e' ∧ c ≠ 'E') (more : List Char) :
    takeExponent (cs ++ more) = (exponent, rest ++ more) := by
  cases cs with
  | nil =>
      cases h
      exact absurd rfl hne
  | cons c tail =>
      rw [List.cons_append]
      rw [takeExponent] at h ⊢
      by_cases hc : c = 'e' ∨ c = 'E'
      · rw [if_pos hc] at h ⊢
        simp only [] at h
        -- A letter without digits is left where it is, and what is left has none in front.
        by_cases hdigits : ((takeSign tail).2.takeWhile isAsciiDigit).isEmpty = true
        · rw [if_pos hdigits] at h
          cases h
          rcases hletter c rfl with ⟨hsmall, hlarge⟩
          exact absurd hc (not_or.mpr ⟨hsmall, hlarge⟩)
        · rw [if_neg hdigits] at h
          cases h
          have hsign : (takeSign tail).2 ≠ [] := by
            intro hnil
            rw [hnil] at hne
            exact hne rfl
          rcases takeWhile_append_of_ne_nil hne more with ⟨htake, hdrop⟩
          rw [takeSign_append hsign]
          simp only []
          rw [htake, hdrop, if_neg hdigits]
      · rw [if_neg hc] at h ⊢
        cases h
        rfl

theorem readUnsignedNumber_append {negative : Bool} {remaining remaining' : Nat}
    {body rest : List Char} {v : Value}
    (h : readUnsignedNumber negative remaining body = .ok (v, rest)) (hends : Ends rest)
    (more : List Char) :
    readUnsignedNumber negative remaining' (body ++ more) = .ok (v, rest ++ more) := by
  unfold readUnsignedNumber at h
  simp only [] at h
  by_cases hwhole : (wholeDigits body).isEmpty = true
  · rw [if_pos hwhole] at h
    exact absurd h nofun
  rw [if_neg hwhole] at h
  rcases hfraction : takeFraction (body.drop (wholeDigits body).length) with ⟨fraction, left⟩
  rw [hfraction] at h
  simp only [] at h
  rcases hexponent : takeExponent left with ⟨exponent, left'⟩
  rw [hexponent] at h
  simp only [] at h
  -- What is left of the numeral is what is left of the text.
  have hleft' : left' = rest := by
    split at h
    next =>
      split at h
      next => exact absurd h nofun
      next =>
        cases h
        rfl
    next =>
      cases h
      rfl
  subst hleft'
  -- Nor does the text end before the exponent, and no point begins it: a numeral that is
  -- over cannot go on with either.
  have hleft : left ≠ [] ∧ ∀ c ∈ left.head?, c ≠ '.' := by
    refine ⟨?_, ?_⟩
    · rintro rfl
      cases hexponent
      exact hends.ne_nil rfl
    · rintro c hc rfl
      rcases List.head?_eq_some_iff.mp hc with ⟨tail, rfl⟩
      cases hexponent
      exact (hends.stops '.' rfl).2.1 rfl
  have hbody : body.drop (wholeDigits body).length ≠ [] := by
    intro hnil
    rw [hnil] at hfraction
    cases hfraction
    exact hleft.1 rfl
  -- So every part of the numeral is the same with more after it.
  rcases wholeDigits_append hbody more with ⟨hdigits, hdrop⟩
  unfold readUnsignedNumber
  simp only []
  rw [hdigits, hdrop, if_neg hwhole, takeFraction_append hfraction hleft.1 hleft.2]
  simp only []
  rw [takeExponent_append hexponent hends.ne_nil fun c hc => (hends.stops c hc).2.2]
  simp only []
  split at h
  next hinteger =>
    rw [if_pos hinteger]
    split at h
    next => exact absurd h nofun
    next hshort =>
      rw [if_neg hshort]
      cases h
      rfl
  next hinteger =>
    rw [if_neg hinteger]
    cases h
    rfl

theorem readJsonNumber_append {cs rest : List Char} {v : Value}
    (h : readJsonNumber cs = .ok (v, rest)) (hends : Ends rest) (more : List Char) :
    readJsonNumber (cs ++ more) = .ok (v, rest ++ more) := by
  cases cs with
  | nil => exact absurd h nofun
  | cons c body =>
      by_cases hminus : c = '-'
      · rw [hminus] at h ⊢
        exact readUnsignedNumber_append h hends more
      · have hnone : ∀ t,
            readJsonNumber (c :: t) = readUnsignedNumber false (c :: t).length (c :: t) := by
          intro t
          rw [readJsonNumber]
          exact fun _ heq => hminus (List.cons.inj heq).1
        rw [hnone] at h
        rw [List.cons_append, hnone]
        exact readUnsignedNumber_append h hends more

/-- A constant is read as one. -/
theorem readJsonAtom_constant {entry : String × Value} (h : entry ∈ jsonConstants)
    (rest : List Char) : readJsonAtom (entry.1.toList ++ rest) = .ok (entry.2, rest) := by
  unfold jsonConstants at h
  simp only [List.mem_cons, List.not_mem_nil, or_false] at h
  rcases h with rfl | rfl | rfl | rfl | rfl | rfl
  · rfl
  · rfl
  · rfl
  · rfl
  · rfl
  · rfl

/-- What is read as an atom is a constant or a number. -/
theorem readJsonAtom_cases {cs rest : List Char} {v : Value}
    (h : readJsonAtom cs = .ok (v, rest)) :
    (∃ entry ∈ jsonConstants, cs = entry.1.toList ++ rest ∧ v = entry.2) ∨
      readJsonNumber cs = .ok (v, rest) := by
  unfold readJsonAtom at h
  split at h
  -- A word was found, and what it leaves is what was read after it.
  next r hfind =>
    cases h
    rcases List.exists_of_findSome?_eq_some hfind with ⟨entry, hentry, hword⟩
    rcases Option.map_eq_some_iff.mp hword with ⟨after, hafter, hr⟩
    cases hr
    unfold afterWord? at hafter
    by_cases hstart : entry.1.toList.isPrefixOf cs = true
    · rw [if_pos hstart] at hafter
      rcases List.isPrefixOf_iff_prefix.mp hstart with ⟨tail, rfl⟩
      rw [← String.length_toList, List.drop_left] at hafter
      rw [← Option.some.inj hafter]
      exact Or.inl ⟨entry, hentry, rfl, rfl⟩
    · rw [if_neg hstart] at hafter
      exact absurd hafter nofun
  next => exact Or.inr h

theorem readUnsignedNumber_begins {negative : Bool} {remaining : Nat} {body : List Char}
    {r : Value × List Char} (h : readUnsignedNumber negative remaining body = .ok r) :
    ∃ d tail, body = d :: tail ∧ isAsciiDigit d = true := by
  unfold readUnsignedNumber at h
  simp only [] at h
  by_cases hwhole : (wholeDigits body).isEmpty = true
  · rw [if_pos hwhole] at h
    exact absurd h nofun
  · cases body with
    | nil => exact absurd rfl hwhole
    | cons d tail =>
        refine ⟨d, tail, rfl, ?_⟩
        by_cases hzero : d = '0'
        · rw [hzero]
          rfl
        · have hnot : ¬ (d :: tail).head? = some '0' := fun heq => hzero (Option.some.inj heq)
          -- Were it no digit, there would be none at the front.
          refine Decidable.byContradiction fun hd => hwhole ?_
          rw [wholeDigits, if_neg hnot, List.takeWhile_cons_of_neg hd]
          rfl

/-- A number begins with a digit, or with a sign and a digit. -/
theorem readJsonNumber_begins {cs : List Char} {r : Value × List Char}
    (h : readJsonNumber cs = .ok r) :
    ∃ negative d body, cs = signOf negative ++ d :: body ∧ isAsciiDigit d = true := by
  unfold readJsonNumber at h
  split at h
  next body =>
    rcases readUnsignedNumber_begins h with ⟨d, tail, rfl, hd⟩
    exact ⟨true, d, tail, rfl, hd⟩
  next =>
    rcases readUnsignedNumber_begins h with ⟨d, tail, rfl, hd⟩
    exact ⟨false, d, tail, rfl, hd⟩

theorem readJsonAtom_append {cs rest : List Char} {v : Value}
    (h : readJsonAtom cs = .ok (v, rest)) (hends : Ends rest) (more : List Char) :
    readJsonAtom (cs ++ more) = .ok (v, rest ++ more) := by
  rcases readJsonAtom_cases h with ⟨entry, hentry, rfl, rfl⟩ | hnumber
  · rw [List.append_assoc]
    exact readJsonAtom_constant hentry (rest ++ more)
  · have hmore := readJsonNumber_append hnumber hends more
    -- No constant begins as a number does.
    rcases readJsonNumber_begins hnumber with ⟨negative, d, body, rfl, hd⟩
    rw [← hmore, List.append_assoc]
    exact readJsonAtom_signOf negative (body ++ more) hd

end Docket
