import Docket.Proofs.Yaml.Faults
import Docket.Yaml.Token

/-!
# Faults of tokens

What may be wrong with a text shows in the text itself. A character of too large a
number is written as a backslash, a large `U` and a digit beyond seven. A tag is written
with an exclamation mark, and without a tag no text of a scalar has a fault of its own
but for one that needs a great many colons.

The scanner keeps two things on its way. What is left is the end of the text, so that a
mark seen there is one of the text. And every token so far fits the text, which is to say
that it is no tag unless the text has the mark, and that a plain scalar has only such
faults, under the tag it speaks for, as may arise.

## Main definitions

* `YamlFault.MayArise`: The faults that a text may have.
* `YamlToken.Fits`: The tokens that a text may have.

## Theorems

* `readDoubleQuoted_fault`: What may be wrong between double quotes.
* `readPlain_text`: What is known of the text of a plain scalar.
* `yamlTokens_fit`: All tokens of a text fit it.
-/

namespace Docket

/-- Whether a text has the escape of a number that is too large for a character: eight
    digits follow the letter, and the first is beyond seven. -/
def HasLargeEscape (cs : List Char) : Prop :=
  ∃ d v, hexValue? d = some v ∧ 8 ≤ v ∧ ['\\', 'U', d] <:+: cs

/-- The faults that a text may have. -/
def YamlFault.MayArise (cs : List Char) : YamlFault → Prop
  | .malformed => True
  | .characterTooLarge => HasLargeEscape cs
  | .tooManyParts => '!' ∈ cs ∨ 174 ≤ cs.count ':'
  | .unknownWord _ => '!' ∈ cs
  | .emptyNumber => '!' ∈ cs
  | .noTimestamp => '!' ∈ cs

/-- Whether the text of a scalar has only such faults under a tag as may arise. -/
def YamlTag.Suits (cs : List Char) (tag : YamlTag) (text : List Char) : Prop :=
  Lands (YamlFault.MayArise cs) (fun _ => True) (yamlLeaf tag text)

/-- In a text with the mark of tags any scalar may have any tag. -/
theorem suits_of_mark {cs : List Char} (h : '!' ∈ cs) (tag : YamlTag) (text : List Char) :
    tag.Suits cs text := by
  refine lands_of_error fun f hf => ?_
  have hsmall := yamlLeaf_fault hf
  cases f with
  | malformed => exact trivial
  | characterTooLarge => exact absurd rfl hsmall
  | tooManyParts => exact Or.inl h
  | unknownWord word => exact h
  | emptyNumber => exact h
  | noTimestamp => exact h

/-- A plain scalar may have the tag that it speaks for. -/
theorem suits_plain {cs text : List Char} (hlast : text.getLast? ≠ some '\n')
    (hcount : text.count ':' ≤ cs.count ':') : (yamlPlainTag text).Suits cs text := by
  refine lands_of_error fun f hf => ?_
  rcases yamlPlainTag_fault hlast hf with rfl | ⟨rfl, hmany⟩
  · exact trivial
  · exact Or.inr (Nat.le_trans hmany hcount)

/-! ## Double quotes -/

theorem HasLargeEscape.cons {cs : List Char} (h : HasLargeEscape cs) (c : Char) :
    HasLargeEscape (c :: cs) := by
  obtain ⟨d, v, hv, hlarge, hin⟩ := h
  exact ⟨d, v, hv, hlarge, hin.trans (List.suffix_cons c cs).isInfix⟩

namespace YamlQuoteState

/-- Whether the reader of a double-quoted text may meet a number that is too large: it is
    ahead, or the reader stands within it. -/
def MeetsLarge (cs : List Char) : YamlQuoteState → Prop
  | .text _ => HasLargeEscape cs
  | .escape => HasLargeEscape ('\\' :: cs)
  | .number left value =>
    HasLargeEscape cs ∨ 2 ^ 31 < (value + 1) * 16 ^ max left 1 ∧
      (left = 8 ∧ value = 0 → HasLargeEscape ('\\' :: 'U' :: cs))

theorem meetsLarge_cons {cs : List Char} (h : HasLargeEscape cs) (c : Char)
    (state : YamlQuoteState) : state.MeetsLarge (c :: cs) := by
  cases state with
  | text gap => exact h.cons c
  | escape => exact (h.cons c).cons '\\'
  | number left value => exact Or.inl (h.cons c)

theorem meetsLarge_letter {c : Char} {left : Nat} {cs : List Char}
    (hc : yamlEscapeDigits? c = some left) (h : MeetsLarge cs (.number left 0)) :
    MeetsLarge (c :: cs) .escape := by
  rcases h with hahead | ⟨hlarge, hfirst⟩
  · exact meetsLarge_cons hahead c .escape
  · -- Two digits and four are too few for a large number.
    unfold yamlEscapeDigits? at hc
    split at hc
    · obtain rfl := Option.some.inj hc
      exact absurd hlarge (by decide)
    · obtain rfl := Option.some.inj hc
      exact absurd hlarge (by decide)
    · obtain rfl := Option.some.inj hc
      exact hfirst ⟨rfl, rfl⟩
    · exact absurd hc nofun

theorem hexValue_lt {c : Char} {v : Nat} (h : hexValue? c = some v) : v < 16 := by
  -- Characters are ordered by their numbers.
  have hle : ∀ {last : Char}, c ≤ last → c.toNat ≤ last.toNat := id
  unfold hexValue? at h
  split at h
  next hin =>
    have hlast := hle hin.2
    grind
  split at h
  next hin =>
    have hlast := hle hin.2
    grind
  split at h
  next hin =>
    have hlast := hle hin.2
    grind
  · exact absurd h nofun

theorem meetsLarge_digit {c : Char} {left value v : Nat} {cs : List Char}
    (hc : hexValue? c = some v) (hleft : ¬ left ≤ 1)
    (h : MeetsLarge cs (.number (left - 1) (value * 16 + v))) :
    MeetsLarge (c :: cs) (.number left value) := by
  rcases h with hahead | ⟨hlarge, -⟩
  · exact meetsLarge_cons hahead c _
  have hv := hexValue_lt hc
  obtain ⟨k, rfl⟩ : ∃ k, left = k + 2 := ⟨left - 2, by omega⟩
  have hless : k + 2 - 1 = k + 1 := rfl
  rw [hless, Nat.max_eq_left (Nat.le_add_left 1 k)] at hlarge
  -- A digit takes away from what the number may still become, and never adds to it.
  have hbound : (value * 16 + v + 1) * 16 ^ (k + 1) ≤ (value + 1) * 16 ^ (k + 2) := by
    calc (value * 16 + v + 1) * 16 ^ (k + 1) ≤ ((value + 1) * 16) * 16 ^ (k + 1) :=
          Nat.mul_le_mul_right _ (by omega)
      _ = (value + 1) * 16 ^ (k + 2) := by rw [Nat.mul_assoc, ← Nat.pow_succ']
  refine Or.inr ⟨?_, ?_⟩
  · rw [Nat.max_eq_left (by omega)]
    exact Nat.lt_of_lt_of_le hlarge hbound
  · rintro ⟨height, rfl⟩
    obtain rfl : k = 6 := by omega
    refine ⟨c, v, hc, by omega, ['\\', 'U', c].prefix_append cs |>.isInfix⟩

/-- The last digit of a number shows that it is too large only if it is. -/
theorem meetsLarge_last {c : Char} {left value v : Nat} {cs : List Char} {f : YamlFault}
    (hc : hexValue? c = some v) (hleft : left ≤ 1)
    (h : yamlCharacter (value * 16 + v) = .error f) :
    f = .malformed ∨ f = .characterTooLarge ∧ MeetsLarge (c :: cs) (.number left value) := by
  have hv := hexValue_lt hc
  unfold yamlCharacter at h
  split at h
  · exact absurd h nofun
  split at h
  · exact Or.inl (Except.error.inj h).symm
  · refine Or.inr ⟨(Except.error.inj h).symm, Or.inr ⟨?_, fun ⟨height, _⟩ => by omega⟩⟩
    rw [Nat.max_eq_right hleft]
    omega

end YamlQuoteState

/-- What may be wrong with a double-quoted text. -/
theorem readDoubleQuoted_fault {done : List Char} {state : YamlQuoteState} {cs : List Char}
    {f : YamlFault} (h : readDoubleQuoted done state cs = .error f) :
    f = .malformed ∨ f = .characterTooLarge ∧ state.MeetsLarge cs := by
  -- Whatever the reader does with a character, what it meets behind it was ahead before.
  have hahead : ∀ {g : YamlFault} {c : Char} {rest : List Char} (state : YamlQuoteState),
      g = .malformed ∨ g = .characterTooLarge ∧ HasLargeEscape rest →
        g = .malformed ∨ g = .characterTooLarge ∧ state.MeetsLarge (c :: rest) :=
    fun state hg => hg.imp_right fun hm => ⟨hm.1, YamlQuoteState.meetsLarge_cons hm.2 _ state⟩
  fun_induction readDoubleQuoted done state cs with
  | case1 | case2 | case5 | case9 | case14 | case16 | case17 =>
      exact Or.inl (Except.error.inj h).symm
  | case6 => exact absurd h nofun
  | case3 done rest hmark gap ih =>
      exact hahead _ ((ih h).imp_right fun hm => ⟨hm.1, HasLargeEscape.cons hm.2 '\n'⟩)
  | case4 done rest hmark ih =>
      exact hahead _ ((ih h).imp_right fun hm => ⟨hm.1, HasLargeEscape.cons hm.2 '\n'⟩)
  | case7 done rest gap hreturn hquote ih => exact ih h
  | case8 done c rest hreturn gap hquote hback hblank ih => exact hahead _ (ih h)
  | case10 done c rest hreturn gap hquote hback hblank b more hbreak hmark ih =>
      exact hahead _ (ih h)
  | case11 done c rest hreturn gap hquote hback hblank hbreak ih => exact hahead _ (ih h)
  | case12 done c rest hreturn d hescape ih => exact hahead _ (ih h)
  | case13 done c rest hreturn left hdigits hescape ih =>
      exact (ih h).imp_right fun hm => ⟨hm.1, YamlQuoteState.meetsLarge_letter hdigits hm.2⟩
  | case15 done c rest hreturn b hbreak hdigits hescape hmark ih => exact hahead _ (ih h)
  | case18 done c rest hreturn left value v hhex hleft d hchar ih => exact hahead _ (ih h)
  | case19 done c rest hreturn left value v hhex hleft g hchar =>
      rw [← Except.error.inj h]
      exact YamlQuoteState.meetsLarge_last hhex hleft hchar
  | case20 done c rest hreturn left value v hhex hleft ih =>
      exact (ih h).imp_right fun hm => ⟨hm.1, YamlQuoteState.meetsLarge_digit hhex hleft hm.2⟩

/-! ## Plain scalars -/

theorem takeYamlBreak_eq_some {c b : Char} {more : List Char}
    (h : takeYamlBreak? [c] = some (b, more)) : b ≠ ':' := by
  unfold takeYamlBreak? at h
  grind

theorem takeYamlBreak_eq_none {c : Char} (h : takeYamlBreak? [c] = none) : c ≠ '\n' := by
  rintro rfl
  exact absurd h nofun

namespace YamlGap

/-- Whether a gap stands for no colon. -/
def IsClear (g : YamlGap) : Prop := ':' ∉ g.text

theorem isClear_addBlank {g : YamlGap} (h : g.IsClear) {c : Char} (hc : c ≠ ':') :
    (g.addBlank c).IsClear := by
  cases g with
  | none => exact List.not_mem_cons_of_ne_of_not_mem hc.symm List.not_mem_nil
  | blanks text => exact List.not_mem_cons_of_ne_of_not_mem hc.symm h
  | lines first more => exact h

theorem text_lines_some {d : Char} (hd : d ≠ '\n') (more : List Char) :
    (lines (some d) more).text = more ++ [d] := by
  unfold text
  split <;> simp_all

theorem isClear_break {c : Char} (hc : c ≠ ':') : (lines (some c) []).IsClear := by
  by_cases hnewline : c = '\n'
  · subst hnewline
    exact List.not_mem_cons_of_ne_of_not_mem (by decide) List.not_mem_nil
  · unfold IsClear
    rw [text_lines_some hnewline]
    exact List.not_mem_cons_of_ne_of_not_mem hc.symm List.not_mem_nil

theorem isClear_addBreak {g : YamlGap} (h : g.IsClear) {c : Char} (hc : c ≠ ':') :
    (g.addBreak c).IsClear := by
  cases g with
  | none => exact isClear_break hc
  | blanks text => exact isClear_break hc
  | lines first more =>
      cases first with
      | none => exact List.not_mem_cons_of_ne_of_not_mem hc.symm h
      | some d =>
          -- A first newline that more breaks follow is folded away.
          by_cases hnewline : d = '\n'
          · subst hnewline
            cases more with
            | nil => exact List.not_mem_cons_of_ne_of_not_mem hc.symm List.not_mem_nil
            | cons b more => exact List.not_mem_cons_of_ne_of_not_mem hc.symm h
          · unfold IsClear at h ⊢
            rw [addBreak, text_lines_some hnewline]
            rw [text_lines_some hnewline] at h
            exact List.not_mem_cons_of_ne_of_not_mem hc.symm h

end YamlGap

/-- What is known of the text of a plain scalar: it does not end with a line break, and
    it has no more colons than what it is read from. -/
theorem readPlain_text (inFlow : Bool) (indent column : Nat) {done : List Char} (cs : List Char)
    {gap : YamlGap} (hdone : done.head? ≠ some '\n') (hgap : gap.IsClear) :
    (readPlain inFlow indent done gap column cs).text.getLast? ≠ some '\n' ∧
      (readPlain inFlow indent done gap column cs).text.count ':' ≤
        done.count ':' + cs.count ':' := by
  -- Where the text ends it is what has been taken over so far, the last character first.
  have hstop : ∀ {done : List Char} (rest : List Char), done.head? ≠ some '\n' →
      done.reverse.getLast? ≠ some '\n' ∧
        done.reverse.count ':' ≤ done.count ':' + rest.count ':' := by
    intro done rest hdone
    rw [List.getLast?_reverse, List.count_reverse]
    exact ⟨hdone, Nat.le_add_right _ _⟩
  have hmore : ∀ {n : Nat} {done rest : List Char} (c : Char),
      n ≤ done.count ':' + rest.count ':' → n ≤ done.count ':' + (c :: rest).count ':' :=
    fun c hn => Nat.le_trans hn (Nat.add_le_add_left List.count_le_count_cons _)
  fun_induction readPlain inFlow indent done gap column cs with
  | case1 | case2 | case5 | case7 => exact hstop _ hdone
  | case3 done gap column rest hmark ih =>
      obtain ⟨hlast, hcount⟩ := ih hdone (YamlGap.isClear_addBreak hgap (by decide))
      exact ⟨hlast, hmore '\r' (hmore '\n' hcount)⟩
  | case4 done gap column rest hreturn ih =>
      obtain ⟨hlast, hcount⟩ := ih hdone (YamlGap.isClear_addBlank hgap (by decide))
      exact ⟨hlast, hmore ' ' hcount⟩
  | case6 done gap column c rest hreturn hblank b more hbreak hmark ih =>
      obtain ⟨hlast, hcount⟩ :=
        ih hdone (YamlGap.isClear_addBreak hgap (takeYamlBreak_eq_some hbreak))
      exact ⟨hlast, hmore c hcount⟩
  | case8 done gap column c rest hreturn hblank hbreak hends ih =>
      obtain ⟨hlast, hcount⟩ := ih (fun h => takeYamlBreak_eq_none hbreak (Option.some.inj h))
        List.not_mem_nil
      refine ⟨hlast, Nat.le_trans hcount (Nat.le_of_eq ?_)⟩
      -- The gap that goes before the character has no colon.
      have hzero : gap.text.count ':' = 0 := List.count_eq_zero.mpr hgap
      rw [List.count_cons, List.count_cons, List.count_append, hzero]
      omega

/-! ## Tokens -/

/-- The tokens that a text may have: only a text with the mark of tags has tags, and only
    faults that may arise are met. -/
def YamlToken.Fits (cs : List Char) : YamlToken → Prop
  | .broken f => f.MayArise cs
  | .tag .. => '!' ∈ cs
  | .scalar text true => (yamlPlainTag text).Suits cs text
  | _ => True

theorem readTag?_fits {cs ds rest : List Char} {t : YamlToken} (h : '!' ∈ cs)
    (ht : readTag? ds = some (t, rest)) : t.Fits cs := by
  -- All forms of a tag come together where the end of the word is looked at.
  have hjoin : ∀ {handle : Option (List Char)} {name more : List Char},
      (if atYamlSpace more then some (YamlToken.tag handle name, more) else none) =
        some (t, rest) → t.Fits cs := by
    intro handle name more hend
    split at hend
    · rw [← (Prod.mk.inj (Option.some.inj hend)).1]
      exact h
    · exact absurd hend nofun
  unfold readTag? at ht
  dsimp only at ht
  split at ht
  · obtain ⟨r, -, ht⟩ := Option.bind_eq_some_iff.mp ht
    obtain ⟨after, -, ht⟩ := Option.bind_eq_some_iff.mp ht
    exact hjoin ht
  split at ht
  · exact hjoin ht
  split at ht
  · obtain ⟨handle, -, ht⟩ := Option.bind_eq_some_iff.mp ht
    obtain ⟨r, -, ht⟩ := Option.bind_eq_some_iff.mp ht
    exact hjoin ht
  · obtain ⟨r, -, ht⟩ := Option.bind_eq_some_iff.mp ht
    exact hjoin ht

theorem readDirective?_fits (cs : List Char) {ds rest : List Char} {t : YamlToken}
    (ht : readDirective? ds = some (t, rest)) : t.Fits cs := by
  unfold readDirective? at ht
  dsimp only at ht
  split at ht
  · exact absurd ht nofun
  obtain ⟨⟨u, more⟩, hu, ht⟩ := Option.bind_eq_some_iff.mp ht
  obtain ⟨after, -, ht⟩ := Option.bind_eq_some_iff.mp ht
  obtain ⟨rfl, -⟩ := Prod.mk.inj (Option.some.inj ht)
  -- A version, a handle for tags, or a directive that is passed over.
  unfold readDirectiveValue? at hu
  dsimp only at hu
  split at hu
  · obtain ⟨major, -, hu⟩ := Option.bind_eq_some_iff.mp hu
    obtain ⟨point, -, hu⟩ := Option.bind_eq_some_iff.mp hu
    obtain ⟨minor, -, hu⟩ := Option.bind_eq_some_iff.mp hu
    split at hu
    · obtain ⟨rfl, -⟩ := Prod.mk.inj (Option.some.inj hu)
      exact trivial
    · exact absurd hu nofun
  split at hu
  · obtain ⟨handle, -, hu⟩ := Option.bind_eq_some_iff.mp hu
    obtain ⟨blank, -, hu⟩ := Option.bind_eq_some_iff.mp hu
    obtain ⟨name, -, hu⟩ := Option.bind_eq_some_iff.mp hu
    split at hu
    · obtain ⟨rfl, -⟩ := Prod.mk.inj (Option.some.inj hu)
      exact trivial
    · exact absurd hu nofun
  · obtain ⟨rfl, -⟩ := Prod.mk.inj (Option.some.inj hu)
    exact trivial

theorem readSingleQuoted_fault {done : List Char} {gap : YamlGap} {cs : List Char} {f : YamlFault}
    (h : readSingleQuoted done gap cs = .error f) : f = .malformed := by
  fun_induction readSingleQuoted done gap cs with
  | case1 | case3 | case7 => exact (Except.error.inj h).symm
  | case5 => exact absurd h nofun
  | case2 done gap rest ih => exact ih h
  | case4 done gap rest hmark ih => exact ih h
  | case6 done gap c rest hdouble hreturn hquote hblank ih => exact ih h
  | case8 done gap c rest hdouble hreturn hquote hblank b more hbreak hmark ih => exact ih h
  | case9 done gap c rest hdouble hreturn hquote hblank hbreak ih => exact ih h

/-! ## Places -/

namespace YamlCursor

theorem next_suffix (p : YamlCursor) : p.next.rest <:+ p.rest := by
  unfold next
  split
  · exact List.suffix_refl _
  next c rest hrest =>
    rw [hrest]
    repeat' split
    all_goals exact List.suffix_cons _ _

theorem advance_suffix (p : YamlCursor) (n : Nat) : (p.advance n).rest <:+ p.rest := by
  induction n generalizing p with
  | zero => exact List.suffix_refl _
  | succ n ih => exact (ih p.next).trans (next_suffix p)

end YamlCursor

namespace YamlScan

variable {cs : List Char} {s : YamlScan}

/-- What holds while tokens are collected: what is left is the end of the text, and all
    tokens so far fit. -/
structure Fits (cs : List Char) (s : YamlScan) : Prop where
  place : s.place.rest <:+ cs
  tokens : ∀ t ∈ s.tokens, t.Fits cs

/-- A step of the scanner goes on with tokens that fit, or fails as it may. -/
abbrev Goes (cs : List Char) (x : Except YamlFault YamlScan) : Prop :=
  Lands (YamlFault.MayArise cs) (Fits cs) x

theorem Fits.push (h : s.Fits cs) {t : YamlToken} (ht : t.Fits cs) : (s.push t).Fits cs :=
  ⟨h.place, List.forall_mem_cons.mpr ⟨ht, h.tokens⟩⟩

theorem mem_insertBehind {α : Type} {a b : α} {n : Nat} {xs : List α}
    (h : b ∈ insertBehind a n xs) : b = a ∨ b ∈ xs := by
  induction n generalizing xs with
  | zero => exact List.mem_cons.mp h
  | succ n ih =>
      cases xs with
      | nil => exact Or.inl (List.mem_singleton.mp h)
      | cons x rest =>
          rcases List.mem_cons.mp h with rfl | hrest
          · exact Or.inr List.mem_cons_self
          · exact (ih hrest).imp_right (List.mem_cons_of_mem _)

theorem Fits.keys (h : s.Fits cs) (keys : List (Option YamlKeyPlace)) :
    Fits cs { s with keys := keys } :=
  ⟨h.place, h.tokens⟩

theorem Fits.insert (h : s.Fits cs) (number : Nat) {t : YamlToken} (ht : t.Fits cs) :
    (s.insert number t).Fits cs :=
  ⟨h.place, fun u hu => (mem_insertBehind hu).elim (fun heq => heq ▸ ht) (h.tokens u)⟩

theorem Fits.moveTo (h : s.Fits cs) (rest : List Char) : (s.moveTo rest).Fits cs :=
  ⟨(s.place.advance_suffix _).trans h.place, h.tokens⟩

theorem Fits.take (h : s.Fits cs) (n : Nat) {t : YamlToken} (ht : t.Fits cs) :
    (s.take n t).Fits cs :=
  ⟨(s.place.advance_suffix n).trans h.place, (h.push ht).tokens⟩

theorem Fits.allow (h : s.Fits cs) (allowed : Bool) : (s.allow allowed).Fits cs :=
  ⟨h.place, h.tokens⟩

theorem fits_replicate (h : s.Fits cs) (n : Nat) :
    ∀ t ∈ List.replicate n YamlToken.blockEnd ++ s.tokens, t.Fits cs := by
  intro t ht
  rcases List.mem_append.mp ht with hend | htoken
  · rw [List.eq_of_mem_replicate hend]
    exact trivial
  · exact h.tokens t htoken

theorem Fits.unwind (h : s.Fits cs) (column : Nat) : (s.unwind column).Fits cs :=
  ⟨h.place, fits_replicate h _⟩

theorem Fits.unwindAll (h : s.Fits cs) : s.unwindAll.Fits cs :=
  ⟨h.place, fits_replicate h _⟩

theorem Fits.openAt (h : s.Fits cs) (column number : Nat) {t : YamlToken} (ht : t.Fits cs) :
    (s.openAt column number t).Fits cs := by
  unfold YamlScan.openAt
  split
  · exact ⟨h.place, (h.insert number ht).tokens⟩
  · exact h

theorem Fits.forgetStale (h : s.Fits cs) : Goes cs s.forgetStale := by
  unfold YamlScan.forgetStale
  dsimp only
  split
  · exact trivial
  · exact h.keys _

theorem Fits.forgetKey (h : s.Fits cs) : Goes cs s.forgetKey := by
  unfold YamlScan.forgetKey
  split
  · split
    · exact trivial
    · exact ⟨h.place, h.tokens⟩
  · exact h

theorem Fits.rememberKey (h : s.Fits cs) : Goes cs s.rememberKey := by
  unfold YamlScan.rememberKey
  dsimp only
  split
  · exact h
  · exact h.forgetKey.bind fun t ht => ht.keys _

theorem Fits.skipBlanks (h : s.Fits cs) : s.skipBlanks.Fits cs := by
  unfold YamlScan.skipBlanks
  dsimp only
  split
  · exact (h.moveTo _).allow true
  · exact h.moveTo _

theorem Fits.outermost (h : s.Fits cs) : Goes cs s.outermost :=
  h.unwindAll.forgetKey.bind fun _ ht => ht.allow false

theorem Fits.openBracket (h : s.Fits cs) {t : YamlToken} (ht : t.Fits cs) :
    Goes cs (s.openBracket t) :=
  h.rememberKey.bind fun _ hu => ((hu.keys _).allow true).take 1 ht

theorem Fits.closeBracket (h : s.Fits cs) {t : YamlToken} (ht : t.Fits cs) :
    Goes cs (s.closeBracket t) :=
  h.forgetKey.bind fun _ hu => ((hu.keys _).allow false).take 1 ht

theorem Fits.openHere (h : s.Fits cs) {t : YamlToken} (ht : t.Fits cs) :
    Goes cs (s.openHere t) := by
  unfold YamlScan.openHere
  split
  · exact h
  split
  · exact h.openAt _ _ ht
  · exact trivial

theorem Fits.colon (h : s.Fits cs) : Goes cs s.colon := by
  unfold YamlScan.colon
  split
  next k rest hkeys =>
    have hkey : ({ s with keys := none :: rest }.insert k.token .key).Fits cs :=
      (h.keys _).insert _ (t := .key) trivial
    dsimp only
    split
    · exact (hkey.allow false).take 1 trivial
    · exact ((hkey.openAt _ _ (t := .blockMap) trivial).allow false).take 1 trivial
  next =>
    refine Lands.bind (h.openHere trivial) fun t ht => ?_
    exact (ht.allow _).forgetKey.bind fun u hu => hu.take 1 trivial

theorem Fits.keyStart (h : s.Fits cs) {read : Except YamlFault (YamlToken × List Char)}
    (hread : Lands (YamlFault.MayArise cs) (fun r => r.1.Fits cs) read) :
    Goes cs (s.keyStart read) :=
  h.rememberKey.bind fun _ ht => hread.bind fun _ hr => ((ht.allow false).push hr).moveTo _

theorem Fits.plainScalar (h : s.Fits cs) : Goes cs s.plainScalar := by
  refine h.rememberKey.bind fun t ht => ?_
  have hnone : ([] : List Char).head? ≠ some '\n' := nofun
  have hclear : YamlGap.none.IsClear := List.not_mem_nil
  obtain ⟨hlast, hcount⟩ := readPlain_text t.inFlow t.inner 0 t.place.rest hnone hclear
  refine ((ht.allow _).push ?_).moveTo _
  refine suits_plain hlast (Nat.le_trans hcount ?_)
  rw [List.count_nil, Nat.zero_add]
  exact ht.place.sublist.count_le _

theorem Fits.blockScalar (h : s.Fits cs) (folded : Bool) (rest : List Char) :
    Goes cs (s.blockScalar folded rest) := by
  refine (h.allow true).forgetKey.bind fun t ht => ?_
  cases readBlockScalar folded t.inner rest with
  | none => exact trivial
  | some r => exact (ht.push (t := .scalar r.1 false) trivial).moveTo r.2

/-- The next token fits if it is one of the text. -/
theorem Fits.token (h : s.Fits cs) {c : Char} {rest : List Char} (hrest : c :: rest <:+ cs) :
    Goes cs (s.token c rest) := by
  unfold YamlScan.token
  dsimp only
  split
  · refine h.outermost.bind fun t ht => ?_
    cases hread : readDirective? rest with
    | none => exact trivial
    | some r => exact (ht.push (readDirective?_fits cs hread)).moveTo r.2
  split
  · exact h.outermost.bind fun t ht => ht.take 3 trivial
  split
  · exact h.outermost.bind fun t ht => ht.take 3 trivial
  split
  · exact h.openBracket trivial
  · exact h.openBracket trivial
  · exact h.closeBracket trivial
  · exact h.closeBracket trivial
  · exact (h.allow true).forgetKey.bind fun t ht => ht.take 1 trivial
  · refine h.keyStart ?_
    cases readAnchor? rest with
    | none => exact trivial
    | some r => exact trivial
  · refine h.keyStart ?_
    cases readAnchor? rest with
    | none => exact trivial
    | some r => exact trivial
  · -- The mark of the tag is the next character.
    refine h.keyStart ?_
    cases hread : readTag? ('!' :: rest) with
    | none => exact trivial
    | some r => exact readTag?_fits (hrest.mem List.mem_cons_self) hread
  · refine h.keyStart ?_
    cases hread : readSingleQuoted [] .none rest with
    | ok r => exact trivial
    | error f =>
        rw [readSingleQuoted_fault hread]
        exact trivial
  · refine h.keyStart ?_
    cases hread : readDoubleQuoted [] (.text .none) rest with
    | ok r => exact trivial
    | error f =>
        rcases readDoubleQuoted_fault hread with rfl | ⟨rfl, d, v, hd, hv, hin⟩
        · exact trivial
        · -- What is within quotes is within the text.
          exact ⟨d, v, hd, hv, (hin.trans (List.suffix_cons _ _).isInfix).trans hrest.isInfix⟩
  split
  · refine Lands.bind (h.openHere trivial) fun t ht => ?_
    exact (ht.allow true).forgetKey.bind fun u hu => hu.take 1 trivial
  split
  · refine Lands.bind (h.openHere trivial) fun t ht => ?_
    exact (ht.allow _).forgetKey.bind fun u hu => hu.take 1 trivial
  split
  · exact h.colon
  split
  · exact h.blockScalar false rest
  split
  · exact h.blockScalar true rest
  split
  · exact h.plainScalar
  · exact trivial

theorem Fits.finish (h : s.Fits cs) : Goes cs s.finish :=
  h.unwindAll.forgetKey.bind fun _ ht => ht.push trivial

/-- One more token fits. -/
theorem Fits.step (h : s.Fits cs) :
    Lands (YamlFault.MayArise cs) (fun r => r.1.Fits cs) s.step := by
  unfold YamlScan.step
  refine h.skipBlanks.forgetStale.bind fun t ht => ?_
  have hsettled : (if t.inFlow then t else t.unwind t.place.column).Fits cs := by
    split
    · exact ht
    · exact ht.unwind _
  dsimp only
  -- What is open at this place has been ended; only the next character matters now.
  generalize (if t.inFlow then t else t.unwind t.place.column) = u at hsettled ⊢
  split
  · exact hsettled.finish.bind fun v hv => hv
  next c rest hrest => exact (hsettled.token (hrest ▸ hsettled.place)).bind fun v hv => hv

theorem Fits.tokensBefore (h : s.Fits cs) {f : YamlFault} (hf : f.MayArise cs) :
    ∀ t ∈ s.tokensBefore f, t.Fits cs := by
  intro t ht
  rcases List.mem_append.mp ht with htoken | hbroken
  · exact h.tokens t (List.mem_reverse.mp (List.mem_of_mem_take htoken))
  · rw [List.mem_singleton.mp hbroken]
    exact hf

/-- All tokens up to the end or a fault fit. -/
theorem Fits.run (h : s.Fits cs) (fuel : Nat) : ∀ t ∈ s.run fuel, t.Fits cs := by
  induction fuel generalizing s with
  | zero => exact h.tokensBefore (f := .malformed) trivial
  | succ fuel ih =>
      have hstep := h.step
      unfold YamlScan.run
      split
      next f hf =>
        rw [hf] at hstep
        exact h.tokensBefore hstep
      next t hend =>
        rw [hend] at hstep
        exact fun u hu => hstep.tokens u (List.mem_reverse.mp hu)
      next t hmore =>
        rw [hmore] at hstep
        exact ih hstep

end YamlScan

/-- All tokens of a text fit it, the fault that may end them included. -/
theorem yamlTokens_fit (cs : List Char) : ∀ t ∈ yamlTokens cs, t.Fits cs := by
  have hstart : (YamlScan.start cs).Fits cs :=
    ⟨List.suffix_refl cs, fun t ht => absurd ht List.not_mem_nil⟩
  unfold yamlTokens
  dsimp only
  split
  · have hmark : YamlScan.Fits cs
        { YamlScan.start cs with place := (YamlScan.start cs).place.next } :=
      ⟨(YamlCursor.next_suffix _).trans hstart.place, hstart.tokens⟩
    exact hmark.run _
  · exact hstart.run _

end Docket
