import Docket.Proofs.Text.Utf8
import Docket.Yaml.ScalarText
import Mathlib.Data.List.Basic

/-!
# Texts without double quotes

A text is folded where a blank stands between words, and its line breaks are written so
that all of them count. The reader of a text without quotes or between single quotes
undoes this: it keeps the gap since the last word, and what the gap stands for is decided
where the next word begins. What has been written last says which gaps may be open.

One line break is not undone. NEL is written as it is, once, and read as a fold.

## Main definitions

* `YamlGap.After`: The gaps that may be open behind a character.

## Theorems

* `YamlScalar.readSingleQuoted_fitsSingle`: A text between single quotes is read back.
* `YamlScalar.readPlain_fitsPlain`: A text without quotes is read back, up to where it
  ends.
* `readPlain_colon`, `readPlain_newline`: Where it ends.
-/

namespace Docket

/-- A line end is no more than a line break, for a character that may be written. -/
theorem isYamlLineEnd_of_writable {c : Char} (hc : isYamlWritable c = true) :
    isYamlLineEnd c = isYamlBreak c := by
  have hreturn : c ≠ '\r' := by
    rintro rfl
    exact absurd hc (by decide)
  rw [isYamlLineEnd, beq_false_of_ne hreturn, Bool.false_or]

theorem takeYamlBreak_of_not_end {c : Char} (h : isYamlLineEnd c = false) :
    takeYamlBreak? [c] = none := by
  simp only [isYamlLineEnd, isYamlBreak, Bool.or_eq_false_iff, beq_eq_false_iff_ne] at h
  rcases h with ⟨hr, ⟨⟨hn, hx⟩, hl⟩, hp⟩
  simp [takeYamlBreak?, hr, hn, hx, hl, hp]

/-- All line breaks that are written keep their identity but one. -/
theorem takeYamlBreak_of_break {c : Char} (h : isYamlBreak c = true) (hnel : c ≠ '\u0085') :
    takeYamlBreak? [c] = some (c, []) := by
  simp only [isYamlBreak, Bool.or_eq_true, beq_iff_eq] at h
  rcases h with ((rfl | h) | rfl) | rfl
  · rfl
  · exact absurd h hnel
  · rfl
  · rfl

/-- No mark stands where a line is indented. -/
theorem atYamlMark_of_indented {n : Nat} (hn : 0 < n) (cs : List Char) :
    atYamlMark (List.replicate n ' ' ++ cs) = false := by
  obtain ⟨m, rfl⟩ := Nat.exists_eq_add_of_lt hn
  rfl

/-- No mark begins with a line break. -/
theorem atYamlMark_of_break {c : Char} (h : isYamlBreak c = true) (cs : List Char) :
    atYamlMark (c :: cs) = false := by
  simp only [isYamlBreak, Bool.or_eq_true, beq_iff_eq] at h
  rcases h with ((rfl | rfl) | rfl) | rfl <;> rfl

theorem hasNeighbours_cons {p q : Char → Bool} {a b : Char} {cs : List Char} :
    hasNeighbours p q (a :: b :: cs) = false ↔
      (p a = true → q b = false) ∧ hasNeighbours p q (b :: cs) = false := by
  rw [hasNeighbours, Bool.or_eq_false_iff, Bool.and_eq_false_imp]

theorem hasNeighbours_tail {p q : Char → Bool} {b : Option Char} {cs : List Char}
    (h : hasNeighbours p q (b.toList ++ cs) = false) : hasNeighbours p q cs = false := by
  cases b with
  | none => exact h
  | some b =>
      cases cs with
      | nil => rfl
      | cons c cs => exact (hasNeighbours_cons.mp h).2

/-- What may stand before a character. -/
theorem before_of_hasNeighbours {p q : Char → Bool} {b : Option Char} {c : Char}
    {cs : List Char} (h : hasNeighbours p q (b.toList ++ c :: cs) = false) (hc : q c = true) :
    b.any p = false := by
  cases b with
  | none => rfl
  | some b =>
      rw [Option.any_some, ← Bool.not_eq_true]
      intro hb
      exact Bool.noConfusion (hc.symm.trans ((hasNeighbours_cons.mp h).1 hb))

/-- What may stand behind one. -/
theorem behind_of_hasNeighbours {p q : Char → Bool} {c : Char} {cs : List Char}
    (h : hasNeighbours p q (c :: cs) = false) (hc : p c = true) : cs.head?.any q = false := by
  cases cs with
  | nil => rfl
  | cons d cs => exact (hasNeighbours_cons.mp h).1 hc

namespace YamlGap

/-- The gap that is open behind a character: blanks behind a blank, or the line break
    that was written for it; line breaks behind a line break, the first of which
    counts. There is none behind anything else. -/
inductive After : Option Char → YamlGap → Prop
  | start : After Option.none .none
  | word {c : Char} (hspace : c ≠ ' ') (hbreak : isYamlBreak c = false) : After (some c) .none
  | blanks (text : List Char) : After (some ' ') (.blanks text)
  | fold : After (some ' ') (.lines (some '\n') [])
  | lines {c b : Char} {more : List Char} (hc : isYamlBreak c = true)
      (hb : b = '\n' → more ≠ []) : After (some c) (.lines (some b) more)

/-- A line break after others, the first of which counts. -/
theorem text_addBreak {b : Char} {more : List Char} (hb : b = '\n' → more ≠ []) (c : Char) :
    (YamlGap.lines (some b) (c :: more)).text = c :: (YamlGap.lines (some b) more).text := by
  by_cases h : b = '\n'
  · subst h
    cases more with
    | nil => exact absurd rfl (hb rfl)
    | cons d more => rfl
  · simp [text, h]

/-- A blank where no line has ended. -/
theorem addBlank_of_open {gap : YamlGap} (h : gap.hasBreak = false) :
    gap.addBlank ' ' = .blanks (' ' :: gap.text) := by
  cases gap with
  | none => rfl
  | blanks text => rfl
  | lines first more => cases h

/-- Nothing is open behind a word. -/
theorem After.eq_none {before : Option Char} {gap : YamlGap} (h : gap.After before)
    (hspace : before ≠ some ' ') (hbreak : before.any isYamlBreak = false) : gap = .none := by
  cases h with
  | start => rfl
  | word => rfl
  | blanks => exact absurd rfl hspace
  | fold => exact absurd rfl hspace
  | lines hc => exact Bool.noConfusion (hc.symm.trans hbreak)

end YamlGap

section Single

variable (done rest : List Char) (gap : YamlGap)

theorem readSingleQuoted_blank :
    readSingleQuoted done gap (' ' :: rest) = readSingleQuoted done (gap.addBlank ' ') rest := by
  rw [readSingleQuoted.eq_def]
  rfl

theorem readSingleQuoted_quote :
    readSingleQuoted done gap ('\'' :: '\'' :: rest) =
      readSingleQuoted ('\'' :: (gap.text ++ done)) .none rest := by
  rw [readSingleQuoted]

variable {rest}

theorem readSingleQuoted_break {c : Char} (hc : isYamlBreak c = true) (hnel : c ≠ '\u0085')
    (hmark : atYamlMark rest = false) :
    readSingleQuoted done gap (c :: rest) = readSingleQuoted done (gap.addBreak c) rest := by
  have hquote : c ≠ '\'' := by rintro rfl; exact absurd hc (by decide)
  have hreturn : c ≠ '\r' := by rintro rfl; exact absurd hc (by decide)
  have hblank : isYamlInnerBlank c = false := by
    simp only [isYamlBreak, Bool.or_eq_true, beq_iff_eq] at hc
    rcases hc with ((rfl | rfl) | rfl) | rfl <;> rfl
  rw [readSingleQuoted.eq_4 done gap c rest (fun _ h => absurd h hquote)
    (fun _ h => absurd h hreturn), if_neg hquote, hblank, takeYamlBreak_of_break hc hnel]
  simp [hmark]

theorem readSingleQuoted_word {c : Char} (hquote : c ≠ '\'') (hblank : isYamlInnerBlank c = false)
    (hc : isYamlLineEnd c = false) :
    readSingleQuoted done gap (c :: rest) =
      readSingleQuoted (c :: (gap.text ++ done)) .none rest := by
  have hreturn : c ≠ '\r' := by rintro rfl; exact absurd hc (by decide)
  rw [readSingleQuoted.eq_4 done gap c rest (fun _ h => absurd h hquote)
    (fun _ h => absurd h hreturn), if_neg hquote, hblank, takeYamlBreak_of_not_end hc]
  simp

/-- A quote ends the text if it is not doubled. -/
theorem readSingleQuoted_close (hrest : rest.head? ≠ some '\'') :
    readSingleQuoted done gap ('\'' :: rest) = .ok ((gap.text ++ done).reverse, rest) := by
  have hnext : ∀ more, '\'' = '\'' → rest = '\'' :: more → False := by
    rintro more - rfl
    exact hrest rfl
  rw [readSingleQuoted.eq_4 done gap '\'' rest hnext (fun _ h => absurd h (by decide)), if_pos rfl]

end Single

/-- The indentation of a line does not count. -/
theorem readSingleQuoted_indent (done : List Char) (b : Option Char) (more rest : List Char)
    (n : Nat) :
    readSingleQuoted done (.lines b more) (List.replicate n ' ' ++ rest) =
      readSingleQuoted done (.lines b more) rest := by
  induction n with
  | zero => rfl
  | succ n ih =>
      rw [List.replicate_succ, List.cons_append, readSingleQuoted_blank]
      exact ih

/-- A folded text that begins with a line break begins with one as it is written. -/
theorem foldYaml_break (raw : Char → List Char) (folds : Bool) (indent column : Nat)
    (before : Option Char) {cs : List Char} (h : cs.head?.any isYamlBreak = true) :
    ∃ c text, foldYaml raw folds indent before column cs = c :: text ∧ isYamlBreak c = true := by
  cases cs with
  | nil => exact absurd h (by decide)
  | cons c rest =>
      rw [List.head?_cons, Option.any_some] at h
      have hspace : c ≠ ' ' := by rintro rfl; exact absurd h (by decide)
      rw [foldYaml, if_neg hspace, if_pos h]
      split
      · exact ⟨'\n', _, rfl, rfl⟩
      · exact ⟨c, _, rfl, h⟩

/-- A line break is written so that all line breaks count. -/
theorem readSingleQuoted_written_break {before : Option Char} {gap : YamlGap}
    (hgap : gap.After before) (hbefore : before ≠ some ' ') {c : Char} (hc : isYamlBreak c = true)
    (hnel : c ≠ '\u0085') {rest : List Char} (hmark : atYamlMark rest = false) (done : List Char) :
    ∃ b more, (b = '\n' → more ≠ []) ∧ (YamlGap.lines (some b) more).text = c :: gap.text ∧
      readSingleQuoted done gap
          ((if c = '\n' && !before.any isYamlBreak then ['\n', c] else [c]) ++ rest) =
        readSingleQuoted done (.lines (some b) more) rest := by
  -- A single newline would be folded to a blank, so that another one is written before it.
  have hfirst : before.any isYamlBreak = false → gap = .none →
      ∃ b more, (b = '\n' → more ≠ []) ∧ (YamlGap.lines (some b) more).text = c :: gap.text ∧
        readSingleQuoted done gap
            ((if c = '\n' && !before.any isYamlBreak then ['\n', c] else [c]) ++ rest) =
          readSingleQuoted done (.lines (some b) more) rest := by
    rintro hword rfl
    by_cases hline : c = '\n'
    · refine ⟨'\n', ['\n'], fun _ => List.cons_ne_nil _ _, by rw [hline]; rfl, ?_⟩
      rw [hword, hline, if_pos (by decide), List.cons_append, List.singleton_append,
        readSingleQuoted_break _ _ (by decide) (by decide) rfl,
        readSingleQuoted_break _ _ (by decide) (by decide) hmark]
      rfl
    · refine ⟨c, [], fun h => absurd h hline, by simp [YamlGap.text, hline], ?_⟩
      rw [if_neg (by simp [hline]), List.singleton_append, readSingleQuoted_break _ _ hc hnel hmark]
      rfl
  cases hgap with
  | start => exact hfirst rfl rfl
  | word _ hbreak => exact hfirst hbreak rfl
  | blanks _ => exact absurd rfl hbefore
  | fold => exact absurd rfl hbefore
  | @lines a b more ha hb =>
      refine ⟨b, c :: more, fun _ => List.cons_ne_nil _ _, YamlGap.text_addBreak hb c, ?_⟩
      rw [Option.any_some, ha, if_neg (by simp), List.singleton_append,
        readSingleQuoted_break _ _ hc hnel hmark]
      rfl

section Folding

variable (folds : Bool) {indent : Nat} (column : Nat) {before : Option Char} {gap : YamlGap}
  {cs : List Char} (done rest : List Char)

/-- A blank is read, which may have been written as a line break. It opens a gap, or
    widens the one that is open. -/
theorem readSingleQuoted_foldYaml_blank (hindent : 0 < indent) (hgap : gap.After before)
    (hopen : gap.hasBreak = false) (hbefore : before.any isYamlBreak = false) :
    ∃ gap' place, gap'.After (some ' ') ∧ (gap'.hasBreak = true → cs.head? ≠ some ' ') ∧
      gap'.text = ' ' :: gap.text ∧
      readSingleQuoted done gap
          (foldYaml singleQuotedChar folds indent before column (' ' :: cs) ++ rest) =
        readSingleQuoted done gap'
          (foldYaml singleQuotedChar folds indent (some ' ') place cs ++ rest) := by
  rw [foldYaml, if_pos rfl]
  split
  -- The line is folded here: the blank becomes a newline, and the next line is indented.
  next hfold =>
    simp only [Bool.and_eq_true] at hfold
    obtain ⟨⟨-, hword⟩, hnext⟩ := hfold
    obtain rfl : gap = .none := hgap.eq_none (by rintro rfl; exact absurd hword (by decide)) hbefore
    refine ⟨.lines (some '\n') [], indent, .fold, fun _ h => ?_, rfl, ?_⟩
    · rw [h] at hnext
      exact absurd hnext (by decide)
    · rw [yamlNewline, List.cons_append, List.cons_append, List.append_assoc,
        readSingleQuoted_break _ _ (by decide) (by decide) (atYamlMark_of_indented hindent _)]
      exact readSingleQuoted_indent done _ _ _ _
  next =>
    refine ⟨.blanks (' ' :: gap.text), column + 1, .blanks _, nofun, rfl, ?_⟩
    rw [List.cons_append, readSingleQuoted_blank, YamlGap.addBlank_of_open hopen]

/-- A line break is read, and widens the gap. The next line ends at once, or it is
    indented. -/
theorem readSingleQuoted_foldYaml_break {c : Char} (hindent : 0 < indent) (hgap : gap.After before)
    (hbefore : before ≠ some ' ') (hc : isYamlBreak c = true) (hnel : c ≠ '\u0085') :
    ∃ gap' place, gap'.After (some c) ∧ gap'.text = c :: gap.text ∧
      readSingleQuoted done gap
          (foldYaml singleQuotedChar folds indent before column (c :: cs) ++ rest) =
        readSingleQuoted done gap'
          (foldYaml singleQuotedChar folds indent (some c) place cs ++ rest) := by
  have hspace : c ≠ ' ' := by rintro rfl; exact absurd hc (by decide)
  rw [foldYaml, if_neg hspace, if_pos hc]
  -- An empty line is not indented.
  by_cases hempty : cs.head?.any isYamlBreak = true
  · obtain ⟨d, text, htext, hd⟩ :=
      foldYaml_break singleQuotedChar folds indent 0 (some c) hempty
    have hmark : atYamlMark (foldYaml singleQuotedChar folds indent (some c) 0 cs ++ rest) =
        false := by
      rw [htext]
      exact atYamlMark_of_break hd _
    obtain ⟨b, more, hb, hgaptext, hread⟩ :=
      readSingleQuoted_written_break hgap hbefore hc hnel hmark done
    refine ⟨.lines (some b) more, 0, .lines hc hb, hgaptext, ?_⟩
    rw [if_pos hempty, List.append_assoc, hread]
  · obtain ⟨b, more, hb, hgaptext, hread⟩ := readSingleQuoted_written_break hgap hbefore hc hnel
      (atYamlMark_of_indented hindent
        (foldYaml singleQuotedChar folds indent (some c) indent cs ++ rest)) done
    refine ⟨.lines (some b) more, indent, .lines hc hb, hgaptext, ?_⟩
    rw [if_neg hempty, List.append_assoc, List.append_assoc, hread, readSingleQuoted_indent]

/-- Any other character is read, and closes the gap. -/
theorem readSingleQuoted_foldYaml_word (gap : YamlGap) {c : Char}
    (hwritable : isYamlWritable c = true) (hspace : c ≠ ' ') (hbreak : isYamlBreak c = false) :
    ∃ place,
    readSingleQuoted done gap
        (foldYaml singleQuotedChar folds indent before column (c :: cs) ++ rest) =
      readSingleQuoted (c :: (gap.text ++ done)) .none
        (foldYaml singleQuotedChar folds indent (some c) place cs ++ rest) := by
  have hend : isYamlLineEnd c = false := (isYamlLineEnd_of_writable hwritable).trans hbreak
  have htab : c ≠ '\t' := by rintro rfl; exact absurd hwritable (by decide)
  have hblank : isYamlInnerBlank c = false := by simp [isYamlInnerBlank, hspace, htab]
  refine ⟨column + (singleQuotedChar c).length, ?_⟩
  rw [foldYaml, if_neg hspace, hbreak, if_neg Bool.false_ne_true, List.append_assoc]
  -- A quote is doubled in the text and read as one; all else stands for itself.
  unfold singleQuotedChar
  split
  next hquote => rw [hquote]; exact readSingleQuoted_quote done _ gap
  next hquote => exact readSingleQuoted_word done gap hquote hblank hend

end Folding

/-- A text between single quotes is read back, unless the one line break is in it that
    does not keep its identity. -/
theorem readSingleQuoted_foldYaml (folds : Bool) {indent : Nat} (hindent : 0 < indent)
    {cs rest : List Char} (hrest : rest.head? ≠ some '\'') :
    ∀ {before : Option Char} {gap : YamlGap} (column : Nat) (done : List Char), gap.After before →
      (gap.hasBreak = true → cs.head? ≠ some ' ') →
      (∀ c ∈ cs, isYamlWritable c = true ∧ c ≠ '\u0085') →
      hasNeighbours isSpace isYamlBreak (before.toList ++ cs) = false →
      hasNeighbours isYamlBreak isSpace (before.toList ++ cs) = false →
      readSingleQuoted done gap
          (foldYaml singleQuotedChar folds indent before column cs ++ '\'' :: rest) =
        .ok ((gap.text ++ done).reverse ++ cs, rest) := by
  induction cs with
  | nil =>
      intro before gap column done _ _ _ _ _
      rw [foldYaml, List.nil_append, readSingleQuoted_close done gap hrest, List.append_nil]
  | cons c cs ih =>
      intro before gap column done hgap hblank hwritable hsb hbs
      rw [List.forall_mem_cons] at hwritable
      have hsb' := hasNeighbours_tail hsb
      have hbs' := hasNeighbours_tail hbs
      -- A blank, a line break, or a character of a word: blanks and breaks must not be
      -- neighbours, since blanks around a break are not kept.
      by_cases hspace : c = ' '
      · subst hspace
        have hopen : gap.hasBreak = false := by
          by_contra h
          exact hblank (by simpa using h) rfl
        obtain ⟨gap', place, hgap', hnext, htext, hread⟩ :=
          readSingleQuoted_foldYaml_blank folds column done ('\'' :: rest) hindent hgap hopen
            (before_of_hasNeighbours hbs (by decide))
        rw [hread, ih _ _ hgap' hnext hwritable.2 hsb' hbs', htext]
        simp
      by_cases hbreak : isYamlBreak c = true
      · have hbefore : before ≠ some ' ' := by
          rintro rfl
          exact absurd (before_of_hasNeighbours hsb hbreak) (by decide)
        have hnext : cs.head? ≠ some ' ' := by
          intro h
          have hbehind := behind_of_hasNeighbours hbs' hbreak
          rw [h] at hbehind
          exact absurd hbehind (by decide)
        obtain ⟨gap', place, hgap', htext, hread⟩ := readSingleQuoted_foldYaml_break folds column
          done ('\'' :: rest) hindent hgap hbefore hbreak hwritable.1.2
        rw [hread, ih _ _ hgap' (fun _ => hnext) hwritable.2 hsb' hbs', htext]
        simp
      · have hword : isYamlBreak c = false := by simpa using hbreak
        obtain ⟨place, hread⟩ := readSingleQuoted_foldYaml_word folds column done
          ('\'' :: rest) gap hwritable.1.1 hspace hword
        rw [hread, ih _ _ (.word hspace hword) nofun hwritable.2 hsb' hbs']
        simp [YamlGap.text]

/-- A text that is written between single quotes is read back. -/
theorem YamlScalar.readSingleQuoted_fitsSingle {s : YamlScalar} (h : s.fitsSingle = true)
    (hnel : '\u0085' ∉ s.text) (folds : Bool) {indent : Nat} (hindent : 0 < indent) (column : Nat)
    {rest : List Char} (hrest : rest.head? ≠ some '\'') :
    readSingleQuoted [] .none
        (foldYaml singleQuotedChar folds indent none column s.text ++ '\'' :: rest) =
      .ok (s.text, rest) := by
  simp only [fitsSingle, Bool.and_eq_true, Bool.not_eq_true', List.all_eq_true] at h
  obtain ⟨⟨hwritable, hsb⟩, hbs⟩ := h
  have hread := readSingleQuoted_foldYaml folds hindent hrest column [] .start nofun
    (fun c hc => ⟨hwritable c hc, by rintro rfl; exact hnel hc⟩) hsb hbs
  simpa [YamlGap.text] using hread

section Plain

variable (indent : Nat) (done : List Char) (column : Nat)

theorem readPlain_blank (gap : YamlGap) (rest : List Char) :
    readPlain false indent done gap column (' ' :: rest) =
      readPlain false indent done (gap.addBlank ' ') (column + 1) rest := by
  rw [readPlain.eq_def]
  rfl

theorem readPlain_break (gap : YamlGap) {rest : List Char} (hmark : atYamlMark rest = false) :
    readPlain false indent done gap column ('\n' :: rest) =
      readPlain false indent done (gap.addBreak '\n') 0 rest := by
  rw [readPlain.eq_3 false indent done gap column '\n' rest (fun _ h => absurd h (by decide)),
    if_neg (by decide), takeYamlBreak_of_break (by decide) (by decide)]
  simp [hmark]

theorem readPlain_word {gap : YamlGap} {c : Char} {rest : List Char} (hspace : c ≠ ' ')
    (hc : isYamlLineEnd c = false) (hends : endsPlain false (c :: rest) = false)
    (hhash : gap = .none ∨ c ≠ '#') (hcolumn : gap.hasBreak = true → indent ≤ column) :
    readPlain false indent done gap column (c :: rest) =
      readPlain false indent (c :: (gap.text ++ done)) .none column rest := by
  have hreturn : c ≠ '\r' := by rintro rfl; exact absurd hc (by decide)
  rw [readPlain.eq_3 false indent done gap column c rest (fun _ h => absurd h hreturn),
    if_neg hspace, takeYamlBreak_of_not_end hc]
  -- No comment begins here.
  have hgoes : (gap != .none && c == '#') = false := by
    rcases hhash with rfl | h
    · rfl
    · simp [h]
  -- Nor is the line indented too little.
  have hdeep : (gap.hasBreak && decide (column < indent)) = false := by
    rw [Bool.and_eq_false_imp]
    exact fun h => decide_eq_false (Nat.not_lt.mpr (hcolumn h))
  simp [hends, hgoes, hdeep]

/-- The indentation of a line counts for nothing but its column. -/
theorem readPlain_indent (b : Option Char) (more : List Char) (n : Nat) (rest : List Char) :
    readPlain false indent done (.lines b more) column (List.replicate n ' ' ++ rest) =
      readPlain false indent done (.lines b more) (column + n) rest := by
  induction n generalizing column with
  | zero => rfl
  | succ n ih =>
      rw [List.replicate_succ, List.cons_append, readPlain_blank, Nat.add_comm n 1, ← Nat.add_assoc]
      exact ih (column + 1)

end Plain

/-- A word that is begun is so in the folded text. -/
theorem atYamlBlank_foldYaml (folds : Bool) (indent column : Nat) (before : Option Char)
    (rest : List Char) {cs : List Char} (hbreaks : ∀ d ∈ cs, isYamlBreak d = false)
    (h : atYamlBlank cs = false) :
    atYamlBlank (foldYaml (fun c => [c]) folds indent before column cs ++ rest) = false := by
  cases cs with
  | nil => exact absurd h (by decide)
  | cons d cs =>
      have hd : isYamlBlank d = false := by simpa [atYamlBlank] using h
      have hspace : d ≠ ' ' := by rintro rfl; exact absurd hd (by decide)
      rw [foldYaml, if_neg hspace, if_neg (by simp [hbreaks d List.mem_cons_self])]
      simpa [atYamlBlank] using hd

/-- A text without line breaks goes on where a colon is in it. -/
theorem endsPlain_foldYaml {folds : Bool} {indent column : Nat} {c : Char} {cs rest : List Char}
    (hspace : c ≠ ' ') (hc : isYamlWritable c = true) (hbreak : isYamlBreak c = false)
    (hbreaks : ∀ d ∈ cs, isYamlBreak d = false) (hsep : c = ':' → atYamlBlank cs = false) :
    endsPlain false (c :: (foldYaml (fun c => [c]) folds indent (some c) column cs ++ rest)) =
      false := by
  have htab : c ≠ '\t' := by rintro rfl; exact absurd hc (by decide)
  have hnul : c ≠ '\u0000' := by rintro rfl; exact absurd hc (by decide)
  have hend := isYamlLineEnd_of_writable hc
  have hcolon := fun h =>
    atYamlBlank_foldYaml folds indent column (some c) rest hbreaks (hsep h)
  by_cases h : c = ':'
  · simp [endsPlain, isYamlBlank, hcolon h, hspace, htab, hnul, hend, hbreak]
  · simp [endsPlain, isYamlBlank, h, hspace, htab, hnul, hend, hbreak]

section Folding

variable (folds : Bool) {inner indent : Nat} (column place : Nat) {b : Char} {gap : YamlGap}
  {cs : List Char} (done rest : List Char)

/-- A blank is read, which may have been written as a line break. -/
theorem readPlain_foldYaml_blank (hinner : inner ≤ indent) (hindent : 0 < indent)
    (hgap : gap.After (some b)) (hopen : gap.hasBreak = false) (hb : isYamlBreak b = false) :
    ∃ gap' column' place', gap'.After (some ' ') ∧
      (gap'.hasBreak = true → cs.head? ≠ some ' ' ∧ inner ≤ place') ∧
      gap'.text = ' ' :: gap.text ∧
      readPlain false inner done gap place
          (foldYaml (fun c => [c]) folds indent (some b) column (' ' :: cs) ++ rest) =
        readPlain false inner done gap' place'
          (foldYaml (fun c => [c]) folds indent (some ' ') column' cs ++ rest) := by
  rw [foldYaml, if_pos rfl]
  split
  -- The line is folded here, and the next one is indented far enough.
  next hfold =>
    simp only [Bool.and_eq_true] at hfold
    obtain ⟨⟨-, hword⟩, hnext⟩ := hfold
    obtain rfl : gap = .none := hgap.eq_none (by simpa using hword) hb
    refine ⟨.lines (some '\n') [], indent, 0 + indent, .fold, fun _ => ⟨fun h => ?_, by omega⟩, rfl,
      ?_⟩
    · rw [h] at hnext
      exact absurd hnext (by decide)
    · rw [yamlNewline, List.cons_append, List.cons_append, List.append_assoc,
        readPlain_break _ _ _ _ (atYamlMark_of_indented hindent _)]
      exact readPlain_indent inner done 0 _ _ _ _
  next =>
    refine ⟨.blanks (' ' :: gap.text), column + 1, place + 1, .blanks _, nofun, rfl, ?_⟩
    rw [List.cons_append, readPlain_blank, YamlGap.addBlank_of_open hopen]

/-- A character of a word is read, unless a separator begins or ends here. -/
theorem readPlain_foldYaml_word {c : Char} (hgap : gap.After (some b))
    (hb : isYamlBreak b = false) (hplace : gap.hasBreak = true → inner ≤ place)
    (hwritable : ∀ d ∈ c :: cs, isYamlWritable d = true ∧ isYamlBreak d = false)
    (hsep : hasYamlSeparator b (c :: cs) = false) (hspace : c ≠ ' ') :
    readPlain false inner done gap place
        (foldYaml (fun c => [c]) folds indent (some b) column (c :: cs) ++ rest) =
      readPlain false inner (c :: (gap.text ++ done)) .none place
        (foldYaml (fun c => [c]) folds indent (some c) (column + 1) cs ++ rest) := by
  obtain ⟨⟨hc, hbreak⟩, hcs⟩ := List.forall_mem_cons.mp hwritable
  -- Behind a blank this character would begin a comment.
  have hhash : gap = .none ∨ c ≠ '#' := by
    by_cases h : b = ' '
    · refine .inr ?_
      rintro rfl
      rw [hasYamlSeparator, h] at hsep
      exact absurd hsep (by simp [isYamlBlank])
    · exact .inl (hgap.eq_none (by simpa using h) hb)
  -- Before a blank this one would end a key.
  have hcolon : c = ':' → atYamlBlank cs = false := by
    rintro rfl
    rw [hasYamlSeparator, Bool.or_eq_false_iff, Bool.or_eq_false_iff] at hsep
    simpa using hsep.1.1
  rw [foldYaml, if_neg hspace, if_neg (by simp [hbreak]), List.append_assoc, List.singleton_append]
  exact readPlain_word inner done place hspace ((isYamlLineEnd_of_writable hc).trans hbreak)
    (endsPlain_foldYaml hspace hc hbreak (fun d hd => (hcs d hd).2) hcolon) hhash hplace

end Folding

/-- A text without quotes is read back behind a character of it. -/
theorem readPlain_foldYaml (folds : Bool) {inner indent : Nat} (hinner : inner ≤ indent)
    (hindent : 0 < indent) (cs rest : List Char) :
    ∀ {b : Char} {gap : YamlGap} (column place : Nat) (done : List Char), gap.After (some b) →
      isYamlBreak b = false → (gap.hasBreak = true → cs.head? ≠ some ' ' ∧ inner ≤ place) →
      (∀ c ∈ cs, isYamlWritable c = true ∧ isYamlBreak c = false) →
      hasYamlSeparator b cs = false → (b :: cs).getLast? ≠ some ' ' →
      ∃ place', readPlain false inner done gap place
          (foldYaml (fun c => [c]) folds indent (some b) column cs ++ rest) =
        readPlain false inner (cs.reverse ++ (gap.text ++ done)) .none place' rest := by
  induction cs with
  | nil =>
      intro b gap column place done hgap hb _ _ _ hlast
      -- The text does not end with a blank, so that no gap is left open.
      obtain rfl : gap = .none := hgap.eq_none (by simpa using hlast) hb
      exact ⟨place, rfl⟩
  | cons c cs ih =>
      intro b gap column place done hgap hb hopen hwritable hsep hlast
      have hcs := (List.forall_mem_cons.mp hwritable).2
      have hsep' : hasYamlSeparator c cs = false := by
        rw [hasYamlSeparator, Bool.or_eq_false_iff] at hsep
        exact hsep.2
      rw [List.getLast?_cons_cons] at hlast
      by_cases hspace : c = ' '
      · subst hspace
        have hnobreak : gap.hasBreak = false := by
          by_contra h
          exact (hopen (by simpa using h)).1 rfl
        obtain ⟨gap', column', place', hgap', hnext, htext, hread⟩ :=
          readPlain_foldYaml_blank folds column place done rest hinner hindent hgap hnobreak hb
        obtain ⟨last, hlater⟩ := ih column' place' done hgap' rfl hnext hcs hsep' hlast
        refine ⟨last, (hread.trans hlater).trans ?_⟩
        simp [htext]
      · have hbreak : isYamlBreak c = false := (hwritable c List.mem_cons_self).2
        obtain ⟨last, hlater⟩ := ih (column + 1) place (c :: (gap.text ++ done))
          (.word hspace hbreak) hbreak nofun hcs hsep' hlast
        rw [readPlain_foldYaml_word folds column place done rest hgap hb (fun h => (hopen h).2)
          hwritable hsep hspace]
        refine ⟨last, hlater.trans ?_⟩
        simp [YamlGap.text]

/-- The text is no longer read as plain where a colon ends a word. -/
theorem readPlain_colon (indent : Nat) (done : List Char) (column : Nat) {rest : List Char}
    (hblank : atYamlBlank rest = true) :
    readPlain false indent done .none column (':' :: rest) =
      ⟨done.reverse, ':' :: rest, false⟩ := by
  rw [readPlain.eq_3 false indent done .none column ':' rest (fun _ h => absurd h (by decide)),
    if_neg (by decide), takeYamlBreak_of_not_end (by decide)]
  simp [endsPlain, hblank, YamlGap.hasBreak]

/-- Nor where a line is indented too little. -/
theorem readPlain_newline {indent k : Nat} (hk : k < indent) (done : List Char) (column : Nat)
    {rest : List Char} (hmark : atYamlMark (List.replicate k ' ' ++ rest) = false)
    (hrest : ∀ c ∈ rest.head?, c ≠ ' ' ∧ isYamlLineEnd c = false) :
    readPlain false indent done .none column (yamlNewline k ++ rest) =
      ⟨done.reverse, rest, true⟩ := by
  rw [yamlNewline, List.cons_append, readPlain_break _ _ _ _ hmark]
  change readPlain false indent done (.lines (some '\n') []) 0 _ = _
  rw [readPlain_indent]
  -- The spaces are read as indentation; what decides is whether anything follows them.
  cases rest with
  | nil => rfl
  | cons c rest =>
      obtain ⟨hspace, hend⟩ := hrest c rfl
      have hreturn : c ≠ '\r' := by rintro rfl; exact absurd hend (by decide)
      rw [readPlain.eq_3 false indent done _ _ c rest (fun _ h => absurd h hreturn), if_neg hspace,
        takeYamlBreak_of_not_end hend]
      simp [YamlGap.hasBreak, hk]

namespace YamlScalar

/-- The text of a plain scalar: its characters, and how it begins and ends. -/
theorem fitsPlain_cons {s : YamlScalar} {c : Char} {cs : List Char} (h : s.fitsPlain = true)
    (htext : s.text = c :: cs) :
    (∀ d ∈ c :: cs, isYamlWritable d = true ∧ isYamlBreak d = false) ∧ c ≠ ' ' ∧
      (c :: cs).getLast? ≠ some ' ' ∧ yamlIndicators.contains c = false ∧
      (c = '-' ∨ c = '?' ∨ c = ':' → atYamlBlank cs = false) ∧ hasYamlSeparator c cs = false ∧
      ¬ ['-', '-', '-'] <+: c :: cs ∧ ¬ ['.', '.', '.'] <+: c :: cs := by
  simp only [fitsPlain, isMultiline, hasOuterSpace, looksLikeYaml, htext, Bool.and_eq_true,
    Bool.not_eq_true', Bool.or_eq_false_iff, List.head?_cons, Option.any_some, List.all_eq_true,
    List.any_eq_false, Bool.and_eq_false_imp, Bool.or_eq_true, beq_iff_eq] at h
  obtain ⟨⟨⟨hwritable, hbreak⟩, hfirst, hlast⟩, ⟨hdashes, hdots⟩, ⟨hc, hdash⟩, hsep⟩ := h
  refine ⟨fun d hd => ⟨hwritable d hd, by simpa using hbreak d hd⟩, ?_, ?_, hc, ?_, hsep, ?_, ?_⟩
  · rintro rfl
    exact absurd hfirst (by decide)
  · intro hspace
    rw [hspace] at hlast
    exact absurd hlast (by decide)
  · rintro (h | h | h)
    · exact hdash (.inr h)
    · exact hdash (.inl (.inl h))
    · exact hdash (.inl (.inr h))
  · intro h
    rw [List.isPrefixOf_iff_prefix.mpr h] at hdashes
    exact Bool.noConfusion hdashes
  · intro h
    rw [List.isPrefixOf_iff_prefix.mpr h] at hdots
    exact Bool.noConfusion hdots

/-- A plain scalar is read back up to where it ends. -/
theorem readPlain_fitsPlain {s : YamlScalar} {c : Char} {cs : List Char} (h : s.fitsPlain = true)
    (htext : s.text = c :: cs) (folds : Bool) {inner indent : Nat} (hinner : inner ≤ indent)
    (hindent : 0 < indent) (column : Nat) (rest : List Char) : ∃ place,
    readPlain false inner [] .none 0
        (foldYaml (fun c => [c]) folds indent none column s.text ++ rest) =
      readPlain false inner s.text.reverse .none place rest := by
  obtain ⟨hwritable, hspace, hlast, -, hdash, hsep, -, -⟩ := fitsPlain_cons h htext
  rw [List.forall_mem_cons] at hwritable
  rw [htext, foldYaml, if_neg hspace, if_neg (by simp [hwritable.1.2]), List.append_assoc,
    List.singleton_append, readPlain_word inner [] 0 hspace
      (by rw [isYamlLineEnd_of_writable hwritable.1.1]; exact hwritable.1.2)
      (endsPlain_foldYaml hspace hwritable.1.1 hwritable.1.2 (fun d hd => (hwritable.2 d hd).2)
        fun h => hdash (.inr (.inr h))) (.inl rfl) nofun]
  obtain ⟨place, hread⟩ := readPlain_foldYaml folds hinner hindent cs rest (column + 1) 0
    [c] (.word hspace hwritable.1.2) hwritable.1.2 nofun hwritable.2 hsep hlast
  refine ⟨place, hread.trans ?_⟩
  rw [List.reverse_cons]
  rfl

end YamlScalar

/-- Nothing is folded on a line that may be long. -/
theorem foldYaml_false {raw : Char → List Char} (hraw : raw ' ' = [' ']) (indent : Nat)
    (before : Option Char) (column : Nat) {cs : List Char} (hbreaks : cs.any isYamlBreak = false) :
    foldYaml raw false indent before column cs = cs.flatMap raw := by
  induction cs generalizing before column with
  | nil => rfl
  | cons c cs ih =>
      rw [List.any_cons, Bool.or_eq_false_iff] at hbreaks
      rw [foldYaml, List.flatMap_cons]
      by_cases hspace : c = ' '
      · rw [if_pos hspace, Bool.false_and, Bool.false_and, Bool.false_and,
          if_neg Bool.false_ne_true, ih _ _ hbreaks.2, hspace, hraw]
        rfl
      · rw [if_neg hspace, hbreaks.1, if_neg Bool.false_ne_true, ih _ _ hbreaks.2]

end Docket
