import Docket.Proofs.Yaml.DoubleQuoted
import Docket.Proofs.Yaml.Scanning

/-!
# Scalars as tokens

A scalar is one token, however many lines it takes. What follows it is told by the line
it ends on: a scalar that is the last on its lines is followed by a line that is indented
no further than the collection around it, and a simple key by its colon. Only when the
colon is met does it turn out that there was a key, so the mark of the key, and that of a
map if it opens here, are put before the token that has been collected already.

## Main definitions

* `YamlScalar.survives`: Whether a scalar is read back as it was written.
* `YamlScan.keyBegun`: Where a key may have begun.

## Theorems

* `YamlScalar.token_quoted`, `YamlScalar.token_unquoted`: A scalar is read back.
* `YamlScan.Awaits.scalar`: A scalar that is the last token on its lines.
* `YamlScan.Awaits.simpleKey`: A simple key, with the colon behind it.
-/

namespace Docket

namespace YamlScan

/-- Where a key may have begun, if one may begin here. -/
def keyBegun (p : YamlCursor) (tokens : List YamlToken) (indents : List Nat) (allowed : Bool) :
    Option YamlKeyPlace :=
  if allowed then
    some ⟨tokens.length, p.index, p.line, p.column, indents.head? == some p.column⟩
  else none

/-- No key must have begun unless the place is where the keys of a map stand. -/
theorem keyBegun_optional (p : YamlCursor) (tokens : List YamlToken) {indents : List Nat}
    {allowed : Bool} (h : allowed = true → indents.head? ≠ some p.column) :
    ∀ b ∈ keyBegun p tokens indents allowed,
      b.required = false ∧ b.line = p.line ∧ b.index = p.index := by
  intro b hb
  unfold keyBegun at hb
  split at hb
  next hallowed =>
    obtain rfl := Option.some.inj hb
    exact ⟨beq_false_of_ne (h hallowed), rfl, rfl⟩
  next => cases hb

section

variable (p : YamlCursor) (tokens : List YamlToken) (indents : List Nat) (allowed : Bool)

theorem rememberKey_outside : (outside p tokens indents none allowed).rememberKey =
    .ok (outside p tokens indents (keyBegun p tokens indents allowed) allowed) := by
  cases allowed <;> rfl

theorem keyStart_outside (t : YamlToken) (rest : List Char) :
    (outside p tokens indents none allowed).keyStart (.ok (t, rest)) =
      .ok (outside (p.upTo rest) (t :: tokens) indents (keyBegun p tokens indents allowed)
        false) := by
  unfold keyStart
  rw [rememberKey_outside]
  rfl

theorem plainScalar_outside {r : YamlPlain}
    (hread : readPlain false (outside p tokens indents none allowed).inner [] .none 0 p.rest = r) :
    (outside p tokens indents none allowed).plainScalar =
      .ok (outside (p.upTo r.rest) (.scalar r.text true :: tokens) indents
        (keyBegun p tokens indents allowed) r.crossed) := by
  unfold plainScalar
  rw [rememberKey_outside, ← hread]
  rfl

end

/-- A plain scalar begins where nothing else does. -/
theorem token_plain {s : YamlScan} {c : Char} {rest : List Char} (hflow : s.inFlow = false)
    (hfirst : s.place.column = 0 → atYamlMark (c :: rest) = false) (hblank : isYamlBlank c = false)
    (hc : yamlIndicators.contains c = false)
    (hdash : c = '-' ∨ c = '?' ∨ c = ':' → atYamlBlank rest = false) :
    s.token c rest = s.plainScalar := by
  have hmark : (s.place.column == 0 && atYamlMark (c :: rest)) = false := by
    by_cases h : s.place.column = 0
    · simp [h, hfirst h]
    · simp [h]
  have hne : ∀ d ∈ yamlIndicators, c ≠ d := by
    rintro d hd rfl
    rw [List.contains_eq_mem, decide_eq_false_iff_not] at hc
    exact hc hd
  have hlead : (c == '-' && atYamlBlank rest) = false ∧ (c == '?' && atYamlBlank rest) = false ∧
      (c == ':' && atYamlBlank rest) = false := by
    simp only [Bool.and_eq_false_imp, beq_iff_eq]
    exact ⟨fun h => hdash (.inl h), fun h => hdash (.inr (.inl h)), fun h => hdash (.inr (.inr h))⟩
  -- The three marks that may begin a scalar do so unless a blank follows, and no other one does.
  have hplain : s.atPlain c rest = true := by
    unfold atPlain
    by_cases h : c = '-' ∨ c = '?' ∨ c = ':'
    · rw [hdash h, hflow]
      rcases h with rfl | rfl | rfl <;> simp
    · have hother : "-?:,[]\x7b\x7d#&*!|>'\"%@\x60".toList.contains c = false := by
        have hall : ∀ d ∈ "-?:,[]\x7b\x7d#&*!|>'\"%@\x60".toList,
            d ∈ yamlIndicators ∨ d = '-' ∨ d = '?' ∨ d = ':' :=
          List.all_iff_forall_prop.mp (by decide)
        rw [List.contains_eq_mem, decide_eq_false_iff_not]
        intro hmem
        exact (hall c hmem).elim (fun hd => hne c hd rfl) h
      rw [hblank, hother]
      rfl
  -- All other tokens begin with an indicator.
  unfold token
  simp only [beq_false_of_ne (hne '%' (by decide)), Bool.false_and, Bool.false_eq_true, if_false]
  have hunmarked : ∀ d, (s.place.column == 0 && c == d && atYamlMark (c :: rest)) = false := by
    intro d
    rw [Bool.and_right_comm, hmark, Bool.false_and]
  simp only [hunmarked, Bool.false_eq_true, if_false]
  split
  case h_11 =>
    simp [hlead, hflow, hplain, hne '|' (by decide), hne '>' (by decide)]
  all_goals exact absurd rfl (hne _ (by decide))

end YamlScan

namespace YamlScalar

/-- Whether a scalar is read back as it was written, its further lines being indented by
    `indent` columns. Of the line breaks between single quotes one does not keep its
    identity; and between double quotes no blank may stand behind an escaped character
    if lines are indented as far as they can be long. -/
def survives (indent : Nat) (s : YamlScalar) : Bool :=
  match s.style with
  | .plain => !s.text.isEmpty
  | .single => s.tag == .text && !s.text.contains '\u0085'
  | .double => s.tag == .text &&
      (decide (indent < yamlWidth) || !hasNeighbours (fun c => !isDoubleQuotedRaw c) isSpace s.text)
  | .literal => false

theorem survives_cases {s : YamlScalar} {indent : Nat} (hs : s.survives indent = true) :
    (s.style = .plain ∧ s.text ≠ []) ∨
      (s.style = .single ∧ s.tag = .text ∧ '\u0085' ∉ s.text) ∨
      (s.style = .double ∧ s.tag = .text ∧ (indent < yamlWidth ∨
        hasNeighbours (fun c => !isDoubleQuotedRaw c) isSpace s.text = false)) := by
  unfold survives at hs
  split at hs
  next h => exact .inl ⟨h, by simpa using hs⟩
  next h => exact .inr (.inl ⟨h, by simpa using hs⟩)
  next h => exact .inr (.inr ⟨h, by simpa using hs⟩)
  next => cases hs

theorem style_eq_plain {s : YamlScalar} (h : s.style = .plain) :
    yamlPlainTag s.text = s.tag ∧ s.fitsPlain = true := by
  unfold style at h
  split at h
  · cases h
  split at h
  · cases h
  split at h
  next hplain => simpa [isTelling] using hplain
  · split at h <;> cases h

theorem style_eq_single {s : YamlScalar} (h : s.style = .single) : s.fitsSingle = true := by
  unfold style at h
  split at h
  · cases h
  split at h
  · cases h
  split at h
  · cases h
  split at h
  next hsingle => exact hsingle
  · cases h

theorem write_plain {s : YamlScalar} (h : s.style = .plain) (folds : Bool) (indent column : Nat) :
    s.write folds indent column = foldYaml (fun c => [c]) folds indent none column s.text := by
  simp [write, tagText, h]

theorem write_single {s : YamlScalar} (h : s.style = .single) (htag : s.tag = .text) (folds : Bool)
    (indent column : Nat) : s.write folds indent column =
      '\'' :: foldYaml singleQuotedChar folds indent none (column + 1) s.text ++ ['\''] := by
  simp [write, tagText, h, htag]

theorem write_double {s : YamlScalar} (h : s.style = .double) (htag : s.tag = .text) (folds : Bool)
    (indent column : Nat) : s.write folds indent column =
      '"' :: foldDoubleQuoted folds indent true false (column + 1) s.text ++ ['"'] := by
  simp [write, tagText, h, htag]

/-- Nothing depends on the place of a text on one line. -/
theorem write_false {s : YamlScalar} {indent : Nat} (hs : s.survives indent = true)
    (hline : s.isMultiline = false) (i j place place' : Nat) :
    s.write false i place = s.write false j place' := by
  rcases survives_cases hs with ⟨h, -⟩ | ⟨h, htag, -⟩ | ⟨h, htag, -⟩
  · rw [write_plain h, write_plain h, foldYaml_false rfl _ _ _ hline,
      foldYaml_false rfl _ _ _ hline]
  · rw [write_single h htag, write_single h htag, foldYaml_false rfl _ _ _ hline,
      foldYaml_false rfl _ _ _ hline]
  · rw [write_double h htag, write_double h htag, foldDoubleQuoted_false, foldDoubleQuoted_false]

theorem isYamlLineEnd_singleQuotedChar {c d : Char} (hc : isYamlLineEnd c = false)
    (h : d ∈ singleQuotedChar c) : isYamlLineEnd d = false := by
  unfold singleQuotedChar at h
  split at h
  next =>
    obtain rfl : d = '\'' := by simpa using h
    decide
  next =>
    obtain rfl := List.mem_singleton.mp h
    exact hc

/-- What stands between quotes on one line. -/
theorem isYamlLineEnd_quoted {q : Char} {raw : Char → List Char} {cs : List Char}
    (hq : isYamlLineEnd q = false) (h : ∀ c ∈ cs, ∀ d ∈ raw c, isYamlLineEnd d = false) :
    ∀ d ∈ q :: cs.flatMap raw ++ [q], isYamlLineEnd d = false := by
  intro d hd
  simp only [List.cons_append, List.mem_cons, List.mem_append, List.mem_flatMap,
    List.not_mem_nil, or_false] at hd
  rcases hd with rfl | ⟨c, hc, hd⟩ | rfl
  · exact hq
  · exact h c hc d hd
  · exact hq

/-- A text on one line is written on one line. -/
theorem isYamlLineEnd_write {s : YamlScalar} {indent : Nat} (hs : s.survives indent = true)
    (hline : s.isMultiline = false) (i place : Nat) :
    ∀ c ∈ s.write false i place, isYamlLineEnd c = false := by
  have hword : ∀ c ∈ s.text, isYamlWritable c = true → isYamlLineEnd c = false := by
    intro c hmem hc
    rw [isYamlLineEnd_of_writable hc]
    simpa using List.any_eq_false.mp hline c hmem
  -- One case for each style: plain, in single quotes, in double quotes.
  rcases survives_cases hs with ⟨h, hne⟩ | ⟨h, htag, -⟩ | ⟨h, htag, -⟩
  · obtain ⟨c, cs, htext⟩ := List.exists_cons_of_ne_nil hne
    obtain ⟨hwritable, -⟩ := fitsPlain_cons (style_eq_plain h).2 htext
    rw [write_plain h, foldYaml_false rfl _ _ _ hline, List.flatMap_singleton']
    exact fun d hd => hword d hd (hwritable d (htext ▸ hd)).1
  · have hfits := style_eq_single h
    simp only [fitsSingle, Bool.and_eq_true, List.all_eq_true] at hfits
    rw [write_single h htag, foldYaml_false rfl _ _ _ hline]
    exact isYamlLineEnd_quoted (by decide) fun c hc d hd =>
      isYamlLineEnd_singleQuotedChar (hword c hc (hfits.1.1 c hc)) hd
  · rw [write_double h htag, foldDoubleQuoted_false]
    exact isYamlLineEnd_quoted (by decide) fun c hc d hd => isYamlLineEnd_doubleQuotedChar hd

theorem survives_mono {s : YamlScalar} {i j : Nat} (h : i ≤ j) (hs : s.survives j = true) :
    s.survives i = true := by
  unfold survives at hs ⊢
  cases hstyle : s.style with
  | double =>
      rw [hstyle] at hs
      simp only [Bool.and_eq_true, Bool.or_eq_true, decide_eq_true_eq] at hs ⊢
      exact ⟨hs.1, hs.2.imp_left fun hj => Nat.lt_of_le_of_lt h hj⟩
  | _ => rwa [hstyle] at hs

/-- A scalar in quotes begins with a quote, and its text is read back. -/
theorem token_quoted {s : YamlScalar} {indent : Nat} (hs : s.survives indent = true)
    (hstyle : s.style ≠ .plain) (folds : Bool) (hindent : 0 < indent) (column : Nat)
    {rest : List Char} (hrest : rest.head? ≠ some '\'') :
    ∃ c body, s.write folds indent column ++ rest = c :: body ∧ rest.length ≤ body.length ∧
      ∀ t : YamlScan, t.token c body = t.keyStart (.ok (.scalar s.text false, rest)) := by
  rcases survives_cases hs with ⟨h, -⟩ | ⟨h, htag, hnel⟩ | ⟨h, htag, hdeep⟩
  · exact absurd h hstyle
  · refine ⟨'\'', _, by rw [write_single h htag, List.cons_append, List.cons_append],
      by simp only [List.length_append, List.length_cons]; omega, fun t => ?_⟩
    have hread :=
      readSingleQuoted_fitsSingle (style_eq_single h) hnel folds hindent (column + 1) hrest
    simp [YamlScan.token, hread, Except.map]
  · refine ⟨'"', _, by rw [write_double h htag, List.cons_append, List.cons_append],
      by simp only [List.length_append, List.length_cons]; omega, fun t => ?_⟩
    have hread := readDoubleQuoted_text folds (fun _ => hindent) (column + 1) rest hdeep
    simp [YamlScan.token, hread, Except.map]

/-- A scalar without quotes is read up to where it ends, which depends on how far the
    innermost collection is indented. -/
theorem token_unquoted {s : YamlScalar} {indent : Nat} (hs : s.survives indent = true)
    (hstyle : s.style = .plain) (folds : Bool) {inner width : Nat} (hinner : inner ≤ width)
    (hwidth : 0 < width) (column : Nat) (rest : List Char) :
    ∃ c body place, s.write folds width column ++ rest = c :: body ∧ rest.length ≤ body.length ∧
      readPlain false inner [] .none 0 (c :: body) =
        readPlain false inner s.text.reverse .none place rest ∧
      ∀ t : YamlScan, t.inFlow = false → (t.place.column = 0 → atYamlMark (c :: body) = false) →
        t.token c body = t.plainScalar := by
  have hfits := (style_eq_plain hstyle).2
  obtain ⟨c, cs, htext⟩ := List.exists_cons_of_ne_nil (l := s.text)
    (by simpa [survives, hstyle] using hs)
  obtain ⟨hwritable, hspace, -, hc, hdash, -⟩ := fitsPlain_cons hfits htext
  rw [List.forall_mem_cons] at hwritable
  obtain ⟨⟨hw, hb⟩, hbreaks⟩ := hwritable
  obtain ⟨place, hread⟩ := readPlain_fitsPlain hfits htext folds hinner hwidth column rest
  -- The first character is written as it is: the line is not folded before it.
  have hbody : s.write folds width column ++ rest =
      c :: (foldYaml (fun c => [c]) folds width (some c) (column + 1) cs ++ rest) := by
    rw [write_plain hstyle, htext, foldYaml, if_neg hspace, if_neg (by simp [hb])]
    rfl
  have hblank : isYamlBlank c = false := by
    have htab : c ≠ '\t' := by rintro rfl; exact absurd hw (by decide)
    have hnul : c ≠ '\u0000' := by rintro rfl; exact absurd hw (by decide)
    simp [isYamlBlank, hspace, htab, hnul, isYamlLineEnd_of_writable hw, hb]
  refine ⟨c, _, place, hbody, by simp, ?_, fun t hflow hmark => ?_⟩
  · rw [← hbody, write_plain hstyle]
    exact hread
  · exact YamlScan.token_plain hflow hmark hblank hc fun h =>
      atYamlBlank_foldYaml _ _ _ _ _ (fun d hd => (hbreaks d hd).2) (hdash h)

/-- A colon makes no mark of a document. -/
theorem atYamlMark_colon {cs : List Char} (hdashes : ¬ ['-', '-', '-'] <+: cs)
    (hdots : ¬ ['.', '.', '.'] <+: cs) (rest : List Char) :
    atYamlMark (cs ++ ':' :: rest) = false := by
  -- With fewer than three characters the colon is among the three that would be the mark.
  rcases cs with _ | ⟨a, _ | ⟨b, _ | ⟨c, cs⟩⟩⟩
  · rfl
  · simp [atYamlMark]
  · simp [atYamlMark]
  · unfold atYamlMark
    split
    next h =>
      simp only [List.cons_append, List.cons.injEq] at h
      obtain ⟨rfl, rfl, rfl, -⟩ := h
      exact absurd ⟨cs, rfl⟩ hdashes
    next h =>
      simp only [List.cons_append, List.cons.injEq] at h
      obtain ⟨rfl, rfl, rfl, -⟩ := h
      exact absurd ⟨cs, rfl⟩ hdots
    next => rfl

/-- A simple key is no mark of a document. -/
theorem atYamlMark_write {s : YamlScalar} {indent : Nat} (hs : s.survives indent = true)
    (hline : s.isMultiline = false) (i place : Nat) (rest : List Char) :
    atYamlMark (s.write false i place ++ ':' :: rest) = false := by
  rcases survives_cases hs with ⟨h, hne⟩ | ⟨h, htag, -⟩ | ⟨h, htag, -⟩
  · obtain ⟨c, cs, htext⟩ := List.exists_cons_of_ne_nil hne
    obtain ⟨-, -, -, -, -, -, hdashes, hdots⟩ := fitsPlain_cons (style_eq_plain h).2 htext
    rw [write_plain h, foldYaml_false rfl _ _ _ hline, List.flatMap_singleton', htext]
    exact atYamlMark_colon hdashes hdots rest
  · rw [write_single h htag]
    rfl
  · rw [write_double h htag]
    rfl

/-- The written scalar is not empty, and begins with a token. -/
theorem startsToken_write {s : YamlScalar} {indent : Nat} (hs : s.survives indent = true)
    (folds : Bool) (indent' column : Nat) (rest : List Char) :
    StartsToken (s.write folds indent' column ++ rest) := by
  rcases survives_cases hs with ⟨h, hne⟩ | ⟨h, htag, -⟩ | ⟨h, htag, -⟩
  · obtain ⟨c, cs, htext⟩ := List.exists_cons_of_ne_nil hne
    obtain ⟨hwritable, hspace, -, hc, -⟩ := fitsPlain_cons (style_eq_plain h).2 htext
    obtain ⟨hw, hb⟩ := hwritable c List.mem_cons_self
    have hhash : c ≠ '#' := by rintro rfl; exact absurd hc (by decide)
    rw [write_plain h, htext, foldYaml, if_neg hspace, if_neg (by simp [hb])]
    exact startsToken_cons ((isYamlLineEnd_of_writable hw).trans hb) hspace hhash _
  · rw [write_single h htag]
    exact startsToken_cons (by decide) (by decide) (by decide) _
  · rw [write_double h htag]
    exact startsToken_cons (by decide) (by decide) (by decide) _

end YamlScalar

namespace YamlScan

section

variable {t : YamlScan} {s : YamlScalar} {indent column k : Nat} {rest : List Char}
  {tokens : List YamlToken} {indents : List Nat} {i : Nat}

open YamlScalar

/-- The colon behind a simple key puts the marks of the key before it. -/
theorem token_colon (p : YamlCursor) (indents : List Nat) {key : YamlKeyPlace} (text : YamlToken)
    (hblank : atYamlBlank rest = true) (htoken : key.token = tokens.length) :
    (outside p (text :: tokens) indents (some key) false).token ':' rest =
      .ok (outside p.next (.value :: text :: .key :: opening .blockMap key.column indents tokens)
        (opened key.column indents) none false) := by
  -- One token was read since, and the mark of the key goes before it.
  have hinsert : ({ outside p (text :: tokens) indents (some key) false with keys := [none] } :
      YamlScan).insert key.token .key = outside p ([text, .key] ++ tokens) indents none false := by
    have hcount : (text :: tokens).length - key.token = [text].length := by simp [htoken]
    simp only [insert, outside, hcount]
    exact congrArg (fun tokens => YamlScan.mk _ tokens _ _ _ _)
      (insertBehind_append _ [text] tokens)
  have hopen := openAt_outside p [text, .key] tokens indents false key.column .blockMap
  have hcolon : (outside p (text :: tokens) indents (some key) false).colon =
      .ok (outside p.next (.value :: text :: .key :: opening .blockMap key.column indents tokens)
        (opened key.column indents) none false) := by
    change Except.ok ((((({ outside p (text :: tokens) indents (some key) false with
      keys := [none] } : YamlScan).insert key.token .key).openAt key.column key.token
        .blockMap).allow false).take 1 .value) = _
    rw [hinsert, htoken, hopen]
    rfl
  simp [token, hblank, hcolon]

/-- A scalar that is the last token on its lines. It might be a key, but not one that must
    begin there. -/
theorem Awaits.scalar {allowed : Bool} (place : Nat)
    (h : t.Awaits (s.write true indent place ++ (yamlNewline k ++ rest)) column tokens
      (i :: indents) allowed)
    (hs : s.survives indent = true) (hfold : i < indent) (hi : i ≤ column) (hk : k ≤ i)
    (hcolumn : 0 < column) (hkey : allowed = true → i ≠ column) (hrest : LineStarts k rest) :
    t.Reaches (Awaits rest k (.scalar s.text (s.style == .plain) :: tokens) (i :: indents)
      true) := by
  have hindent : 0 < indent := Nat.zero_lt_of_lt hfold
  have hhead : ∀ j ∈ (i :: indents).head?, j ≤ column := by simpa using hi
  have hoptional : allowed = true → (i :: indents).head? ≠ some column := by simpa using hkey
  have hbegun := fun text index line =>
    keyBegun_optional ⟨text, index, line, column⟩ tokens hoptional
  by_cases hstyle : s.style = .plain
  · rw [hstyle, beq_self_eq_true]
    -- Without quotes the scalar ends before the next line, which is not indented as far.
    obtain ⟨c, body, q, hwrite, hlength, hread, htoken⟩ := token_unquoted hs hstyle true
      (Nat.succ_le_of_lt hfold) hindent place (yamlNewline k ++ rest)
    rw [hwrite] at h
    refine h.reaches hhead fun index line => ?_
    rw [readPlain_newline (Nat.lt_succ_of_le hk) _ q hrest.unmarked
      (fun c hc => ⟨(hrest.token c hc).2.1, (hrest.token c hc).1⟩), List.reverse_reverse] at hread
    obtain ⟨index', line', hline, hplace⟩ := YamlCursor.upTo_line (s.write true indent place) k rest
      index line column
    rw [hwrite] at hplace
    have hplain := plainScalar_outside ⟨c :: body, index, line, column⟩ tokens (i :: indents)
      allowed hread
    rw [hplace, ← htoken _ rfl fun h => absurd h (Nat.ne_of_gt hcolumn)] at hplain
    refine ⟨_, hplain, Nat.le_trans (by simp [outside]) hlength, ?_⟩
    refine awaits_line (p := ⟨rest, index', line', k⟩) hrest.token fun b hb => ?_
    obtain ⟨hrequired, hb, -⟩ := hbegun _ _ _ b hb
    exact ⟨hrequired, by rw [hb]; exact hline⟩
  -- Quoted, it ends at its closing quote.
  · have hquote : (yamlNewline k ++ rest).head? ≠ some '\'' := by
      rw [yamlNewline, List.cons_append, List.head?_cons]
      decide
    obtain ⟨c, body, hwrite, hlength, htoken⟩ := token_quoted hs hstyle true hindent place hquote
    rw [beq_false_of_ne hstyle]
    rw [hwrite] at h
    refine h.reaches hhead fun index line => ?_
    obtain ⟨line', column', hplace, hline, -⟩ := YamlCursor.advance_append
      (s.write true indent place) (yamlNewline k ++ rest) index line column
    rw [← YamlCursor.upTo_append, hwrite] at hplace
    refine ⟨_, by rw [htoken, keyStart_outside, hplace], hlength, ?_⟩
    refine awaits_newline rfl hrest.token fun b hb => ?_
    obtain ⟨hrequired, hb, -⟩ := hbegun _ _ _ b hb
    exact ⟨hrequired, by rw [hb]; exact hline⟩

/-- The text of a simple key has been read, and a key may have begun where it does. -/
def AtColon (s : YamlScalar) (rest : List Char) (column : Nat) (tokens : List YamlToken)
    (indents : List Nat) (u : YamlScan) : Prop :=
  ∃ index column', index ≤ 1024 ∧ column ≤ column' ∧ ∃ key,
    u = outside ⟨':' :: rest, key.index + index, key.line, column'⟩
      (.scalar s.text (s.style == .plain) :: tokens) indents (some key) false ∧
    key.token = tokens.length ∧ key.column = column

/-- The text of a simple key ends at the colon, since a blank stands behind that. -/
theorem Awaits.keyText (place : Nat)
    (h : t.Awaits (s.write false 0 place ++ ':' :: rest) column tokens indents true)
    (hs : s.survives indent = true) (hindent : 0 < indent) (hline : s.isMultiline = false)
    (hlength : (s.write false 0 place).length ≤ 1024) (hcolumn : ∀ i ∈ indents.head?, i ≤ column)
    (hblank : atYamlBlank rest = true) :
    t.Reaches (AtColon s rest column tokens indents) := by
  have hmark := atYamlMark_write hs hline 0 place rest
  have hinline := isYamlLineEnd_write hs hline 0 place
  by_cases hstyle : s.style = .plain
  -- The indentation that the scalar must keep does not depend on where it begins.
  · obtain ⟨inner, hinner⟩ : ∃ inner, ∀ p : YamlCursor,
        (outside p tokens indents none true).inner = inner :=
      ⟨(outside ⟨[], 0, 0, 0⟩ tokens indents none true).inner, fun _ => rfl⟩
    rw [write_false hs hline 0 (inner + 1) place 0] at h hlength hinline hmark
    obtain ⟨c, body, q, hwrite, hbody, hread, htoken⟩ := token_unquoted hs hstyle false
      (Nat.le_succ inner) (Nat.succ_pos inner) 0 (':' :: rest)
    rw [hwrite] at h hmark
    refine h.reaches hcolumn fun index line => ?_
    rw [readPlain_colon _ _ _ hblank, List.reverse_reverse,
      ← hinner ⟨c :: body, index, line, column⟩] at hread
    obtain ⟨line', column', hplace, -, hend⟩ := YamlCursor.advance_append
      (s.write false (inner + 1) 0) (':' :: rest) index line column
    obtain ⟨rfl, hcolumn'⟩ := hend hinline
    rw [← YamlCursor.upTo_append, hwrite] at hplace
    have hplain := plainScalar_outside ⟨c :: body, index, line', column⟩ tokens indents true hread
    rw [hplace, ← htoken _ rfl fun _ => hmark] at hplain
    refine ⟨_, hplain, hbody, _, _, hlength, hcolumn', ⟨tokens.length, index, line', column,
      indents.head? == some column⟩, ?_, rfl, rfl⟩
    rw [hstyle]
    rfl
  · have hquote : (':' :: rest).head? ≠ some '\'' := by simp
    rw [write_false hs hline 0 1 place 0] at h hlength hinline
    obtain ⟨c, body, hwrite, hbody, htoken⟩ :=
      token_quoted (survives_mono hindent hs) hstyle false Nat.one_pos 0 hquote
    rw [hwrite] at h
    refine h.reaches hcolumn fun index line => ?_
    obtain ⟨line', column', hplace, -, hend⟩ := YamlCursor.advance_append (s.write false 1 0)
      (':' :: rest) index line column
    obtain ⟨rfl, hcolumn'⟩ := hend hinline
    rw [← YamlCursor.upTo_append, hwrite] at hplace
    refine ⟨_, by rw [htoken, keyStart_outside, hplace], hbody, _, _, hlength, hcolumn',
      ⟨tokens.length, index, line', column, indents.head? == some column⟩, ?_, rfl, rfl⟩
    rw [beq_false_of_ne hstyle]
    rfl

/-- A simple key, with the colon behind it. -/
theorem Awaits.simpleKey (place : Nat)
    (h : t.Awaits (s.write false 0 place ++ ':' :: rest) column tokens indents true)
    (hs : s.survives indent = true) (hindent : 0 < indent) (hline : s.isMultiline = false)
    (hlength : (s.write false 0 place).length ≤ 1024) (hcolumn : ∀ i ∈ indents.head?, i ≤ column)
    (hblank : atYamlBlank rest = true) :
    t.Reaches fun u => ∃ column', column < column' ∧ u.Stands rest column' (.value ::
      .scalar s.text (s.style == .plain) :: .key :: opening .blockMap column indents tokens)
      (opened column indents) false := by
  refine (h.keyText place hs hindent hline hlength hcolumn hblank).trans ?_
  rintro u ⟨index, column', hindex, hcolumn', key, rfl, hktoken, hkcolumn⟩
  have hhead : ∀ i ∈ indents.head?, i ≤ column' := fun i hi =>
    Nat.le_trans (hcolumn i hi) hcolumn'
  have hstart : StartsToken (':' :: rest) :=
    startsToken_cons (by decide) (by decide) (by decide) rest
  -- The key is not stale: it is on this line, and short enough.
  have hsettle := settle_key ⟨':' :: rest, key.index + index, key.line, column'⟩
    (.scalar s.text (s.style == .plain) :: tokens) indents false hstart rfl
    (by simpa using hindex)
  rw [unwind_outside hhead] at hsettle
  have htoken := token_colon ⟨':' :: rest, key.index + index, key.line, column'⟩ indents
    (.scalar s.text (s.style == .plain)) hblank hktoken
  rw [hkcolumn] at htoken
  exact reaches_of_token hsettle rfl (Nat.le_refl _) htoken (Nat.le_refl _)
    ⟨_, Nat.lt_succ_of_le hcolumn', _, _, rfl⟩

end

end YamlScan

end Docket
