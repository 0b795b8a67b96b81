import Docket.Proofs.Yaml.Texts
import Docket.Yaml.Token

/-!
# Collecting tokens

Outside of brackets little is known between two tokens: where the text goes on, what has
been collected, how far the open collections are indented, and where a key may have
begun. So a document is scanned piece by piece. Each piece is a token or two, and leads
from a state of one kind to a state of another.

Blanks and line ends are skipped before a token, and collections that are indented
further than the token end there. Whatever is written next need only say in which column
its first token is.

## Main definitions

* `YamlScan.outside`: What is known outside of brackets.
* `YamlScan.Awaits`: The next token begins at a given place.
* `YamlScan.Stands`: The place is right behind a mark.
* `YamlScan.Reaches`: Collecting tokens goes on from a state with some property.
* `YamlScan.opening`, `YamlScan.opened`: What opens with a token in some column.

## Theorems

* `YamlScan.Awaits.ends`: A collection ends where less is indented.
* `YamlScan.Awaits.dash`, `YamlScan.Awaits.question`, `YamlScan.Awaits.colon`: The marks
  of block collections.
-/

namespace Docket

namespace YamlCursor

theorem next_blank (rest : List Char) (index line column : Nat) :
    YamlCursor.next ⟨' ' :: rest, index, line, column⟩ = ⟨rest, index + 1, line, column + 1⟩ := rfl

theorem next_line (rest : List Char) (index line column : Nat) :
    YamlCursor.next ⟨'\n' :: rest, index, line, column⟩ = ⟨rest, index + 1, line + 1, 0⟩ := rfl

theorem advance_add (p : YamlCursor) (m n : Nat) :
    p.advance (m + n) = (p.advance m).advance n := by
  induction m generalizing p with
  | zero => rw [Nat.zero_add]; rfl
  | succ m ih => rw [Nat.succ_add]; exact ih p.next

/-- The indentation of a line. -/
theorem advance_replicate (k : Nat) (rest : List Char) (index line column : Nat) :
    YamlCursor.advance ⟨List.replicate k ' ' ++ rest, index, line, column⟩ k =
      ⟨rest, index + k, line, column + k⟩ := by
  induction k generalizing index column with
  | zero => rfl
  | succ k ih =>
      rw [advance, List.replicate_succ, List.cons_append, next_blank, ih]
      congr 1 <;> omega

/-- A place further on. The line is the same unless there is a line break. -/
theorem advance_append (as rest : List Char) (index line column : Nat) :
    ∃ line' column', YamlCursor.advance ⟨as ++ rest, index, line, column⟩ as.length =
      ⟨rest, index + as.length, line', column'⟩ ∧ line ≤ line' ∧
      ((∀ c ∈ as, isYamlLineEnd c = false) → line' = line ∧ column ≤ column') := by
  induction as generalizing index line column with
  | nil => exact ⟨line, column, rfl, Nat.le_refl _, fun _ => ⟨rfl, Nat.le_refl _⟩⟩
  | cons c as ih =>
      -- One character moves the place by one, and only a line break begins a new line.
      have hnext : ∃ line' column', YamlCursor.next ⟨c :: (as ++ rest), index, line, column⟩ =
          ⟨as ++ rest, index + 1, line', column'⟩ ∧ line ≤ line' ∧
            (isYamlLineEnd c = false → line' = line ∧ column ≤ column') := by
        unfold next
        simp only []
        split
        next h =>
          refine ⟨_, _, rfl, Nat.le_succ _, fun hc => ?_⟩
          rw [isYamlLineEnd, Bool.or_eq_false_iff] at hc
          simp [hc.1, hc.2] at h
        next =>
          split
          · exact ⟨_, _, rfl, Nat.le_refl _, fun _ => ⟨rfl, Nat.le_refl _⟩⟩
          · exact ⟨_, _, rfl, Nat.le_refl _, fun _ => ⟨rfl, Nat.le_succ _⟩⟩
      obtain ⟨l₁, c₁, h₁, hl₁, hs₁⟩ := hnext
      obtain ⟨l₂, c₂, h₂, hl₂, hs₂⟩ := ih (index + 1) l₁ c₁
      refine ⟨l₂, c₂, ?_, Nat.le_trans hl₁ hl₂, fun h => ?_⟩
      · rw [List.length_cons, advance, List.cons_append, h₁, h₂]
        congr 1
        omega
      · rw [List.forall_mem_cons] at h
        obtain ⟨hl, hc⟩ := hs₁ h.1
        obtain ⟨hl', hc'⟩ := hs₂ h.2
        exact ⟨hl'.trans hl, Nat.le_trans hc hc'⟩

theorem upTo_append (as rest : List Char) (index line column : Nat) :
    YamlCursor.upTo ⟨as ++ rest, index, line, column⟩ rest =
      YamlCursor.advance ⟨as ++ rest, index, line, column⟩ as.length := by
  rw [upTo, List.length_append, Nat.add_sub_cancel]

theorem upTo_self (p : YamlCursor) : p.upTo p.rest = p := by
  rw [upTo, Nat.sub_self]
  rfl

theorem upTo_blank (rest : List Char) (index line column : Nat) :
    YamlCursor.upTo ⟨' ' :: rest, index, line, column⟩ rest =
      ⟨rest, index + 1, line, column + 1⟩ :=
  upTo_append [' '] rest index line column

/-- The first character of the next line. -/
theorem upTo_newline (k : Nat) (rest : List Char) (index line column : Nat) :
    YamlCursor.upTo ⟨yamlNewline k ++ rest, index, line, column⟩ rest =
      ⟨rest, index + (k + 1), line + 1, k⟩ := by
  rw [upTo_append, yamlNewline, List.length_cons, List.length_replicate, List.cons_append,
    Nat.add_comm k 1, advance_add, advance, advance, next_line, advance_replicate, Nat.zero_add,
    Nat.add_assoc]

/-- The first character of the next line, behind whatever stands before. -/
theorem upTo_line (as : List Char) (k : Nat) (rest : List Char) (index line column : Nat) :
    ∃ index' line', line < line' ∧
      YamlCursor.upTo ⟨as ++ (yamlNewline k ++ rest), index, line, column⟩ rest =
        ⟨rest, index', line', k⟩ := by
  obtain ⟨line', column', hfirst, hline, -⟩ :=
    advance_append as (yamlNewline k ++ rest) index line column
  refine ⟨index + as.length + (k + 1), line' + 1, Nat.lt_succ_of_le hline, ?_⟩
  have hlength : (as ++ (yamlNewline k ++ rest)).length - rest.length =
      as.length + (yamlNewline k).length := by
    simp only [List.length_append]
    omega
  rw [upTo, hlength, advance_add, hfirst, ← upTo_append, upTo_newline]

end YamlCursor

/-- Whether a text begins with a character of a token, if with any. -/
def StartsToken (cs : List Char) : Prop :=
  ∀ c ∈ cs.head?, isYamlLineEnd c = false ∧ c ≠ ' ' ∧ c ≠ '#'

/-- What stands on a line of its own: it begins with a token that is no mark of a
    document. -/
structure LineStarts (k : Nat) (rest : List Char) : Prop where
  token : StartsToken rest
  unmarked : atYamlMark (List.replicate k ' ' ++ rest) = false

theorem startsToken_cons {c : Char} (hend : isYamlLineEnd c = false) (hspace : c ≠ ' ')
    (hhash : c ≠ '#') (rest : List Char) : StartsToken (c :: rest) := by
  intro d hd
  obtain rfl : c = d := Option.some.inj hd
  exact ⟨hend, hspace, hhash⟩

/-- Where a line is indented, no mark of a document begins. -/
theorem StartsToken.lineStarts {rest : List Char} (h : StartsToken rest)
    (hmark : atYamlMark rest = false) (k : Nat) : LineStarts k rest :=
  ⟨h, by
    cases k with
    | zero => exact hmark
    | succ k => exact atYamlMark_of_indented (Nat.succ_pos k) rest⟩

theorem skipYamlBlanks_startsToken {cs : List Char} (h : StartsToken cs) (crossed : Bool) :
    skipYamlBlanks crossed false cs = (crossed, cs) := by
  cases cs with
  | nil => rfl
  | cons c cs =>
      obtain ⟨hend, hspace, hhash⟩ := h c rfl
      simp [skipYamlBlanks, hend, hspace, hhash]

theorem skipYamlBlanks_blank {cs : List Char} (h : StartsToken cs) :
    skipYamlBlanks false false (' ' :: cs) = (false, cs) := by
  rw [skipYamlBlanks, if_neg (by decide), if_pos (by decide), skipYamlBlanks_startsToken h]

theorem skipYamlBlanks_newline {cs : List Char} (h : StartsToken cs) (k : Nat) :
    skipYamlBlanks false false (yamlNewline k ++ cs) = (true, cs) := by
  have hindent : skipYamlBlanks true false (List.replicate k ' ' ++ cs) = (true, cs) := by
    induction k with
    | zero => exact skipYamlBlanks_startsToken h true
    | succ k ih =>
        rw [List.replicate_succ, List.cons_append, skipYamlBlanks, if_neg (by decide),
          if_pos (by decide), ih]
  rw [yamlNewline, List.cons_append, skipYamlBlanks, if_pos (by decide), hindent]

namespace YamlScan

/-- What is known outside of brackets. -/
def outside (place : YamlCursor) (tokens : List YamlToken) (indents : List Nat)
    (key : Option YamlKeyPlace) (allowed : Bool) : YamlScan :=
  ⟨place, tokens, tokens.length, indents, [key], allowed⟩

/-- What is known where the next token begins, or the text ends. -/
def settle (s : YamlScan) : Except YamlFault YamlScan := do
  let s ← s.skipBlanks.forgetStale
  return if s.inFlow then s else s.unwind s.place.column

/-- A step goes on from where the next token begins. -/
theorem step_of_settle {s t : YamlScan} (h : s.settle = .ok t) :
    s.step = match t.place.rest with
      | [] => t.finish.map (·, true)
      | c :: rest => (t.token c rest).map (·, false) := by
  unfold settle at h
  unfold step
  cases hforget : s.skipBlanks.forgetStale with
  | error f => simp [hforget, bind, Except.bind] at h
  | ok r =>
      rw [hforget] at h
      obtain rfl := Except.ok.inj h
      rfl

/-- A step to the end of the text. -/
theorem step_of_finish {s t u : YamlScan} (hsettle : s.settle = .ok t) (hrest : t.place.rest = [])
    (hfinish : t.finish = .ok u) : s.step = .ok (u, true) := by
  rw [step_of_settle hsettle, hrest]
  simp only [hfinish, Except.map]

/-- A step over a token. -/
theorem step_of_token {s t u : YamlScan} {c : Char} {rest : List Char} (hsettle : s.settle = .ok t)
    (hrest : t.place.rest = c :: rest) (htoken : t.token c rest = .ok u) :
    s.step = .ok (u, false) := by
  rw [step_of_settle hsettle, hrest]
  simp only [htoken, Except.map]

section

variable {p : YamlCursor} {tokens : List YamlToken} {indents : List Nat}
  {key : Option YamlKeyPlace} {allowed crossed : Bool} {rest : List Char}

theorem skipBlanks_outside (hskip : skipYamlBlanks false false p.rest = (crossed, rest)) :
    (outside p tokens indents key allowed).skipBlanks =
      outside (p.upTo rest) tokens indents key (allowed || crossed) := by
  unfold skipBlanks
  simp only [outside, hskip]
  cases crossed <;> cases allowed <;> rfl

/-- A key that may have begun on another line has not begun there. -/
theorem settle_outside (hskip : skipYamlBlanks false false p.rest = (crossed, rest))
    (hkey : ∀ k ∈ key, k.required = false ∧ k.line ≠ (p.upTo rest).line) :
    (outside p tokens indents key allowed).settle =
      .ok ((outside (p.upTo rest) tokens indents none (allowed || crossed)).unwind
        (p.upTo rest).column) := by
  unfold settle
  rw [skipBlanks_outside hskip]
  -- The key is stale on a new line, and may be forgotten as it was not required.
  have hforget : (outside (p.upTo rest) tokens indents key (allowed || crossed)).forgetStale =
      .ok (outside (p.upTo rest) tokens indents none (allowed || crossed)) := by
    cases key with
    | none => rfl
    | some k =>
        obtain ⟨hrequired, hline⟩ := hkey k rfl
        have hstale : (outside (p.upTo rest) tokens indents (some k)
            (allowed || crossed)).isStale k = true := by
          simp [isStale, outside, hline]
        unfold forgetStale
        simp only [outside] at hstale ⊢
        simp [hstale, hrequired]
  rw [hforget]
  rfl

/-- A key that may have begun on this line, not long ago, may go on. -/
theorem settle_key (p : YamlCursor) (tokens : List YamlToken) (indents : List Nat) (allowed : Bool)
    {k : YamlKeyPlace} (hstart : StartsToken p.rest) (hline : k.line = p.line)
    (hindex : p.index ≤ k.index + 1024) :
    (outside p tokens indents (some k) allowed).settle =
      .ok ((outside p tokens indents (some k) allowed).unwind p.column) := by
  unfold settle
  rw [skipBlanks_outside (skipYamlBlanks_startsToken hstart false), YamlCursor.upTo_self,
    Bool.or_false]
  -- On the same line and within reach the key stays.
  have hforget : (outside p tokens indents (some k) allowed).forgetStale =
      .ok (outside p tokens indents (some k) allowed) := by
    have hfresh : (outside p tokens indents (some k) allowed).isStale k = false := by
      simp only [isStale, outside, hline, bne_self_eq_false, Bool.false_or]
      exact decide_eq_false (by omega)
    unfold forgetStale
    simp only [outside] at hfresh ⊢
    simp [hfresh]
  rw [hforget]
  rfl

/-- Nothing ends that is not indented further. -/
theorem unwind_outside {column : Nat} (h : ∀ i ∈ indents.head?, i ≤ column) :
    (outside p tokens indents key allowed).unwind column =
      outside p tokens indents key allowed := by
  cases indents with
  | nil => rfl
  | cons i indents =>
      have hi : decide (column < i) = false := decide_eq_false (Nat.not_lt.mpr (h i rfl))
      simp [unwind, outside, hi]

/-- What is indented further ends first. -/
theorem unwind_deeper {column i : Nat} (h : column < i) :
    (outside p tokens (i :: indents) key allowed).unwind column =
      (outside p (.blockEnd :: tokens) indents key allowed).unwind column := by
  simp only [unwind, outside, List.takeWhile_cons, decide_eq_true h, if_true, List.dropWhile_cons,
    List.length_cons, YamlScan.mk.injEq, true_and, and_true]
  refine ⟨?_, by omega⟩
  rw [List.replicate_succ', List.append_assoc, List.singleton_append]

end

/-- The next token begins where `rest` does. What is indented further than that is to
    be ended first. -/
def Awaits (rest : List Char) (column : Nat) (tokens : List YamlToken) (indents : List Nat)
    (allowed : Bool) (s : YamlScan) : Prop :=
  rest.length ≤ s.place.rest.length ∧ ∃ index line,
    s.settle = .ok ((outside ⟨rest, index, line, column⟩ tokens indents none allowed).unwind column)

/-- The place is right behind a mark. -/
def Stands (rest : List Char) (column : Nat) (tokens : List YamlToken) (indents : List Nat)
    (allowed : Bool) (s : YamlScan) : Prop :=
  ∃ index line, s = outside ⟨rest, index, line, column⟩ tokens indents none allowed

/-- Collecting tokens goes on from a state with some property. No more steps lead there
    than there are characters in between. -/
def Reaches (s : YamlScan) (P : YamlScan → Prop) : Prop :=
  ∃ t n, n + t.place.rest.length ≤ s.place.rest.length ∧
    (∀ fuel, s.run (n + fuel) = t.run fuel) ∧ P t

theorem Reaches.refl {s : YamlScan} {P : YamlScan → Prop} (h : P s) : s.Reaches P :=
  ⟨s, 0, by omega, fun fuel => by rw [Nat.zero_add], h⟩

theorem Reaches.trans {s : YamlScan} {P Q : YamlScan → Prop} (h : s.Reaches P)
    (hnext : ∀ t, P t → t.Reaches Q) : s.Reaches Q := by
  obtain ⟨t, n, hn, hrun, ht⟩ := h
  obtain ⟨u, m, hm, hrun', hu⟩ := hnext t ht
  refine ⟨u, n + m, by omega, fun fuel => ?_, hu⟩
  rw [Nat.add_assoc, hrun, hrun']

theorem Reaches.imp {s : YamlScan} {P Q : YamlScan → Prop} (h : s.Reaches P)
    (himp : ∀ t, P t → Q t) : s.Reaches Q :=
  h.trans fun t ht => .refl (himp t ht)

/-- One token. -/
theorem reaches_of_token {s t u : YamlScan} {c : Char} {rest : List Char} {P : YamlScan → Prop}
    (hsettle : s.settle = .ok t) (hrest : t.place.rest = c :: rest)
    (hlength : (c :: rest).length ≤ s.place.rest.length) (htoken : t.token c rest = .ok u)
    (hu : u.place.rest.length ≤ rest.length) (hP : P u) : s.Reaches P := by
  have hstep := step_of_token hsettle hrest htoken
  refine ⟨u, 1, ?_, fun fuel => ?_, hP⟩
  · rw [List.length_cons] at hlength
    omega
  · rw [Nat.add_comm, run, hstep]

section

variable {s : YamlScan} {rest : List Char} {column : Nat} {tokens : List YamlToken}
  {indents : List Nat} {allowed : Bool}

/-- A blank before a token. -/
theorem Stands.awaits (h : s.Stands (' ' :: rest) column tokens indents allowed)
    (hstart : StartsToken rest) : s.Awaits rest (column + 1) tokens indents allowed := by
  obtain ⟨index, line, rfl⟩ := h
  refine ⟨Nat.le_succ _, index + 1, line, ?_⟩
  rw [settle_outside (p := ⟨' ' :: rest, index, line, column⟩) (skipYamlBlanks_blank hstart)
    (fun _ hk => absurd hk (Option.not_mem_none _)), YamlCursor.upTo_blank, Bool.or_false]

/-- The innermost collection is indented further than the next token, so it ends. -/
theorem Awaits.ends {i : Nat} (h : s.Awaits rest column tokens (i :: indents) allowed)
    (hi : column < i) : s.Awaits rest column (.blockEnd :: tokens) indents allowed := by
  obtain ⟨hlength, index, line, hsettle⟩ := h
  exact ⟨hlength, index, line, by rw [hsettle, unwind_deeper hi]⟩

/-- The next line, if no key must have begun before. -/
theorem awaits_newline {p : YamlCursor} {key : Option YamlKeyPlace} {k : Nat}
    (hp : p.rest = yamlNewline k ++ rest) (hstart : StartsToken rest)
    (hkey : ∀ b ∈ key, b.required = false ∧ b.line ≤ p.line) :
    (outside p tokens indents key allowed).Awaits rest k tokens indents true := by
  obtain ⟨text, index, line, column⟩ := p
  obtain rfl : text = yamlNewline k ++ rest := hp
  have hplace := YamlCursor.upTo_newline k rest index line column
  refine ⟨by simp [outside], index + (k + 1), line + 1, ?_⟩
  rw [settle_outside (p := ⟨yamlNewline k ++ rest, index, line, column⟩)
    (skipYamlBlanks_newline hstart k) fun b hb => ?_, hplace, Bool.or_true]
  rw [hplace]
  exact ⟨(hkey b hb).1, Nat.ne_of_lt (Nat.lt_succ_of_le (hkey b hb).2)⟩

/-- A token on the line behind a mark. -/
theorem Stands.awaits_newline {k : Nat}
    (h : s.Stands (yamlNewline k ++ rest) column tokens indents allowed)
    (hstart : StartsToken rest) : s.Awaits rest k tokens indents true := by
  obtain ⟨index, line, rfl⟩ := h
  exact YamlScan.awaits_newline rfl hstart fun _ hb => absurd hb (Option.not_mem_none _)

/-- The same where the next line has been begun. -/
theorem awaits_line {p : YamlCursor} {key : Option YamlKeyPlace} (hstart : StartsToken p.rest)
    (hkey : ∀ b ∈ key, b.required = false ∧ b.line < p.line) :
    (outside p tokens indents key true).Awaits p.rest p.column tokens indents true := by
  have hplace := YamlCursor.upTo_self p
  refine ⟨Nat.le_refl _, p.index, p.line, ?_⟩
  rw [settle_outside (skipYamlBlanks_startsToken hstart false) fun b hb => ?_, hplace,
    Bool.or_false]
  rw [hplace]
  exact ⟨(hkey b hb).1, Nat.ne_of_lt (hkey b hb).2⟩

/-- One token outside of brackets, which is read where nothing is left to be ended. -/
theorem Awaits.reaches {c : Char} {P : YamlScan → Prop}
    (h : s.Awaits (c :: rest) column tokens indents allowed)
    (hcolumn : ∀ i ∈ indents.head?, i ≤ column)
    (htoken : ∀ index line, ∃ t,
      (outside ⟨c :: rest, index, line, column⟩ tokens indents none allowed).token c rest = .ok t ∧
        t.place.rest.length ≤ rest.length ∧ P t) : s.Reaches P := by
  obtain ⟨hlength, index, line, hsettle⟩ := h
  rw [unwind_outside hcolumn] at hsettle
  obtain ⟨t, ht, hrest, hP⟩ := htoken index line
  exact reaches_of_token hsettle rfl hlength ht hrest hP

end

/-- The tokens once a block collection is open at a column: its own comes before, unless
    it was open. -/
def opening (t : YamlToken) (column : Nat) (indents : List Nat) (tokens : List YamlToken) :
    List YamlToken :=
  if indents.head?.all (· < column) then t :: tokens else tokens

/-- The columns of block collections once one is open at a column. -/
def opened (column : Nat) (indents : List Nat) : List Nat :=
  if indents.head?.all (· < column) then column :: indents else indents

/-- A collection is open at a column behind its first mark. -/
theorem opened_eq {column : Nat} {indents : List Nat} (h : ∀ i ∈ indents.head?, i ≤ column) :
    ∃ outer, opened column indents = column :: outer := by
  unfold opened
  split
  · exact ⟨indents, rfl⟩
  next hdeep =>
    cases indents with
    | nil => exact absurd rfl hdeep
    | cons i indents =>
        have hi : i = column := by
          have := h i rfl
          simp only [List.head?_cons, Option.all_some, decide_eq_true_eq] at hdeep
          omega
        exact ⟨indents, by rw [hi]⟩

theorem opened_self (column : Nat) (indents : List Nat) :
    opened column (column :: indents) = column :: indents := by
  simp [opened]

theorem opening_self (t : YamlToken) (column : Nat) (indents : List Nat) (tokens : List YamlToken) :
    opening t column (column :: indents) tokens = tokens := by
  simp [opening]

/-- A collection that is indented further than the one around it is open behind its first
    mark only. -/
theorem opening_deeper (t : YamlToken) {column i : Nat} (h : i < column) (indents : List Nat)
    (tokens : List YamlToken) :
    opening t column (i :: indents) tokens = t :: tokens ∧
      opened column (i :: indents) = column :: i :: indents := by
  simp [opening, opened, h]

theorem insertBehind_append {α : Type} (a : α) (xs ys : List α) :
    insertBehind a xs.length (xs ++ ys) = xs ++ a :: ys := by
  induction xs with
  | nil => cases ys <;> rfl
  | cons x xs ih => exact congrArg (x :: ·) ih

/-- A block collection begins before the last few tokens. -/
theorem openAt_outside (p : YamlCursor) (last tokens : List YamlToken) (indents : List Nat)
    (allowed : Bool) (column : Nat) (t : YamlToken) :
    (outside p (last ++ tokens) indents none allowed).openAt column tokens.length t =
      outside p (last ++ opening t column indents tokens) (opened column indents) none allowed := by
  have hcount : (last ++ tokens).length - tokens.length = last.length := by simp
  unfold openAt isDeeper opening opened
  simp only [outside, insert, hcount, insertBehind_append]
  split
  · simp [*]
    omega
  · simp [*]

theorem openHere_outside (p : YamlCursor) (tokens : List YamlToken) (indents : List Nat)
    (t : YamlToken) :
    (outside p tokens indents none true).openHere t =
      .ok (outside p (opening t p.column indents tokens) (opened p.column indents) none true) :=
  congrArg Except.ok (openAt_outside p [] tokens indents true p.column t)

section

variable {s : YamlScan} {rest : List Char} {column : Nat} {tokens : List YamlToken}
  {indents : List Nat}

/-- The dash of an item. -/
theorem Awaits.dash (h : s.Awaits ('-' :: rest) column tokens indents true)
    (hcolumn : ∀ i ∈ indents.head?, i ≤ column) (hblank : atYamlBlank rest = true)
    (hmark : atYamlMark ('-' :: rest) = false) :
    s.Reaches (Stands rest (column + 1) (.dash :: opening .blockList column indents tokens)
      (opened column indents) true) := by
  have htoken : ∀ index line,
      (outside ⟨'-' :: rest, index, line, column⟩ tokens indents none true).token '-' rest =
        .ok (outside ⟨rest, index + 1, line, column + 1⟩
          (.dash :: opening .blockList column indents tokens) (opened column indents) none
          true) := by
    intro index line
    simp [token, hmark, hblank, openHere_outside]
    rfl
  exact h.reaches hcolumn fun index line =>
    ⟨_, htoken index line, Nat.le_refl _, index + 1, line, rfl⟩

/-- The question mark of a key that is not simple. -/
theorem Awaits.question (h : s.Awaits ('?' :: rest) column tokens indents true)
    (hcolumn : ∀ i ∈ indents.head?, i ≤ column) (hblank : atYamlBlank rest = true) :
    s.Reaches (Stands rest (column + 1) (.key :: opening .blockMap column indents tokens)
      (opened column indents) true) := by
  have htoken : ∀ index line,
      (outside ⟨'?' :: rest, index, line, column⟩ tokens indents none true).token '?' rest =
        .ok (outside ⟨rest, index + 1, line, column + 1⟩
          (.key :: opening .blockMap column indents tokens) (opened column indents) none true) := by
    intro index line
    simp [token, hblank, openHere_outside]
    rfl
  exact h.reaches hcolumn fun index line =>
    ⟨_, htoken index line, Nat.le_refl _, index + 1, line, rfl⟩

/-- The colon behind a key that is not simple. -/
theorem Awaits.colon (h : s.Awaits (':' :: rest) column tokens (column :: indents) true)
    (hblank : atYamlBlank rest = true) :
    s.Reaches (Stands rest (column + 1) (.value :: tokens) (column :: indents) true) := by
  have htoken : ∀ index line,
      (outside ⟨':' :: rest, index, line, column⟩ tokens (column :: indents) none true).token ':'
          rest =
        .ok (outside ⟨rest, index + 1, line, column + 1⟩ (.value :: tokens) (column :: indents) none
          true) := by
    intro index line
    have hcolon : (outside ⟨':' :: rest, index, line, column⟩ tokens (column :: indents) none
        true).colon = .ok (outside ⟨rest, index + 1, line, column + 1⟩ (.value :: tokens)
          (column :: indents) none true) := by
      unfold YamlScan.colon
      rw [openHere_outside, opening_self, opened_self]
      rfl
    simp [token, hblank, hcolon]
  exact h.reaches (fun i hi => by simp_all) fun index line =>
    ⟨_, htoken index line, Nat.le_refl _, index + 1, line, rfl⟩

end

end YamlScan

end Docket
