import Docket.Proofs.Yaml.Scalars
import Docket.Yaml.Writer

/-!
# The tokens of a document

The tokens of a node are told from the node alone, and collecting tokens from what is
written gives them. A node stands behind a mark or behind the colon of a simple key, and
it is written and ends differently there: the items of a list behind a simple key are
indented no further than the key, so nothing says where the list begins and ends.

How far nodes are indented differs likewise. What is behind a mark opens a collection two
columns further on, and so does a map behind a simple key. A node that survives at some
indentation is scanned wherever it is indented less.

## Main definitions

* `YamlNode.tokens`: The tokens of a node.
* `YamlNode.Survives`: Nodes that are read back as they are written.
* `YamlNode.ScansMarked`, `YamlNode.ScansValue`: The tokens of a node are collected.

## Theorems

* `YamlNode.Survives.scans`: What survives is scanned.
* `YamlNode.yamlTokens_write`: The tokens of a document that is a map.
-/

namespace Docket

namespace YamlNode

mutual

/-- The tokens of a node. A list is `loose` if it is not indented, and then nothing says
    where it begins and ends. -/
def tokens (loose : Bool) : YamlNode → List YamlToken
  | .scalar s => [.scalar s.text (s.style == .plain)]
  | .list _ [] => [.openList, .closeList]
  | .map _ [] => [.openMap, .closeMap]
  | .list _ items =>
    if loose then itemTokens items else .blockList :: (itemTokens items ++ [.blockEnd])
  | .map _ entries => .blockMap :: (entryTokens entries ++ [.blockEnd])

def itemTokens : List YamlNode → List YamlToken
  | [] => []
  | n :: rest => .dash :: (n.tokens false ++ itemTokens rest)

def entryTokens : List (YamlNode × YamlNode) → List YamlToken
  | [] => []
  | (k, n) :: rest =>
    .key :: (k.tokens false ++ .value :: (n.tokens (k.simpleKey? 0).isSome ++ entryTokens rest))

end

end YamlNode

namespace YamlScan

/-- What is known behind an opening bracket, before which a key may have begun. -/
def within (p : YamlCursor) (tokens : List YamlToken) (indents : List Nat)
    (key : Option YamlKeyPlace) : YamlScan :=
  ⟨p, tokens, tokens.length, indents, [none, key], true⟩

theorem settle_within {p : YamlCursor} (tokens : List YamlToken) (indents : List Nat)
    {key : Option YamlKeyPlace} (hstart : StartsToken p.rest)
    (hkey : ∀ b ∈ key, b.line = p.line ∧ p.index ≤ b.index + 1024) :
    (within p tokens indents key).settle = .ok (within p tokens indents key) := by
  -- A token begins here, so that there is nothing to skip, and the key is still fresh.
  have hskip : (within p tokens indents key).skipBlanks = within p tokens indents key := by
    have hrest := skipYamlBlanks_startsToken hstart false
    have hplace := YamlCursor.upTo_self p
    simp [skipBlanks, within, moveTo, hrest, hplace]
  have hfresh : key.any (within p tokens indents key).isStale = false := by
    cases key with
    | none => rfl
    | some b =>
        obtain ⟨hline, hindex⟩ := hkey b rfl
        simp only [Option.any_some, isStale, within, hline, bne_self_eq_false, Bool.false_or]
        exact decide_eq_false (by omega)
  have hforget : (within p tokens indents key).forgetStale = .ok (within p tokens indents key) := by
    unfold forgetStale
    simp only [within] at hfresh ⊢
    simp [hfresh]
  unfold settle
  rw [hskip, hforget]
  rfl

section

variable {t : YamlScan} {column k : Nat} {rest : List Char} {tokens : List YamlToken}
  {indents : List Nat} {i : Nat} {allowed : Bool}

/-- An opening bracket, and the one that closes it. -/
def brackets : List (Char × Char × YamlToken × YamlToken) :=
  [('[', ']', .openList, .closeList), ('\x7b', '\x7d', .openMap, .closeMap)]

theorem openBracket_outside (p : YamlCursor) (a : YamlToken) :
    (outside p tokens indents none allowed).openBracket a =
      .ok (within p.next (a :: tokens) indents (keyBegun p tokens indents allowed)) := by
  cases allowed <;> rfl

theorem closeBracket_within (p : YamlCursor) (key : Option YamlKeyPlace) (b : YamlToken) :
    (within p tokens indents key).closeBracket b =
      .ok (outside p.next (b :: tokens) indents key false) := rfl

theorem token_brackets {o c : Char} {a b : YamlToken} (h : (o, c, a, b) ∈ brackets) (s : YamlScan)
    (rest : List Char) :
    s.token o rest = s.openBracket a ∧ s.token c rest = s.closeBracket b := by
  simp only [brackets, List.mem_cons, Prod.mk.injEq, List.not_mem_nil, or_false] at h
  rcases h with ⟨rfl, rfl, rfl, rfl⟩ | ⟨rfl, rfl, rfl, rfl⟩ <;> simp [token]

theorem next_brackets {o c : Char} {a b : YamlToken} (h : (o, c, a, b) ∈ brackets)
    (rest : List Char) (index line column : Nat) :
    YamlCursor.next ⟨o :: rest, index, line, column⟩ = ⟨rest, index + 1, line, column + 1⟩ ∧
      YamlCursor.next ⟨c :: rest, index, line, column⟩ = ⟨rest, index + 1, line, column + 1⟩ := by
  simp only [brackets, List.mem_cons, Prod.mk.injEq, List.not_mem_nil, or_false] at h
  rcases h with ⟨rfl, rfl, rfl, rfl⟩ | ⟨rfl, rfl, rfl, rfl⟩ <;> exact ⟨rfl, rfl⟩

theorem startsToken_brackets {o c : Char} {a b : YamlToken} (h : (o, c, a, b) ∈ brackets)
    (rest : List Char) : StartsToken (o :: rest) ∧ StartsToken (c :: rest) := by
  simp only [brackets, List.mem_cons, Prod.mk.injEq, List.not_mem_nil, or_false] at h
  rcases h with ⟨rfl, rfl, rfl, rfl⟩ | ⟨rfl, rfl, rfl, rfl⟩ <;>
    exact ⟨startsToken_cons (by decide) (by decide) (by decide) rest,
      startsToken_cons (by decide) (by decide) (by decide) rest⟩

/-- An empty collection that is the last on its line. -/
theorem Awaits.brackets {o c : Char} {a b : YamlToken} (hpair : (o, c, a, b) ∈ brackets)
    (h : t.Awaits (o :: c :: (yamlNewline k ++ rest)) column tokens (i :: indents) allowed)
    (hi : i ≤ column) (hkey : allowed = true → i ≠ column) (hrest : LineStarts k rest) :
    t.Reaches (Awaits rest k (b :: a :: tokens) (i :: indents) true) := by
  have hoptional : allowed = true → (i :: indents).head? ≠ some column := by simpa using hkey
  -- The first bracket may be a key, but none that must be one, and it is the one that is
  -- remembered.
  have hopen : t.Reaches fun u => ∃ index line key,
      (∀ e ∈ key, e.required = false ∧ e.line = line ∧ e.index = index) ∧
      u = within ⟨c :: (yamlNewline k ++ rest), index + 1, line, column + 1⟩ (a :: tokens)
        (i :: indents) key := by
    refine h.reaches (by simpa using hi) fun index line => ⟨_, ?_, ?_, index, line, _,
      keyBegun_optional ⟨o :: c :: (yamlNewline k ++ rest), index, line, column⟩ tokens hoptional,
      rfl⟩
    · rw [(token_brackets hpair _ _).1, openBracket_outside, (next_brackets hpair _ _ _ _).1]
    · exact Nat.le_refl _
  refine hopen.trans ?_
  rintro u ⟨index, line, key, hbegun, rfl⟩
  obtain ⟨-, hnext⟩ := next_brackets hpair (yamlNewline k ++ rest) (index + 1) line (column + 1)
  have hstart := (startsToken_brackets hpair (yamlNewline k ++ rest)).2
  have hsettle := settle_within (p := ⟨c :: (yamlNewline k ++ rest), index + 1, line, column + 1⟩)
    (a :: tokens) (i :: indents) hstart fun e he =>
      ⟨(hbegun e he).2.1, by rw [(hbegun e he).2.2]; simp⟩
  refine reaches_of_token hsettle rfl (Nat.le_refl _)
    (by rw [(token_brackets hpair _ _).2, closeBracket_within, hnext]) (Nat.le_refl _) ?_
  exact awaits_newline rfl hrest.token fun e he => ⟨(hbegun e he).1, Nat.le_of_eq (hbegun e he).2.1⟩

end

end YamlScan

namespace YamlNode

/-- A key of a map at a column that is read back as it is written: if it is simple, it has
    not become too long. -/
def KeySurvives (indent : Nat) (s : YamlScalar) : Prop :=
  s.survives (indent + 2) = true ∧ (s.isSimpleKey = true → (s.write false 0 0).length ≤ 1024)

/-- Nodes that are read back as they are written if they are indented by no more than
    `indent` columns. All keys are scalars. -/
inductive Survives : Nat → YamlNode → Prop
  | scalar {indent : Nat} {s : YamlScalar} (h : s.survives indent = true) :
      Survives indent (.scalar s)
  | list {indent : Nat} {items : List YamlNode} (h : ∀ n ∈ items, Survives (indent + 2) n) :
      Survives indent (.list .list items)
  | map {indent : Nat} {entries : List (YamlScalar × YamlNode)}
      (hkeys : ∀ e ∈ entries, KeySurvives indent e.1)
      (h : ∀ e ∈ entries, Survives (indent + 2) e.2) :
      Survives indent (.map .map (entries.map fun e => (.scalar e.1, e.2)))

open YamlScan in
/-- The tokens of a node behind a mark in a column are collected. -/
def ScansMarked (indent : Nat) (n : YamlNode) : Prop :=
  ∀ (t : YamlScan) (k : Nat) (rest : List Char) (tokens : List YamlToken) (indents : List Nat),
    t.Stands (n.writeMarked indent ++ (yamlNewline k ++ rest)) (indent + 1) tokens
      (indent :: indents) true → k ≤ indent → LineStarts k rest →
    t.Reaches (Awaits rest k ((n.tokens false).reverse ++ tokens) (indent :: indents) true)

open YamlScan in
/-- The tokens of a node behind a simple key in a column are collected. -/
def ScansValue (indent : Nat) (n : YamlNode) : Prop :=
  ∀ (t : YamlScan) (column place k : Nat) (rest : List Char) (tokens : List YamlToken)
    (indents : List Nat), indent < column →
    t.Stands (n.writeValue indent place ++ (yamlNewline k ++ rest)) column tokens
      (indent :: indents) false → k ≤ indent → LineStarts k rest →
    t.Reaches (Awaits rest k ((n.tokens true).reverse ++ tokens) (indent :: indents) true)

open YamlScan

theorem scansMarked_scalar {s : YamlScalar} {indent : Nat} (hs : s.survives (indent + 2) = true) :
    ScansMarked indent (.scalar s) := by
  intro t k rest tokens indents h hk hrest
  rw [writeMarked, List.cons_append] at h
  exact (h.awaits (YamlScalar.startsToken_write hs _ _ _ _)).scalar _ hs (by omega) (by omega) hk
    (by omega) (fun _ => by omega) hrest

theorem scansValue_scalar {s : YamlScalar} {indent : Nat} (hs : s.survives (indent + 2) = true) :
    ScansValue indent (.scalar s) := by
  intro t column place k rest tokens indents hcolumn h hk hrest
  rw [writeValue, List.cons_append] at h
  exact (h.awaits (YamlScalar.startsToken_write hs _ _ _ _)).scalar _ hs (by omega) (by omega) hk
    (by omega) (fun h => nomatch h) hrest

/-- What stands behind a mark begins with a blank. -/
theorem writeMarked_eq (indent : Nat) (n : YamlNode) :
    ∃ text, n.writeMarked indent = ' ' :: text := by
  cases n with
  | scalar s => exact ⟨_, by rw [writeMarked]⟩
  | list tag items =>
      cases items with
      | nil => exact ⟨_, by rw [writeMarked]⟩
      | cons n items => exact ⟨writeItems (indent + 2) (n :: items), by rw [writeMarked]; simp⟩
  | map tag entries =>
      cases entries with
      | nil => exact ⟨_, by rw [writeMarked]⟩
      | cons e entries =>
          exact ⟨writeEntries (indent + 2) (e :: entries), by rw [writeMarked]; simp⟩

/-- What stands behind the colon of a simple key begins with a blank or a line break. -/
theorem atYamlBlank_writeValue (indent column : Nat) (n : YamlNode) (rest : List Char) :
    atYamlBlank (n.writeValue indent column ++ rest) = true := by
  cases n with
  | scalar s => rw [writeValue]; rfl
  | list tag items =>
      cases items with
      | nil => rw [writeValue]; rfl
      | cons n items => rw [writeValue, yamlNewline]; rfl; simp
  | map tag entries =>
      cases entries with
      | nil => rw [writeValue]; rfl
      | cons e entries => rw [writeValue, yamlNewline]; rfl; simp

/-- The next item stands on a line of its own. -/
theorem lineStarts_items (k : Nat) {indent : Nat} {items : List YamlNode} (hne : items ≠ [])
    (rest : List Char) : LineStarts k (writeItems indent items ++ rest) := by
  obtain ⟨n, items, rfl⟩ := List.exists_cons_of_ne_nil hne
  obtain ⟨text, htext⟩ := writeMarked_eq indent n
  rw [writeItems, htext]
  exact (startsToken_cons (by decide) (by decide) (by decide) _).lineStarts rfl k

/-- The tokens of the items that are left are collected. -/
theorem scans_items {indent : Nat} {items : List YamlNode} (hne : items ≠ [])
    (hitems : ∀ n ∈ items, ScansMarked indent n) :
    ∀ (t : YamlScan) (k : Nat) (rest : List Char) (tokens : List YamlToken) (indents : List Nat),
      t.Awaits (writeItems indent items ++ (yamlNewline k ++ rest)) indent tokens indents true →
      (∀ i ∈ indents.head?, i ≤ indent) → k ≤ indent → LineStarts k rest →
      t.Reaches (Awaits rest k
        ((itemTokens items).reverse ++ opening .blockList indent indents tokens)
          (opened indent indents) true) := by
  induction items with
  | nil => exact absurd rfl hne
  | cons n items ih =>
      intro t k rest tokens indents h hcolumn hk hrest
      rw [List.forall_mem_cons] at hitems
      obtain ⟨text, htext⟩ := writeMarked_eq indent n
      obtain ⟨outer, houter⟩ := opened_eq hcolumn
      rw [writeItems, List.cons_append, List.cons_append, List.append_assoc] at h
      have hdash := h.dash hcolumn (by rw [htext]; rfl) (by rw [htext]; rfl)
      refine hdash.trans fun u hu => ?_
      rw [houter] at hu ⊢
      -- Behind the last item comes what follows the list, and behind the others the next dash.
      cases items with
      | nil =>
          rw [List.isEmpty_nil, if_pos rfl, List.nil_append] at hu
          refine (hitems.1 u k rest _ outer hu hk hrest).imp fun v hv => ?_
          simpa [itemTokens] using hv
      | cons m items =>
          rw [List.isEmpty_cons, if_neg Bool.false_ne_true, List.append_assoc] at hu
          have hnext := hitems.1 u indent _ _ outer hu (Nat.le_refl _)
            (lineStarts_items indent (List.cons_ne_nil m items) _)
          refine hnext.trans fun v hv => ?_
          have hlast := ih (List.cons_ne_nil m items) hitems.2 v k rest _ _ hv
            (fun i hi => by simp at hi; omega) hk hrest
          rw [opening_self, opened_self] at hlast
          refine hlast.imp fun w hw => ?_
          simpa [itemTokens] using hw

theorem isMultiline_of_isSimpleKey {s : YamlScalar} (h : s.isSimpleKey = true) :
    s.isMultiline = false := by
  simp only [YamlScalar.isSimpleKey, Bool.and_eq_true, Bool.not_eq_true'] at h
  exact h.2

/-- One entry of a map, as it is written. -/
def entryText (indent : Nat) (s : YamlScalar) (n : YamlNode) : List Char :=
  if s.isSimpleKey then
    s.write false 0 indent ++
      ':' :: writeValue indent (indent + (s.write false 0 indent).length + 1) n
  else '?' :: (writeMarked indent (.scalar s) ++
    (yamlNewline indent ++ ':' :: writeMarked indent n))

theorem writeEntries_cons (indent : Nat) (s : YamlScalar) (n : YamlNode)
    (rest : List (YamlNode × YamlNode)) :
    writeEntries indent ((.scalar s, n) :: rest) = entryText indent s n ++
      if rest.isEmpty then [] else yamlNewline indent ++ writeEntries indent rest := by
  rw [writeEntries, simpleKey?, entryText]
  by_cases hsimple : s.isSimpleKey = true
  · simp only [if_pos hsimple]
  · simp only [if_neg hsimple, List.append_assoc, List.cons_append]

/-- The next entry stands on a line of its own. -/
theorem lineStarts_entries (k : Nat) {indent : Nat} {entries : List (YamlScalar × YamlNode)}
    (hne : entries ≠ []) (hkeys : ∀ e ∈ entries, KeySurvives indent e.1) (rest : List Char) :
    LineStarts k (writeEntries indent (entries.map fun e => (.scalar e.1, e.2)) ++ rest) := by
  obtain ⟨⟨s, n⟩, entries, rfl⟩ := List.exists_cons_of_ne_nil hne
  obtain ⟨hs, -⟩ := hkeys _ List.mem_cons_self
  rw [List.map_cons, writeEntries_cons, entryText]
  by_cases hsimple : s.isSimpleKey = true
  · rw [if_pos hsimple, List.append_assoc, List.append_assoc, List.cons_append]
    exact (YamlScalar.startsToken_write hs _ _ _ _).lineStarts
      (YamlScalar.atYamlMark_write hs (isMultiline_of_isSimpleKey hsimple) _ _ _) k
  · rw [if_neg hsimple, List.cons_append, List.cons_append]
    exact (startsToken_cons (by decide) (by decide) (by decide) _).lineStarts rfl k

section

variable {indent : Nat} {s : YamlScalar} {n : YamlNode} {t : YamlScan} {k : Nat}
  {rest : List Char} {tokens : List YamlToken} {indents outer : List Nat}

/-- The tokens of an entry whose key is simple are collected. -/
theorem scans_simple (hsimple : s.isSimpleKey = true) (hs : KeySurvives indent s)
    (hvalue : ScansValue indent n)
    (h : t.Awaits (entryText indent s n ++ (yamlNewline k ++ rest)) indent tokens indents true)
    (hcolumn : ∀ i ∈ indents.head?, i ≤ indent) (houter : opened indent indents = indent :: outer)
    (hk : k ≤ indent) (hrest : LineStarts k rest) :
    t.Reaches (Awaits rest k ((entryTokens [(.scalar s, n)]).reverse ++
      opening .blockMap indent indents tokens) (indent :: outer) true) := by
  obtain ⟨hs, hshort⟩ := hs
  have hline := isMultiline_of_isSimpleKey hsimple
  have hkey : (simpleKey? 0 (.scalar s)).isSome = true := by
    rw [simpleKey?, if_pos hsimple]
    rfl
  have hlength : (s.write false 0 indent).length ≤ 1024 := by
    rw [YamlScalar.write_false hs hline 0 0 indent 0]
    exact hshort hsimple
  rw [entryText, if_pos hsimple, List.append_assoc, List.cons_append] at h
  -- First the key with its colon, then the value.
  refine (h.simpleKey indent hs (by omega) hline hlength hcolumn
    (atYamlBlank_writeValue _ _ n _)).trans ?_
  rintro u ⟨column, hlt, hu⟩
  rw [houter] at hu
  refine (hvalue u column _ k rest _ outer hlt hu hk hrest).imp fun v hv => ?_
  simpa [entryTokens, YamlNode.tokens, hkey] using hv

/-- The tokens of an entry whose key stands behind a question mark are collected. -/
theorem scans_question (hsimple : ¬ s.isSimpleKey = true) (hs : KeySurvives indent s)
    (hmarked : ScansMarked indent n)
    (h : t.Awaits (entryText indent s n ++ (yamlNewline k ++ rest)) indent tokens indents true)
    (hcolumn : ∀ i ∈ indents.head?, i ≤ indent) (houter : opened indent indents = indent :: outer)
    (hk : k ≤ indent) (hrest : LineStarts k rest) :
    t.Reaches (Awaits rest k ((entryTokens [(.scalar s, n)]).reverse ++
      opening .blockMap indent indents tokens) (indent :: outer) true) := by
  have hkey : (simpleKey? 0 (.scalar s)).isSome = false := by
    rw [simpleKey?, if_neg hsimple]
    rfl
  obtain ⟨text, htext⟩ := writeMarked_eq indent n
  have hcolon : LineStarts indent (':' :: (writeMarked indent n ++ (yamlNewline k ++ rest))) :=
    (startsToken_cons (by decide) (by decide) (by decide) _).lineStarts rfl indent
  rw [entryText, if_neg hsimple, List.cons_append, List.append_assoc, List.append_assoc,
    List.cons_append] at h
  refine (h.question hcolumn (by rw [writeMarked]; rfl)).trans fun u hu => ?_
  rw [houter] at hu
  -- The key stands behind its mark, the value behind a colon on a line of its own.
  refine (scansMarked_scalar hs.1 u indent _ _ outer hu (Nat.le_refl _) hcolon).trans
    fun v hv => ?_
  refine (hv.colon (by rw [htext]; rfl)).trans fun w hw => ?_
  refine (hmarked w k rest _ outer hw hk hrest).imp fun x hx => ?_
  simpa [entryTokens, YamlNode.tokens, hkey] using hx

/-- The tokens of one entry are collected, and the place is behind its last line. -/
theorem scans_entry (hs : KeySurvives indent s) (hn : ScansMarked indent n ∧ ScansValue indent n)
    (h : t.Awaits (entryText indent s n ++ (yamlNewline k ++ rest)) indent tokens indents true)
    (hcolumn : ∀ i ∈ indents.head?, i ≤ indent) (houter : opened indent indents = indent :: outer)
    (hk : k ≤ indent) (hrest : LineStarts k rest) :
    t.Reaches (Awaits rest k ((entryTokens [(.scalar s, n)]).reverse ++
      opening .blockMap indent indents tokens) (indent :: outer) true) := by
  by_cases hsimple : s.isSimpleKey = true
  · exact scans_simple hsimple hs hn.2 h hcolumn houter hk hrest
  · exact scans_question hsimple hs hn.1 h hcolumn houter hk hrest

end

/-- The tokens of the entries that are left are collected. -/
theorem scans_entries {indent : Nat} {entries : List (YamlScalar × YamlNode)} (hne : entries ≠ [])
    (hkeys : ∀ e ∈ entries, KeySurvives indent e.1)
    (hentries : ∀ e ∈ entries, ScansMarked indent e.2 ∧ ScansValue indent e.2) :
    ∀ (t : YamlScan) (k : Nat) (rest : List Char) (tokens : List YamlToken) (indents : List Nat),
      t.Awaits (writeEntries indent (entries.map fun e => (.scalar e.1, e.2)) ++
        (yamlNewline k ++ rest)) indent tokens indents true →
      (∀ i ∈ indents.head?, i ≤ indent) → k ≤ indent → LineStarts k rest →
      t.Reaches (Awaits rest k
        ((entryTokens (entries.map fun e => (.scalar e.1, e.2))).reverse ++
          opening .blockMap indent indents tokens) (opened indent indents) true) := by
  induction entries with
  | nil => exact absurd rfl hne
  | cons e entries ih =>
      intro t k rest tokens indents h hcolumn hk hrest
      obtain ⟨s, n⟩ := e
      rw [List.forall_mem_cons] at hkeys hentries
      obtain ⟨outer, houter⟩ := opened_eq hcolumn
      rw [List.map_cons, writeEntries_cons, List.append_assoc] at h
      -- Behind the last entry comes what follows the map, and behind the others the next key.
      by_cases hnil : entries = []
      · subst hnil
        rw [List.map_nil, List.isEmpty_nil, if_pos rfl, List.nil_append] at h
        rw [houter]
        exact scans_entry hkeys.1 hentries.1 h hcolumn houter hk hrest
      · rw [List.isEmpty_eq_false_iff.mpr (by simpa using hnil), if_neg Bool.false_ne_true,
          List.append_assoc (yamlNewline indent)] at h
        have hnext := scans_entry hkeys.1 hentries.1 h hcolumn houter (Nat.le_refl _)
          (lineStarts_entries indent hnil hkeys.2 _)
        refine hnext.trans fun u hu => ?_
        have hlast := ih hnil hkeys.2 hentries.2 u k rest _ _ hu
          (fun i hi => by simp at hi; omega) hk hrest
        rw [opening_self, opened_self] at hlast
        rw [houter]
        refine hlast.imp fun w hw => ?_
        simpa [entryTokens] using hw

/-- The tokens of an empty collection are collected. -/
theorem scans_empty {n : YamlNode} {o c : Char} {a b : YamlToken} (hpair : (o, c, a, b) ∈ brackets)
    (hmarked : ∀ indent, n.writeMarked indent = [' ', o, c])
    (hvalue : ∀ indent column, n.writeValue indent column = [' ', o, c])
    (htokens : ∀ loose, n.tokens loose = [a, b]) (indent : Nat) :
    ScansMarked indent n ∧ ScansValue indent n := by
  have hstart : ∀ rest, StartsToken (o :: rest) := fun rest =>
    (startsToken_brackets hpair rest).1
  constructor
  · intro t k rest tokens indents h hk hrest
    rw [hmarked] at h
    rw [htokens]
    exact (h.awaits (hstart _)).brackets hpair (by omega) (fun _ => by omega) hrest
  · intro t column place k rest tokens indents hcolumn h hk hrest
    rw [hvalue] at h
    rw [htokens]
    exact (h.awaits (hstart _)).brackets hpair (by omega) (fun h => nomatch h) hrest

/-- A list with items is scanned: behind a mark its dashes open a collection, behind a
    simple key they do not. -/
theorem scans_list {indent : Nat} (tag : YamlTag) {items : List YamlNode} (hne : items ≠ [])
    (hdeeper : ∀ n ∈ items, ScansMarked (indent + 2) n)
    (hitems : ∀ n ∈ items, ScansMarked indent n) :
    ScansMarked indent (.list tag items) ∧ ScansValue indent (.list tag items) := by
  constructor
  · intro t k rest tokens indents h hk hrest
    rw [writeMarked.eq_4 indent tag items hne, List.cons_append] at h
    have hscan := scans_items hne hdeeper t k rest tokens (indent :: indents)
      (h.awaits (lineStarts_items 1 hne _).token) (fun i hi => by simp at hi; omega) (by omega)
      hrest
    -- Behind a mark the dashes are indented further, so that they open a collection and close it.
    have hdeep : indent < indent + 2 := Nat.lt_add_of_pos_right Nat.two_pos
    obtain ⟨hopening, hopened⟩ := opening_deeper .blockList hdeep indents tokens
    rw [hopening, hopened] at hscan
    refine hscan.imp fun u hu => ?_
    have hend := hu.ends (by omega)
    simpa [YamlNode.tokens.eq_4 false tag items hne] using hend
  · intro t column place k rest tokens indents hcolumn h hk hrest
    rw [writeValue.eq_4 indent place tag items hne, List.append_assoc] at h
    have hscan := scans_items hne hitems t k rest tokens (indent :: indents)
      (h.awaits_newline (lineStarts_items 1 hne _).token) (fun i hi => by simp at hi; omega) hk
      hrest
    rw [opening_self, opened_self] at hscan
    simpa [YamlNode.tokens.eq_4 true tag items hne] using hscan

/-- A map with entries is scanned. -/
theorem scans_map {indent : Nat} (tag : YamlTag) {entries : List (YamlScalar × YamlNode)}
    (hne : entries ≠ []) (hkeys : ∀ e ∈ entries, KeySurvives (indent + 2) e.1)
    (hentries : ∀ e ∈ entries, ScansMarked (indent + 2) e.2 ∧ ScansValue (indent + 2) e.2) :
    ScansMarked indent (.map tag (entries.map fun e => (.scalar e.1, e.2))) ∧
      ScansValue indent (.map tag (entries.map fun e => (.scalar e.1, e.2))) := by
  have hne' : (entries.map fun e => (YamlNode.scalar e.1, e.2)) ≠ [] := by simpa using hne
  -- The entries are indented further in both places, so that they open a map.
  have hscan : ∀ {t : YamlScan} {k : Nat} {rest : List Char} {tokens : List YamlToken}
      {indents : List Nat}, t.Awaits (writeEntries (indent + 2)
        (entries.map fun e => (.scalar e.1, e.2)) ++ (yamlNewline k ++ rest)) (indent + 2) tokens
          (indent :: indents) true → k ≤ indent → LineStarts k rest →
      ∀ loose, t.Reaches (Awaits rest k ((YamlNode.tokens loose
        (.map tag (entries.map fun e => (.scalar e.1, e.2)))).reverse ++ tokens)
          (indent :: indents) true) := by
    intro t k rest tokens indents h hk hrest loose
    have hscan := scans_entries hne hkeys hentries t k rest tokens (indent :: indents) h
      (fun i hi => by simp at hi; omega) (by omega) hrest
    have hdeep : indent < indent + 2 := Nat.lt_add_of_pos_right Nat.two_pos
    obtain ⟨hopening, hopened⟩ := opening_deeper .blockMap hdeep indents tokens
    rw [hopening, hopened] at hscan
    refine hscan.imp fun u hu => ?_
    have hend := hu.ends (by omega)
    simpa [YamlNode.tokens.eq_5 loose tag _ hne'] using hend
  constructor
  · intro t k rest tokens indents h hk hrest
    rw [writeMarked.eq_5 indent tag _ hne', List.cons_append] at h
    exact hscan (h.awaits (lineStarts_entries 1 hne hkeys _).token) hk hrest false
  · intro t column place k rest tokens indents hcolumn h hk hrest
    rw [writeValue.eq_5 indent place tag _ hne', List.append_assoc] at h
    exact hscan (h.awaits_newline (lineStarts_entries 1 hne hkeys _).token) hk hrest true

/-- What survives is scanned, behind a mark and behind a simple key. -/
theorem Survives.scans {width : Nat} {n : YamlNode} (h : n.Survives width) :
    ∀ indent, indent + 2 ≤ width → ScansMarked indent n ∧ ScansValue indent n := by
  induction h with
  | scalar h =>
      intro indent hindent
      have hs := YamlScalar.survives_mono hindent h
      exact ⟨scansMarked_scalar hs, scansValue_scalar hs⟩
  | @list width items h ih =>
      intro indent hindent
      -- An empty list is written in brackets.
      by_cases hne : items = []
      · subst hne
        exact scans_empty (o := '[') (c := ']') (a := .openList) (b := .closeList)
          (by simp [brackets]) (fun _ => by rw [writeMarked]) (fun _ _ => by rw [writeValue])
          (fun _ => by rw [YamlNode.tokens]) indent
      · exact scans_list .list hne (fun n hn => (ih n hn (indent + 2) (by omega)).1)
          fun n hn => (ih n hn indent (by omega)).1
  | @map width entries hkeys h ih =>
      intro indent hindent
      by_cases hne : entries = []
      · subst hne
        exact scans_empty (o := '\x7b') (c := '\x7d') (a := .openMap) (b := .closeMap)
          (by simp [brackets]) (fun _ => by rw [List.map_nil, writeMarked])
          (fun _ _ => by rw [List.map_nil, writeValue])
          (fun _ => by rw [List.map_nil, YamlNode.tokens]) indent
      · refine scans_map .map hne (fun e he => ⟨?_, (hkeys e he).2⟩)
          fun e he => ih e he (indent + 2) (by omega)
        exact YamlScalar.survives_mono (by omega) (hkeys e he).1

end YamlNode

namespace YamlScan

/-- The mark of a document is followed by its first line. -/
theorem reaches_start {cs : List Char} (hstart : StartsToken cs) :
    (start ("---\n".toList ++ cs)).Reaches (Awaits cs 0 [.documentStart] [] true) := by
  have hbegin : (start ("---\n".toList ++ cs)).Awaits ("---\n".toList ++ cs) 0 [] [] true :=
    awaits_line (p := ⟨"---\n".toList ++ cs, 0, 0, 0⟩)
      (startsToken_cons (by decide) (by decide) (by decide) _)
      fun _ hb => absurd hb (Option.not_mem_none _)
  have hmark : (start ("---\n".toList ++ cs)).Reaches
      (Stands (yamlNewline 0 ++ cs) 3 [.documentStart] [] false) := by
    refine hbegin.reaches (fun i hi => by simp at hi) fun index line =>
      ⟨outside ⟨'\n' :: cs, index + 3, line, 3⟩ [.documentStart] [] none false, rfl, ?_,
        index + 3, line, rfl⟩
    simp [outside]
  exact hmark.imp fun u hu => hu.awaits_newline hstart

/-- At the end of the text the collection that is left ends, and nothing follows. -/
theorem Awaits.run_finish {t : YamlScan} {tokens : List YamlToken} {allowed : Bool}
    (h : t.Awaits [] 0 tokens [0] allowed) (fuel : Nat) :
    t.run (fuel + 1) = tokens.reverse ++ [.blockEnd, .finish] := by
  obtain ⟨-, index, line, hsettle⟩ := h
  rw [unwind_outside (by simp)] at hsettle
  have hstep : t.step = .ok (⟨⟨[], index, line, 0⟩, .finish :: .blockEnd :: tokens,
      tokens.length + 2, [], [none], allowed⟩, true) := by
    rw [step_of_finish hsettle rfl rfl]
    rfl
  rw [run, hstep]
  simp

end YamlScan

namespace YamlNode

open YamlScan in
/-- The tokens of a document that is a map. -/
theorem yamlTokens_write {entries : List (YamlScalar × YamlNode)} (tag : YamlTag)
    (hkeys : ∀ e ∈ entries, KeySurvives 0 e.1) (h : ∀ e ∈ entries, Survives 2 e.2) :
    yamlTokens (YamlNode.write (.map tag (entries.map fun e => (.scalar e.1, e.2)))) =
      .documentStart ::
        ((YamlNode.map tag (entries.map fun e => (.scalar e.1, e.2))).tokens false ++
          [.finish]) := by
  by_cases hne : entries = []
  · subst hne
    change yamlTokens "--- \x7b\x7d\n".toList = _
    rw [List.map_nil, YamlNode.tokens]
    decide +kernel
  have hne' : (entries.map fun e => (YamlNode.scalar e.1, e.2)) ≠ [] := by simpa using hne
  have hlast : LineStarts 0 [] := ⟨fun c hc => absurd hc (Option.not_mem_none _), rfl⟩
  have hscan := (reaches_start (lineStarts_entries 0 hne hkeys _).token).trans fun t ht =>
    scans_entries hne hkeys (fun e he => (h e he).scans 0 (Nat.le_refl 2)) t 0 []
      [.documentStart] [] ht (fun i hi => by simp at hi) (Nat.le_refl 0) hlast
  obtain ⟨u, n, hn, hrun, hu⟩ := hscan
  have hwrite : YamlNode.write (.map tag (entries.map fun e => (.scalar e.1, e.2))) =
      "---\n".toList ++ (writeEntries 0 (entries.map fun e => (.scalar e.1, e.2)) ++
        (yamlNewline 0 ++ [])) := by
    obtain ⟨e, rest, rfl⟩ := List.exists_cons_of_ne_nil hne
    exact List.append_assoc "---\n".toList _ _
  rw [hwrite, YamlNode.tokens.eq_5 false tag _ hne']
  -- There is fuel for each character, and the scanner needs no more.
  generalize hcs : "---\n".toList ++ (writeEntries 0 (entries.map fun e => (.scalar e.1, e.2)) ++
    (yamlNewline 0 ++ [])) = cs at *
  have hhead : cs.head? ≠ some (Char.ofNat 0xFEFF) := by
    rw [← hcs]
    simp
  obtain ⟨fuel, hfuel⟩ : ∃ fuel, cs.length + 1 = n + (fuel + 1) :=
    ⟨cs.length - n, by
      have : n ≤ cs.length := Nat.le_trans (Nat.le_add_right _ _) hn
      omega⟩
  unfold yamlTokens
  simp only [if_neg hhead]
  rw [hfuel, hrun, hu.run_finish]
  simp [opening]

end YamlNode

end Docket
