import Docket.Proofs.Yaml.Tokens

/-!
# What is written can be read

A reader admits fewer characters than there are, and more than a writer writes as they
are. What stands between double quotes may hold any character, but those that could not
be read are written by number.

## Main definitions

* `IsReadable`: A text whose characters are all admitted.

## Theorems

* `YamlScalar.isReadable_write`: A scalar is written in characters that can be read.
* `YamlNode.isReadable_write`: So is a document.
-/

namespace Docket

/-- All characters are admitted by the reader. -/
def IsReadable (cs : List Char) : Prop := ∀ c ∈ cs, isYamlReadable c = true

theorem isReadable_of_all {cs : List Char} (h : cs.all isYamlReadable = true) : IsReadable cs :=
  List.all_eq_true.mp h

theorem isReadable_nil : IsReadable [] := fun _ h => absurd h List.not_mem_nil

theorem isReadable_cons {c : Char} {cs : List Char} :
    IsReadable (c :: cs) ↔ isYamlReadable c = true ∧ IsReadable cs :=
  List.forall_mem_cons

theorem isReadable_append {cs ds : List Char} :
    IsReadable (cs ++ ds) ↔ IsReadable cs ∧ IsReadable ds :=
  List.forall_mem_append

theorem isReadable_quoted {q : Char} {cs : List Char} (hq : isYamlReadable q = true)
    (hcs : IsReadable cs) : IsReadable (q :: cs ++ [q]) :=
  isReadable_append.mpr ⟨isReadable_cons.mpr ⟨hq, hcs⟩, isReadable_cons.mpr ⟨hq, isReadable_nil⟩⟩

theorem isYamlReadable_of_graphic {c : Char} (h : 0x20 ≤ c.toNat ∧ c.toNat ≤ 0x7E) :
    isYamlReadable c = true := by
  simp [isYamlReadable, CharRanges.contains]
  omega

theorem isYamlReadable_of_writable {c : Char} (h : isYamlWritable c = true) :
    isYamlReadable c = true := by
  simp only [isYamlWritable, isYamlReadable, CharRanges.contains, List.any_cons, List.any_nil,
    Bool.or_false, Bool.or_eq_true, Bool.and_eq_true, decide_eq_true_iff] at h ⊢
  omega

theorem isYamlReadable_of_raw {c : Char} (h : isDoubleQuotedRaw c = true) :
    isYamlReadable c = true := by
  simp only [isDoubleQuotedRaw, isYamlReadable, CharRanges.contains, List.any_cons, List.any_nil,
    Bool.or_false, Bool.or_eq_true, Bool.and_eq_true, decide_eq_true_iff] at h ⊢
  omega

theorem isReadable_doubleQuotedEscape (c : Char) : IsReadable (doubleQuotedEscape c) := by
  intro d hd
  obtain ⟨hlow, hhigh⟩ := isGraphic_doubleQuotedEscape hd
  exact isYamlReadable_of_graphic ⟨by omega, hhigh⟩

theorem isReadable_blanks (n : Nat) : IsReadable (List.replicate n ' ') := by
  intro c hc
  rw [List.eq_of_mem_replicate hc]
  rfl

theorem isReadable_newline (n : Nat) : IsReadable (yamlNewline n) :=
  isReadable_cons.mpr ⟨rfl, isReadable_blanks n⟩

theorem isReadable_foldYaml {raw : Char → List Char} {folds : Bool} {indent : Nat} {cs : List Char}
    (hcs : IsReadable cs) (hraw : ∀ c ∈ cs, IsReadable (raw c)) :
    ∀ before column, IsReadable (foldYaml raw folds indent before column cs) := by
  induction cs with
  | nil => exact fun before column => isReadable_nil
  | cons c rest ih =>
      intro before column
      rw [isReadable_cons] at hcs
      rw [List.forall_mem_cons] at hraw
      have hrest := ih hcs.2 hraw.2
      rw [foldYaml]
      -- Each character is written as itself or as something readable, with breaks and blanks
      -- around it.
      split
      · split
        · exact isReadable_append.mpr ⟨isReadable_newline _, hrest _ _⟩
        · exact isReadable_cons.mpr ⟨hcs.1, hrest _ _⟩
      · split
        · refine isReadable_append.mpr ⟨?_, ?_⟩
          · split
            · exact isReadable_cons.mpr ⟨rfl, isReadable_cons.mpr ⟨hcs.1, isReadable_nil⟩⟩
            · exact isReadable_cons.mpr ⟨hcs.1, isReadable_nil⟩
          · split
            · exact hrest _ _
            · exact isReadable_append.mpr ⟨isReadable_blanks _, hrest _ _⟩
        · exact isReadable_append.mpr ⟨hraw.1, hrest _ _⟩

theorem isReadable_hiddenBreak (indent : Nat) (next : Option Char) :
    IsReadable (hiddenBreak indent next) := by
  unfold hiddenBreak
  refine isReadable_append.mpr ⟨isReadable_cons.mpr ⟨rfl, isReadable_newline _⟩, ?_⟩
  split
  · exact isReadable_cons.mpr ⟨rfl, isReadable_nil⟩
  · exact isReadable_nil

theorem isReadable_foldDoubleQuoted (folds : Bool) (indent : Nat) (cs : List Char) :
    ∀ first fresh column, IsReadable (foldDoubleQuoted folds indent first fresh column cs) := by
  induction cs with
  | nil => exact fun first fresh column => isReadable_nil
  | cons c rest ih =>
      intro first fresh column
      cases hraw : isDoubleQuotedRaw c with
      | true =>
          have hc := isYamlReadable_of_raw hraw
          obtain ⟨place, h | ⟨-, h⟩⟩ :=
            foldDoubleQuoted_raw folds indent first fresh column rest hraw
          · rw [h]
            exact isReadable_cons.mpr ⟨hc, ih _ _ _⟩
          · rw [h]
            exact isReadable_append.mpr ⟨isReadable_hiddenBreak _ _,
              isReadable_cons.mpr ⟨hc, ih _ _ _⟩⟩
      | false =>
          have hc := isReadable_doubleQuotedEscape c
          obtain ⟨place, h | ⟨-, h⟩⟩ :=
            foldDoubleQuoted_escape folds indent first fresh column rest hraw
          · rw [h]
            exact isReadable_append.mpr ⟨hc, ih _ _ _⟩
          · rw [h]
            exact isReadable_append.mpr ⟨isReadable_append.mpr ⟨hc, isReadable_hiddenBreak _ _⟩,
              ih _ _ _⟩

/-- A scalar is written in characters that can be read. -/
theorem YamlScalar.isReadable_write {s : YamlScalar} {indent : Nat}
    (h : s.survives indent = true) (folds : Bool) (i column : Nat) :
    IsReadable (s.write folds i column) := by
  rcases survives_cases h with ⟨hstyle, -⟩ | ⟨hstyle, htag, -⟩ | ⟨hstyle, htag, -⟩
  · have hfits := (style_eq_plain hstyle).2
    simp only [fitsPlain, Bool.and_eq_true, List.all_eq_true] at hfits
    have htext : IsReadable s.text := fun c hc => isYamlReadable_of_writable (hfits.1.1.1 c hc)
    rw [write_plain hstyle]
    exact isReadable_foldYaml htext
      (fun c hc => isReadable_cons.mpr ⟨htext c hc, isReadable_nil⟩) _ _
  · have hfits := style_eq_single hstyle
    simp only [fitsSingle, Bool.and_eq_true, List.all_eq_true] at hfits
    have htext : IsReadable s.text := fun c hc => isYamlReadable_of_writable (hfits.1.1 c hc)
    rw [write_single hstyle htag]
    refine isReadable_quoted rfl (isReadable_foldYaml htext (fun c hc => ?_) _ _)
    unfold singleQuotedChar
    split
    · exact isReadable_cons.mpr ⟨rfl, isReadable_cons.mpr ⟨rfl, isReadable_nil⟩⟩
    · exact isReadable_cons.mpr ⟨htext c hc, isReadable_nil⟩
  · rw [write_double hstyle htag]
    exact isReadable_quoted rfl (isReadable_foldDoubleQuoted _ _ _ _ _ _)

namespace YamlNode

/-- A node is written in characters that can be read, wherever it stands. -/
def IsWrittenReadable (n : YamlNode) : Prop :=
  ∀ indent column, IsReadable (n.writeMarked indent) ∧ IsReadable (n.writeValue indent column)

theorem isReadable_writeItems {items : List YamlNode} (h : ∀ n ∈ items, n.IsWrittenReadable)
    (indent : Nat) : IsReadable (writeItems indent items) := by
  induction items with
  | nil => exact isReadable_nil
  | cons n rest ih =>
      rw [List.forall_mem_cons] at h
      rw [writeItems]
      refine isReadable_append.mpr ⟨isReadable_cons.mpr ⟨rfl, (h.1 indent 0).1⟩, ?_⟩
      split
      · exact isReadable_nil
      · exact isReadable_append.mpr ⟨isReadable_newline _, ih h.2⟩

theorem isReadable_entryText {indent : Nat} {s : YamlScalar} {n : YamlNode} {width : Nat}
    (hs : s.survives width = true) (hn : n.IsWrittenReadable) :
    IsReadable (entryText indent s n) := by
  unfold entryText
  split
  · exact isReadable_append.mpr ⟨s.isReadable_write hs _ _ _,
      isReadable_cons.mpr ⟨rfl, (hn _ _).2⟩⟩
  · rw [writeMarked]
    refine isReadable_cons.mpr ⟨rfl, isReadable_append.mpr ⟨?_, isReadable_append.mpr
      ⟨isReadable_newline _, isReadable_cons.mpr ⟨rfl, (hn indent 0).1⟩⟩⟩⟩
    exact isReadable_cons.mpr ⟨rfl, s.isReadable_write hs _ _ _⟩

theorem isReadable_writeEntries {entries : List (YamlScalar × YamlNode)}
    (hkeys : ∀ e ∈ entries, ∃ indent, e.1.survives indent = true)
    (h : ∀ e ∈ entries, e.2.IsWrittenReadable) (indent : Nat) :
    IsReadable (writeEntries indent (entries.map fun e => (.scalar e.1, e.2))) := by
  induction entries with
  | nil => exact isReadable_nil
  | cons e rest ih =>
      rw [List.forall_mem_cons] at h hkeys
      obtain ⟨k, hkey⟩ := hkeys.1
      rw [List.map_cons, writeEntries_cons]
      refine isReadable_append.mpr ⟨isReadable_entryText hkey h.1, ?_⟩
      split
      · exact isReadable_nil
      · exact isReadable_append.mpr ⟨isReadable_newline _, ih hkeys.2 h.2⟩

theorem isWrittenReadable_list {tag : YamlTag} {items : List YamlNode}
    (h : ∀ n ∈ items, n.IsWrittenReadable) : (YamlNode.list tag items).IsWrittenReadable := by
  intro indent column
  have hitems := isReadable_writeItems h
  cases items with
  | nil =>
      rw [writeMarked, writeValue]
      exact ⟨isReadable_of_all (by decide), isReadable_of_all (by decide)⟩
  | cons n rest =>
      exact ⟨isReadable_cons.mpr ⟨rfl, hitems _⟩,
        isReadable_append.mpr ⟨isReadable_newline _, hitems _⟩⟩

theorem isWrittenReadable_map {tag : YamlTag} {entries : List (YamlScalar × YamlNode)}
    (hkeys : ∀ e ∈ entries, ∃ indent, e.1.survives indent = true)
    (h : ∀ e ∈ entries, e.2.IsWrittenReadable) :
    (YamlNode.map tag (entries.map fun e => (.scalar e.1, e.2))).IsWrittenReadable := by
  intro indent column
  have hentries := isReadable_writeEntries hkeys h
  cases entries with
  | nil =>
      rw [List.map_nil, writeMarked, writeValue]
      exact ⟨isReadable_of_all (by decide), isReadable_of_all (by decide)⟩
  | cons e rest =>
      exact ⟨isReadable_cons.mpr ⟨rfl, hentries _⟩,
        isReadable_append.mpr ⟨isReadable_newline _, hentries _⟩⟩

theorem Survives.isWrittenReadable {indent : Nat} {n : YamlNode} (h : n.Survives indent) :
    n.IsWrittenReadable := by
  induction h with
  | scalar h =>
      intro indent column
      rw [writeMarked, writeValue]
      exact ⟨isReadable_cons.mpr ⟨rfl, YamlScalar.isReadable_write h _ _ _⟩,
        isReadable_cons.mpr ⟨rfl, YamlScalar.isReadable_write h _ _ _⟩⟩
  | list _ ih => exact isWrittenReadable_list ih
  | map hkeys _ ih => exact isWrittenReadable_map (fun e he => ⟨_, (hkeys e he).1⟩) ih

/-- A document is written in characters that can be read. -/
theorem isReadable_write {entries : List (YamlScalar × YamlNode)}
    (hkeys : ∀ e ∈ entries, KeySurvives 0 e.1) (h : ∀ e ∈ entries, Survives 2 e.2)
    (tag : YamlTag) :
    IsReadable (YamlNode.write (.map tag (entries.map fun e => (.scalar e.1, e.2)))) := by
  have hentries := isReadable_writeEntries (fun e he => ⟨_, (hkeys e he).1⟩)
    (fun e he => (h e he).isWrittenReadable) 0
  have hstart : IsReadable "---\n".toList := isReadable_of_all (by decide)
  cases entries with
  | nil =>
      change IsReadable "--- \x7b\x7d\n".toList
      exact isReadable_of_all (by decide)
  | cons e rest =>
      exact isReadable_append.mpr ⟨isReadable_append.mpr ⟨hstart, hentries⟩,
        isReadable_of_all (by decide)⟩

end YamlNode

end Docket
