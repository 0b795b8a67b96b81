import Docket.Proofs.Number.Order
import Docket.Proofs.Text.Lower
import Docket.Proofs.Work
import Docket.Yaml.Leaf

/-!
# Faults of scalars

What may be wrong with the text of a scalar. Under the tag that a plain text speaks for
by itself it is malformed at worst, because the tag is told by a test that admits no
word, number or date of another form. The one exception is a number in counts of sixty
that has so many parts that the weight of the first is no number any more; such a text
has a colon for every part but one.

Under a tag that is written out anything may be wrong, except that a character has too
large a number: that is a fault between double quotes.

## Theorems

* `sumSixtieths_fault`: The parts of a number are too many, or can be summed.
* `yamlLeaf_fault`: What may be wrong under any tag.
* `yamlPlainTag_fault`: What may be wrong under the tag that a text speaks for.
-/

namespace Docket

/-! ## Numbers -/

theorem length_splitColons (cs : List Char) : (splitColons cs).length = cs.count ':' + 1 := by
  induction cs with
  | nil => rfl
  | cons c rest ih =>
      unfold splitColons
      dsimp only
      split
      next hc =>
        subst hc
        rw [List.length_cons, ih, List.count_cons_self]
      next hc =>
        rw [List.count_cons_of_ne hc, ← ih]
        split
        next heq => rw [heq]; rfl
        next heq => rw [heq] at ih; exact absurd ih (by simp)

/-- The parts of a number in counts of sixty are too many, or can be summed. -/
theorem sumSixtieths_fault {total : Binary64} {base : Nat} {parts : List Binary64}
    {f : YamlFault} (h : sumSixtieths total base parts = .error f) :
    f = .tooManyParts ∧ 2 ^ 1024 - 2 ^ 970 ≤ base * 60 ^ (parts.length - 1) := by
  induction parts generalizing total base with
  | nil => exact absurd h nofun
  | cons x rest ih =>
      rw [sumSixtieths] at h
      split at h
      next hnone =>
        obtain rfl := Except.error.inj h
        have hlarge := Binary64.ofInt?_eq_none_iff.mp hnone
        rw [Int.natAbs_natCast] at hlarge
        exact ⟨rfl, Nat.le_trans hlarge (Nat.le_mul_of_pos_right _ (Nat.pow_pos (by decide)))⟩
      next b hsome =>
        obtain ⟨hf, hlarge⟩ := ih h
        refine ⟨hf, ?_⟩
        -- The base has grown by sixty for a part that is gone from the count.
        cases rest with
        | nil => exact absurd h nofun
        | cons y more =>
            rw [Nat.mul_assoc, ← Nat.pow_succ'] at hlarge
            exact hlarge

theorem yamlMagnitude_fault {cs : List Char} {f : YamlFault} (h : yamlMagnitude cs = .error f) :
    f = .malformed ∨ f = .emptyNumber ∧ cs = [] := by
  unfold yamlMagnitude at h
  dsimp only at h
  split at h
  · exact Or.inr ⟨(Except.error.inj h).symm, rfl⟩
  · exact absurd h ok_ne_error
  -- A numeral of any base is read or malformed.
  · split at h
    · exact absurd h ok_ne_error
    · exact Or.inl (Except.error.inj h).symm
  · split at h
    · exact absurd h ok_ne_error
    · exact Or.inl (Except.error.inj h).symm
  · split at h
    · exact absurd h ok_ne_error
    · exact Or.inl (Except.error.inj h).symm
  split at h
  · split at h
    · exact absurd h ok_ne_error
    · exact Or.inl (Except.error.inj h).symm
  · split at h
    · exact absurd h ok_ne_error
    · exact Or.inl (Except.error.inj h).symm

theorem yamlInt_fault {cs : List Char} {f : YamlFault} (h : yamlInt cs = .error f) :
    f = .malformed ∨ f = .emptyNumber ∧ afterSign (withoutLows cs) = [] := by
  unfold yamlInt at h
  split at h
  next heq => exact Or.inr ⟨(Except.error.inj h).symm, by rw [heq]; rfl⟩
  next rest heq =>
    rw [heq]
    exact yamlMagnitude_fault (except_map_eq_error.mp h)
  next rest heq =>
    rw [heq]
    exact yamlMagnitude_fault h
  next hempty hminus hplus =>
    refine (yamlMagnitude_fault h).imp_right fun hnil => absurd hnil.2 hempty

theorem length_of_mapM {α β : Type} {f : α → Option β} {xs : List α} {ys : List β}
    (h : xs.mapM f = some ys) : ys.length = xs.length := by
  induction xs generalizing ys with
  | nil =>
      obtain rfl := Option.some.inj h
      rfl
  | cons x rest ih =>
      rw [List.mapM_cons] at h
      obtain ⟨y, -, h⟩ := Option.bind_eq_some_iff.mp h
      obtain ⟨zs, hzs, h⟩ := Option.bind_eq_some_iff.mp h
      obtain rfl := Option.some.inj h
      rw [List.length_cons, List.length_cons, ih hzs]

theorem yamlFloatMagnitude_fault {cs : List Char} {f : YamlFault}
    (h : yamlFloatMagnitude cs = .error f) :
    f = .malformed ∨ f = .tooManyParts ∧ 174 ≤ cs.count ':' := by
  unfold yamlFloatMagnitude at h
  split at h
  · exact absurd h nofun
  split at h
  · exact absurd h nofun
  split at h
  · split at h
    · exact Or.inl (Except.error.inj h).symm
    next parts hparts =>
      obtain ⟨hf, hlarge⟩ := sumSixtieths_fault h
      refine Or.inr ⟨hf, ?_⟩
      have hlength : parts.length = cs.count ':' + 1 := by
        rw [length_of_mapM hparts, length_splitColons]
      rw [List.length_reverse, hlength, Nat.one_mul, Nat.add_sub_cancel] at hlarge
      -- With 174 parts the first still counts less than what is too large.
      refine Nat.le_of_not_lt fun hfew => ?_
      have hpow : 60 ^ cs.count ':' ≤ 60 ^ 173 := Nat.pow_le_pow_right (by decide) (by omega)
      have hsmall : 60 ^ 173 < 2 ^ 1024 - 2 ^ 970 := by decide +kernel
      exact absurd (Nat.le_trans hlarge hpow) (Nat.not_le_of_lt hsmall)
  · split at h
    · exact Or.inl (Except.error.inj h).symm
    · exact absurd h nofun

theorem yamlFloat_fault {cs : List Char} {f : YamlFault} (h : yamlFloat cs = .error f) :
    f = .malformed ∨ f = .emptyNumber ∧ withoutLows cs = [] ∨
      f = .tooManyParts ∧ 174 ≤ cs.count ':' := by
  have hcount : (lower (withoutLows cs)).count ':' ≤ cs.count ':' :=
    Nat.le_trans (count_colon_lowerFrom false _) (List.filter_sublist.count_le _)
  -- A sign is no colon, so the text without it has as many.
  have hmagnitude : ∀ {ds : List Char}, ds <:+ lower (withoutLows cs) →
      yamlFloatMagnitude ds = .error f → f = .malformed ∨
        f = .emptyNumber ∧ withoutLows cs = [] ∨ f = .tooManyParts ∧ 174 ≤ cs.count ':' := by
    intro ds hds hfault
    refine (yamlFloatMagnitude_fault hfault).imp_right fun ⟨hf, hmany⟩ => Or.inr ⟨hf, ?_⟩
    exact Nat.le_trans hmany (Nat.le_trans (hds.sublist.count_le _) hcount)
  unfold yamlFloat at h
  split at h
  next hempty =>
    refine Or.inr (Or.inl ⟨(Except.error.inj h).symm, ?_⟩)
    exact Decidable.byContradiction fun hne => lower_ne_nil hne hempty
  next rest hsign =>
    exact hmagnitude (hsign ▸ List.suffix_cons _ _) (except_map_eq_error.mp h)
  next rest hsign =>
    exact hmagnitude (hsign ▸ List.suffix_cons _ _) h
  next => exact hmagnitude (List.suffix_refl _) h

/-! ## Scalars -/

theorem yamlTimestamp_fault {cs : List Char} {f : YamlFault} (h : yamlTimestamp cs = .error f) :
    f = .malformed ∨ f = .noTimestamp ∧ YamlTimestamp.read? (withoutLastBreak cs) = none := by
  unfold yamlTimestamp at h
  split at h
  next hnone => exact Or.inr ⟨(Except.error.inj h).symm, hnone⟩
  next =>
    left
    dsimp only at h
    split at h
    · exact (Except.error.inj h).symm
    split at h
    · exact absurd h ok_ne_error
    split at h
    · exact absurd h ok_ne_error
    · exact (Except.error.inj h).symm

theorem yamlBool_fault {cs : List Char} {f : YamlFault} (h : yamlBool cs = .error f) :
    ∃ word, f = .unknownWord word := by
  unfold yamlBool at h
  dsimp only at h
  split at h
  · exact absurd h nofun
  split at h
  · exact absurd h nofun
  · exact ⟨_, (Except.error.inj h).symm⟩

theorem yamlBytes_fault {cs : List Char} {f : YamlFault} (h : yamlBytes cs = .error f) :
    f = .malformed := by
  unfold yamlBytes at h
  split at h
  · exact (Except.error.inj h).symm
  split at h
  · exact absurd h ok_ne_error
  · exact (Except.error.inj h).symm

/-- No text of a scalar has a character of too large a number, whatever its tag. -/
theorem yamlLeaf_fault {tag : YamlTag} {cs : List Char} {f : YamlFault}
    (h : yamlLeaf tag cs = .error f) : f ≠ .characterTooLarge := by
  unfold yamlLeaf at h
  split at h
  · exact absurd h nofun
  · obtain ⟨word, rfl⟩ := yamlBool_fault (except_map_eq_error.mp h)
    exact nofun
  · rcases yamlInt_fault (except_map_eq_error.mp h) with rfl | ⟨rfl, -⟩ <;> exact nofun
  · rcases yamlFloat_fault (except_map_eq_error.mp h) with rfl | ⟨rfl, -⟩ | ⟨rfl, -⟩ <;> exact nofun
  · rw [yamlBytes_fault (except_map_eq_error.mp h)]
    exact nofun
  · rcases yamlTimestamp_fault (except_map_eq_error.mp h) with rfl | ⟨rfl, -⟩ <;> exact nofun
  · exact absurd h nofun
  · rw [← Except.error.inj h]
    exact nofun

theorem yamlBool_truthWord {cs : List Char} (h : yamlTruthWords.any (·.toList == cs) = true) :
    ∃ b, yamlBool cs = .ok b := by
  have hall : yamlTruthWords.all fun w => (yamlBool w.toList).toBool := by decide +kernel
  obtain ⟨w, hw, heq⟩ := List.any_eq_true.mp h
  have hok := List.all_eq_true.mp hall w hw
  rw [eq_of_beq heq] at hok
  cases hread : yamlBool cs with
  | ok b => exact ⟨b, rfl⟩
  | error f => rw [hread] at hok; exact absurd hok Bool.false_ne_true

/-- A floating-point number that a text speaks for has a point. -/
theorem withoutLows_ne_nil_of_isYamlFloat {cs : List Char} (h : isYamlFloat cs = true) :
    withoutLows cs ≠ [] := by
  -- The point is behind the sign, and it is no underscore.
  have hbody : '.' ∈ afterSign cs := by
    unfold isYamlFloat at h
    dsimp only at h
    split at h
    next fraction heq =>
      rw [← List.takeWhile_append_dropWhile (p := (· != '.')) (l := afterSign cs), heq]
      exact List.mem_append_right _ List.mem_cons_self
    next => exact absurd h Bool.false_ne_true
  have hmem : '.' ∈ cs := by
    unfold afterSign at hbody
    split at hbody
    · exact List.mem_cons_of_mem _ hbody
    · exact List.mem_cons_of_mem _ hbody
    · exact hbody
  exact List.ne_nil_of_mem (List.mem_filter.mpr ⟨hmem, by decide⟩)

theorem isPositive_cons {d : Char} {ds : List Char} (h : isPositive (d :: ds) = true) :
    isAsciiDigit d = true := by
  rw [isPositive, Bool.and_eq_true, Bool.and_eq_true] at h
  exact h.1.1

/-- The first part of a text begins as the text does. -/
theorem splitColons_head {cs part : List Char} {d : Char} {more : List (List Char)}
    (h : splitColons cs = (d :: part) :: more) : ∃ rest, cs = d :: rest := by
  cases cs with
  | nil => exact absurd (List.cons.inj h).1 (List.cons_ne_nil _ _).symm
  | cons c rest =>
      refine ⟨rest, ?_⟩
      unfold splitColons at h
      dsimp only at h
      split at h
      · exact absurd (List.cons.inj h).1 (List.cons_ne_nil _ _).symm
      split at h
      all_goals rw [(List.cons.inj (List.cons.inj h).1).1]

/-- An integer that a text speaks for begins with a digit, after the sign. -/
theorem afterSign_of_isYamlInt {cs : List Char} (h : isYamlInt cs = true) :
    ∃ d ds, afterSign cs = d :: ds ∧ isAsciiDigit d = true := by
  unfold isYamlInt at h
  dsimp only at h
  rcases (Bool.or_eq_true _ _).mp h with hone | hparts
  -- Either it is of one part, after the mark of its base if it has one, or of several.
  · split at hone
    · exact ⟨'0', _, ‹_›, rfl⟩
    · exact ⟨'0', _, ‹_›, rfl⟩
    · exact ⟨'0', _, ‹_›, rfl⟩
    · cases hbody : afterSign cs with
      | nil =>
          rw [hbody] at hone
          exact absurd hone Bool.false_ne_true
      | cons d ds =>
          rw [hbody] at hone
          exact ⟨d, ds, rfl, isPositive_cons hone⟩
  · split at hparts
    next first part more heq =>
      rw [Bool.and_eq_true] at hparts
      cases first with
      | nil => exact absurd hparts.1 Bool.false_ne_true
      | cons d rest =>
          obtain ⟨ds, hbody⟩ := splitColons_head heq
          exact ⟨d, ds, hbody, isPositive_cons hparts.1⟩
    next => exact absurd hparts Bool.false_ne_true

theorem afterSign_withoutLows_ne_nil {cs : List Char} (h : isYamlInt cs = true) :
    afterSign (withoutLows cs) ≠ [] := by
  obtain ⟨d, ds, hbody, hdigit⟩ := afterSign_of_isYamlInt h
  have hlow : (d != '_') = true := by
    rw [bne_iff_ne]
    rintro rfl
    exact absurd hdigit (by decide)
  -- The first digit is no low line, so that it is still there, whatever sign stands before it.
  have hkept : withoutLows (d :: ds) = d :: withoutLows ds := List.filter_cons_of_pos hlow
  unfold afterSign at hbody
  split at hbody
  next rest =>
    subst hbody
    change afterSign ('+' :: withoutLows (d :: ds)) ≠ []
    rw [hkept]
    exact List.cons_ne_nil _ _
  next rest =>
    subst hbody
    change afterSign ('-' :: withoutLows (d :: ds)) ≠ []
    rw [hkept]
    exact List.cons_ne_nil _ _
  next hplus hminus =>
    subst hbody
    rw [hkept]
    unfold afterSign
    split
    next heq => exact (hplus ds (by rw [(List.cons.inj heq).1])).elim
    next heq => exact (hminus ds (by rw [(List.cons.inj heq).1])).elim
    · exact List.cons_ne_nil _ _

/-- What may be wrong with a text under the tag that it speaks for by itself. -/
theorem yamlPlainTag_fault {text : List Char} {f : YamlFault} (hlast : text.getLast? ≠ some '\n')
    (h : yamlLeaf (yamlPlainTag text) text = .error f) :
    f = .malformed ∨ f = .tooManyParts ∧ 174 ≤ text.count ':' := by
  have hsame : withoutLastBreak text = text := if_neg hlast
  unfold yamlPlainTag at h
  rw [hsame] at h
  dsimp only at h
  -- The tags are tried in turn. A text that has the form of its tag is not empty without its
  -- marks, so that its reader can find it malformed only, or of too many parts.
  split at h
  · exact absurd h nofun
  split at h
  next hword =>
    obtain ⟨b, hb⟩ := yamlBool_truthWord hword
    rw [yamlLeaf, hb] at h
    exact absurd h nofun
  split at h
  next hfloat =>
    rcases yamlFloat_fault (except_map_eq_error.mp h) with hf | ⟨-, hnil⟩ | hmany
    · exact Or.inl hf
    · exact absurd hnil (withoutLows_ne_nil_of_isYamlFloat hfloat)
    · exact Or.inr hmany
  split at h
  next hint =>
    rcases yamlInt_fault (except_map_eq_error.mp h) with hf | ⟨-, hnil⟩
    · exact Or.inl hf
    · exact absurd hnil (afterSign_withoutLows_ne_nil hint)
  split at h
  · exact Or.inl (Except.error.inj h).symm
  split at h
  · exact absurd h nofun
  split at h
  next hdate =>
    rcases yamlTimestamp_fault (except_map_eq_error.mp h) with hf | ⟨-, hnone⟩
    · exact Or.inl hf
    · rw [hsame] at hnone
      rw [isYamlTimestamp, hnone] at hdate
      exact absurd hdate Bool.false_ne_true
  split at h
  · exact Or.inl (Except.error.inj h).symm
  split at h
  · exact Or.inl (Except.error.inj h).symm
  · exact absurd h nofun

end Docket
