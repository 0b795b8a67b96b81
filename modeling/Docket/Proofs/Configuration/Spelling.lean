import Docket.Proofs.Text.Lower
import Docket.Configuration
import Mathlib.Data.List.TakeWhile
import Mathlib.Logic.Relation

/-!
# Spellings of encodings

Which texts ask for the same encoding. A text may be spelled otherwise in three ways:
with other letter case in ASCII, with blanks put around it, and with parameters put
after it. `SameSpelling` is what comes of doing so any number of times and of undoing
it, so it holds also of texts of which neither is a plain name, and of texts that name
nothing at all.

What is compared with the names (`Encoding.normalName`) is made from a text by cutting,
trimming and making small, in this order. Each of the three is blind to one way to spell
otherwise, but it comes last or in the middle, so the steps before must hand a difference
on unchanged: cutting keeps the blanks at the ends apart from the text between, and
neither cutting nor trimming sees the case of a letter.

## Main definitions

* `Respells`: One text is another one spelled otherwise.
* `SameSpelling`: Texts that are the same but for their spelling.
* `TextForm.Fits`: A text given as the name of an encoding is its name.

## Theorems

* `trim_map_toLower`, `trim_append_right`, `trim_append_left`: What trimming does not see.
* `normalName_eq_of_sameSpelling`: Spelling does not matter.
* `Encoding.ofName?_name`: A name names its encoding.
* `Encoding.ofValue_eq_ok_iff`: What a text asks for.
* `Encoding.ofValue_iff_of_sameSpelling`: Texts of one spelling ask for the same.
-/

namespace Docket

/-! ### Trimming -/

theorem isBlank_toLower (c : Char) : isBlank c.toLower = isBlank c :=
  toLower_invariant (by decide +kernel) c

theorem trimStart_map_toLower (cs : List Char) :
    trimStart (cs.map Char.toLower) = (trimStart cs).map Char.toLower := by
  unfold trimStart
  rw [List.dropWhile_map, show isBlank ∘ Char.toLower = isBlank from funext isBlank_toLower]

theorem trimEnd_eq (cs : List Char) : trimEnd cs = (trimStart cs.reverse).reverse := rfl

theorem trim_map_toLower (cs : List Char) :
    trim (cs.map Char.toLower) = (trim cs).map Char.toLower := by
  unfold trim
  rw [trimStart_map_toLower, trimEnd_eq, ← List.map_reverse, trimStart_map_toLower,
    ← List.map_reverse, trimEnd_eq]

theorem trimStart_append {before : List Char} (hbefore : ∀ c ∈ before, isBlank c = true)
    (cs : List Char) : trimStart (before ++ cs) = trimStart cs :=
  List.dropWhile_append_of_pos hbefore

theorem trimEnd_append {after : List Char} (hafter : ∀ c ∈ after, isBlank c = true)
    (cs : List Char) : trimEnd (cs ++ after) = trimEnd cs := by
  rw [trimEnd_eq, List.reverse_append,
    trimStart_append fun c hc => hafter c (List.mem_reverse.mp hc), ← trimEnd_eq]

theorem trim_append_left {before : List Char} (hbefore : ∀ c ∈ before, isBlank c = true)
    (cs : List Char) : trim (before ++ cs) = trim cs := by
  rw [trim, trimStart_append hbefore, trim]

theorem trim_append_right {after : List Char} (hafter : ∀ c ∈ after, isBlank c = true)
    (cs : List Char) : trim (cs ++ after) = trim cs := by
  unfold trim
  by_cases hcs : trimStart cs = []
  · -- The text is nothing but blanks, so trimming its start goes on into those after it.
    have hrest : trimStart (cs ++ after) = [] := by
      have hafter' : trimStart after = [] := List.dropWhile_eq_nil_iff.mpr hafter
      unfold trimStart at hcs hafter' ⊢
      rw [List.dropWhile_append, hcs, List.isEmpty_nil, if_pos rfl, hafter']
    rw [hcs, hrest]
  · have hrest : trimStart (cs ++ after) = trimStart cs ++ after := by
      unfold trimStart at hcs ⊢
      rw [List.dropWhile_append, if_neg fun h => hcs (List.isEmpty_iff.mp h)]
    rw [hrest, trimEnd_append hafter]

/-! ### What is before the parameters -/

/-- A text up to its parameters. -/
def cutParameters (cs : List Char) : List Char := cs.takeWhile (· != ';')

theorem normalName_eq (s : String) :
    Encoding.normalName s = lower (trim (cutParameters s.toList)) := rfl

theorem cutParameters_map_toLower (cs : List Char) :
    cutParameters (cs.map Char.toLower) = (cutParameters cs).map Char.toLower := by
  have hsemicolon : (· != ';') ∘ Char.toLower = (· != ';') :=
    funext (toLower_invariant (f := (· != ';')) (by decide))
  unfold cutParameters
  rw [List.takeWhile_map, hsemicolon]

theorem ne_semicolon_of_isBlank {c : Char} (h : isBlank c = true) : (c != ';') = true := by
  refine bne_iff_ne.mpr ?_
  rintro rfl
  exact absurd h (by decide)

theorem cutParameters_append_left {before : List Char} (hbefore : ∀ c ∈ before, isBlank c = true)
    (cs : List Char) : cutParameters (before ++ cs) = before ++ cutParameters cs :=
  List.takeWhile_append_of_pos fun c hc => ne_semicolon_of_isBlank (hbefore c hc)

/-- Blanks at the end of a text are at the end of what is before its parameters, or they
    are part of those. -/
theorem cutParameters_append_right {after : List Char} (hafter : ∀ c ∈ after, isBlank c = true)
    (cs : List Char) : cutParameters (cs ++ after) = cutParameters cs ++ after ∨
      cutParameters (cs ++ after) = cutParameters cs := by
  unfold cutParameters
  rw [List.takeWhile_append]
  split
  next hlength =>
    rw [(List.takeWhile_prefix _).eq_of_length hlength]
    exact Or.inl (congrArg (cs ++ ·)
      (List.takeWhile_eq_self_iff.mpr fun c hc => ne_semicolon_of_isBlank (hafter c hc)))
  next => exact Or.inr rfl

theorem cutParameters_parameters (cs ps : List Char) :
    cutParameters (cs ++ ';' :: ps) = cutParameters cs := by
  unfold cutParameters
  rw [List.takeWhile_append]
  split
  next hlength =>
    rw [(List.takeWhile_prefix _).eq_of_length hlength, List.takeWhile_cons_of_neg (by decide),
      List.append_nil]
  next => rfl

/-! ### Spelling -/

/-- A text is another one spelled otherwise. -/
inductive Respells : List Char → List Char → Prop
  | letters {cs ds} (h : cs.map Char.toLower = ds.map Char.toLower) : Respells cs ds
  | blanks {before after} (cs) (hbefore : ∀ c ∈ before, isBlank c = true)
      (hafter : ∀ c ∈ after, isBlank c = true) : Respells cs (before ++ cs ++ after)
  | parameters (cs ps) : Respells cs (cs ++ ';' :: ps)

/-- Texts are the same but for their spelling. -/
def SameSpelling (s t : String) : Prop := Relation.EqvGen Respells s.toList t.toList

theorem Respells.normal {cs ds : List Char} (h : Respells cs ds) :
    lower (trim (cutParameters cs)) = lower (trim (cutParameters ds)) := by
  cases h with
  | letters h =>
      have hsmall (es : List Char) : lower (trim (cutParameters (es.map Char.toLower))) =
          lower (trim (cutParameters es)) := by
        rw [cutParameters_map_toLower, trim_map_toLower, lower_map_toLower]
      rw [← hsmall cs, h, hsmall]
  | blanks _ hbefore hafter =>
      rw [List.append_assoc, cutParameters_append_left hbefore, trim_append_left hbefore]
      rcases cutParameters_append_right hafter cs with h | h
      · rw [h, trim_append_right hafter]
      · rw [h]
  | parameters _ ps => rw [cutParameters_parameters]

theorem normalName_eq_of_sameSpelling {s t : String} (h : SameSpelling s t) :
    Encoding.normalName s = Encoding.normalName t := by
  rw [normalName_eq, normalName_eq]
  unfold SameSpelling at h
  generalize s.toList = cs, t.toList = ds at h ⊢
  induction h with
  | rel _ _ h => exact h.normal
  | refl _ => rfl
  | symm _ _ _ ih => exact ih.symm
  | trans _ _ _ _ _ ih₁ ih₂ => exact ih₁.trans ih₂

/-- A text that is given as the name of an encoding is the name of that one. -/
def TextForm.Fits (form : TextForm) (s : String) : Prop := ∀ e, form = .encoding e → s = e.name

namespace Encoding

theorem ofName?_name (e : Encoding) : ofName? e.name = some e := by
  cases e <;> decide +kernel

theorem ofName?_eq_of_sameSpelling {s t : String} (h : SameSpelling s t) :
    ofName? s = ofName? t := by
  unfold ofName?
  rw [normalName_eq_of_sameSpelling h]

/-- A text asks for the encoding it names, in whatever form it is given. -/
theorem ofValue_eq_ok_iff {s : String} {form : TextForm} (hform : form.Fits s) {e : Encoding} :
    ofValue (.scalar (.text s form)) = .ok e ↔ ofName? s = some e := by
  cases form with
  | encoding e' =>
      rw [hform e' rfl, ofName?_name, Option.some.injEq]
      exact ⟨Except.ok.inj, congrArg Except.ok⟩
  | _ =>
      simp only [ofValue]
      cases ofName? s with
      | none => exact iff_of_false nofun nofun
      | some e' => rw [Except.ok.injEq, Option.some.injEq]

/-- Texts that are the same but for their spelling ask for the same encoding. -/
theorem ofValue_iff_of_sameSpelling {s t : String} {form form' : TextForm}
    (h : SameSpelling s t) (hform : form.Fits s) (hform' : form'.Fits t) (e : Encoding) :
    ofValue (.scalar (.text s form)) = .ok e ↔ ofValue (.scalar (.text t form')) = .ok e := by
  rw [ofValue_eq_ok_iff hform, ofValue_eq_ok_iff hform', ofName?_eq_of_sameSpelling h]

end Encoding

end Docket
