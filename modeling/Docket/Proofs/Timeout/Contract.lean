import Docket.Proofs.Timeout.Seconds

/-!
# What timeouts come to

A timeout is no limit, a number of seconds that can be waited for, or it is refused for
its value or its type. Two kinds of timeouts come to something else: an integer that is
too large for a floating-point number is an overflow, and a unit with a stray letter is
looked up in vain. Both are faults of the conversion, which comes before the checks, so
they are raised whether the timeout is negative or not, and however long it is.

## Main definitions

* `Timeout.IsWait`, `Timeout.IsRefusal`: What a timeout may come to.
* `Timeout.Escapes`: What it comes to besides.
* `Timeout.Contract`: What a timeout comes to.

## Theorems

* `Timeout.Asks.keeps`: What is checked is on the same side of the bounds as what was
  asked for.
* `Timeout.check_cases`: What the checks come to.
* `Timeout.contract`: What timeouts come to.
* `Timeout.timeouts_escape`: An integer and a unit that escape.
-/

namespace Docket

namespace TimeText

variable {t : TimeText}

/-- A text of the form is none that means no limit. -/
theorem Proper.ne_noLimit (h : t.Proper) : trim t.text ≠ Timeout.noLimit.toList := by
  have hblank : ∀ c, isBlank c = true → c ≠ '-' := by
    rintro c hc rfl
    exact absurd hc (by decide)
  have hdigit : ∀ c, isDigit c = true → c ≠ '-' := by
    rintro c hc rfl
    exact absurd hc (by decide)
  have hunit : ∀ c ∈ unitChars, c ≠ '-' := List.all_iff_forall_prop.mp (by decide)
  have hpointed : ∀ c ∈ pointed t.fraction, c ≠ '-' := by
    unfold pointed
    split
    · exact fun c hc => absurd hc List.not_mem_nil
    · exact List.forall_mem_cons.mpr ⟨by decide, fun c hc => hdigit c (h.fraction c hc)⟩
  -- No part of the text has a sign.
  have hall : ∀ c ∈ t.text, c ≠ '-' := by
    simp only [text, numeral, List.forall_mem_append]
    exact ⟨fun c hc => hblank c (h.before c hc),
      ⟨fun c hc => hdigit c (h.whole c hc), hpointed⟩, fun c hc => hblank c (h.between c hc),
      fun c hc => hunit c (h.unit_chars.2 c hc), fun c hc => hblank c (h.after c hc)⟩
  intro heq
  obtain ⟨before, after, hsplit, -, -⟩ := trim_split t.text
  refine hall '-' ?_ rfl
  rw [hsplit, heq]
  exact List.mem_append_right _ (List.mem_append_left _ (by decide))

/-- A text of the form is the product of its numeral and its unit, if the unit is
    found. -/
theorem Proper.ofText_eq (h : t.Proper) {u : TimeUnit} (hu : u.isSpelled t.unit = true) :
    Timeout.ofText (String.ofList t.text) = if t.unit.any isStray = true
      then .error (.keyError (.text (String.ofList (lower t.unit))))
      else .ok (some ((Decimal.toBinary false ⟨t.digits, -(t.fraction.length : Int)⟩).mul
        u.length)) := by
  unfold Timeout.ofText
  rw [String.toList_ofList, if_neg h.ne_noLimit, h.reads]
  simp only [Timeout.ofNumeral]
  rw [ofName?_of_isSpelled hu, h.readFloat]
  by_cases hstray : t.unit.any isStray = true
  · rw [if_pos hstray, if_pos hstray]
    rfl
  · rw [if_neg hstray, if_neg hstray]
    rfl

end TimeText

namespace Timeout

/-! ## What timeouts may come to -/

/-- A number of seconds that can be waited for. -/
def IsWait (x : Binary64) : Prop :=
  x.isFinite = true ∧ 0 ≤ x.signedUnits ∧ x.units < longest * 2 ^ Binary64.unitScale

/-- A timeout is refused for its value or its type. -/
def IsRefusal (f : Failure) : Prop := ∃ text, f = .valueError text ∨ f = .typeError text

/-- A failure of another class is no refusal. -/
theorem not_isRefusal {name text : String} {cause : Option Failure}
    (hvalue : name ≠ "ValueError") (htype : name ≠ "TypeError") :
    ¬ IsRefusal (.foreign name text cause) := by
  rintro ⟨message, h | h⟩
  · exact hvalue (by simpa [Failure.valueError] using congrArg Failure.className h)
  · exact htype (by simpa [Failure.typeError] using congrArg Failure.className h)

/-- No limit is asked for. -/
inductive NoLimit : Value → Prop
  | null : NoLimit (.scalar .null)
  | text {s : String} (h : trim s.toList = noLimit.toList) (form : TextForm) :
      NoLimit (.scalar (.text s form))

/-- What is raised by a timeout that is neither taken nor refused. -/
inductive Escapes : Value → Failure → Prop
  | int {n : Int} (h : 2 ^ 1024 - 2 ^ 970 ≤ n.natAbs) (form : NumberForm) :
      Escapes (.scalar (.int n form)) (.overflow "int too large to convert to float")
  | text {t : TimeText} (h : t.Proper) (hstray : t.unit.any isStray = true) (form : TextForm) :
      Escapes (.scalar (.text (String.ofList t.text) form))
        (.keyError (.text (String.ofList (lower t.unit))))

/-- What a timeout comes to. -/
structure Contract (v : Value) : Prop where
  /-- no limit, a wait, or a failure -/
  answers : ofValue v = .ok none ∨ (∃ x, ofValue v = .ok (some x) ∧ IsWait x) ∨
    ∃ f, ofValue v = .error f ∧ (IsRefusal f ∨ Escapes v f)
  /-- what escapes is no refusal -/
  escapes : ∀ f, Escapes v f → ofValue v = .error f ∧ ¬ IsRefusal f
  noLimit : NoLimit v → ofValue v = .ok none
  /-- what is long is without limit, if it is taken -/
  long : ∀ a d, Asks v a d → longest * d ≤ a → ∀ r, ofValue v = .ok r → r = none
  /-- what is negative is refused -/
  negative : ∀ a d, Asks v a d → a < 0 →
    (∃ f, Escapes v f) ∨ ∃ text, ofValue v = .error (.valueError text)
  /-- what is neither negative nor very long is taken -/
  moderate : ∀ a d, Asks v a d → 0 ≤ a → a < 2 ^ 200 * d →
    (∃ f, Escapes v f) ∨ ∃ r, ofValue v = .ok r
  /-- so is any other integer -/
  int : ∀ n form, v = .scalar (.int n form) → 0 ≤ n →
    (∃ f, Escapes v f) ∨ ∃ r, ofValue v = .ok r
  /-- and any floating-point number that is finite, and no other -/
  float : ∀ x form, v = .scalar (.float x form) →
    (x.isFinite = true → 0 ≤ x.signedUnits → ∃ r, ofValue v = .ok r) ∧
      (x.isFinite = false → ∃ text, ofValue v = .error (.valueError text))
  /-- a text of another form is refused -/
  malformed : ∀ s form, v = .scalar (.text s form) → ¬ NoLimit v →
    (∀ t : TimeText, t.Proper → t.text ≠ s.toList) →
      ∃ text, ofValue v = .error (.valueError text)

/-! ## The checks -/

section

variable (v : Value) {x : Binary64}

/-- What the checks come to. -/
theorem check_cases (x : Binary64) : check v x = .ok none ∨
    (check v x = .ok (some x) ∧ IsWait x) ∨ ∃ text, check v x = .error (.valueError text) := by
  unfold check IsWait
  by_cases hfinite : x.isFinite = true
  · by_cases hsign : x.signedUnits < 0
    · simp [hfinite, hsign]
    · by_cases hlong : longest * 2 ^ Binary64.unitScale ≤ x.units
      · simp [hfinite, hsign, hlong]
      · simp [hfinite, hsign, hlong]
        omega
  · simp [hfinite]

theorem check_ok (hfinite : x.isFinite = true) (hsign : 0 ≤ x.signedUnits) :
    ∃ r, check v x = .ok r := by
  unfold check
  rw [if_neg (by simp [hfinite]), if_neg (by omega)]
  split <;> exact ⟨_, rfl⟩

theorem check_infinite (hfinite : x.isFinite = false) :
    ∃ text, check v x = .error (.valueError text) := by
  unfold check
  rw [if_pos (by simp [hfinite])]
  exact ⟨_, rfl⟩

theorem check_negative (hsign : x.signedUnits < 0) :
    ∃ text, check v x = .error (.valueError text) := by
  unfold check
  by_cases hfinite : x.isFinite = true
  · rw [if_neg (by simp [hfinite]), if_pos hsign]
    exact ⟨_, rfl⟩
  · rw [if_pos (by simp [hfinite])]
    exact ⟨_, rfl⟩

theorem check_long (hlong : x.isFinite = true → longest * 2 ^ Binary64.unitScale ≤ x.units)
    {r : Option Binary64} (h : check v x = .ok r) : r = none := by
  unfold check at h
  by_cases hfinite : x.isFinite = true
  · rw [if_neg (by simp [hfinite])] at h
    split at h
    · exact absurd h nofun
    · rw [if_pos (hlong hfinite)] at h
      exact (Except.ok.inj h).symm
  · rw [if_pos (by simp [hfinite])] at h
    exact absurd h nofun

end

/-! ## Timeouts -/

theorem ofValue_of_read {v : Value} {x : Binary64} (h : read v = .ok (some x)) :
    ofValue v = check v x := by
  unfold ofValue
  rw [h]

theorem ofValue_of_error {v : Value} {f : Failure} (h : read v = .error f) :
    ofValue v = .error f := by
  unfold ofValue
  rw [h]

/-- An integer is converted unless it is too large. -/
theorem read_int (n : Int) (form : NumberForm) : read (.scalar (.int n form)) =
    if 2 ^ 1024 - 2 ^ 970 ≤ n.natAbs then .error (.overflow "int too large to convert to float")
    else .ok (some (Binary64.ofRatio (decide (n < 0)) n.natAbs 1)) := by
  have hlarge := Binary64.ofInt?_eq_none_iff (n := n)
  unfold read
  simp only []
  split
  next x h =>
    rw [if_neg (by rw [← hlarge, h]; exact nofun), (Binary64.ofInt?_eq_some h).1]
  next h => rw [if_pos (hlarge.mp h)]

/-- What is checked is on the same side of the bounds as what was asked for. -/
theorem Asks.keeps {v : Value} {a : Int} {d : Nat} (h : Asks v a d) :
    (∃ f, Escapes v f) ∨ ∃ x, read v = .ok (some x) ∧ Keeps x a d := by
  have hfine : 10 ^ 6 ≤ 2 ^ Binary64.unitScale := by decide +kernel
  cases h with
  | int n form =>
      have hread := read_int a form
      by_cases hlarge : 2 ^ 1024 - 2 ^ 970 ≤ a.natAbs
      · exact Or.inl ⟨_, .int hlarge form⟩
      -- A number has all integers below that bound within reach, and rounding keeps the side.
      · rw [if_neg hlarge] at hread
        exact Or.inr ⟨_, hread, keeps_ofRatio a Nat.one_pos (Nat.one_le_two_pow)⟩
  | @float x form h =>
      refine Or.inr ⟨x, rfl, ?_, ?_, fun hsign _ => ⟨h, hsign⟩⟩
      · intro hsign
        unfold Binary64.signedUnits at hsign
        split at hsign
        next hnegative => exact ⟨hnegative, by omega⟩
        next => omega
      · intro hlong _
        unfold Binary64.signedUnits at hlong
        split at hlong <;> omega
  | duration d => exact Or.inr ⟨_, rfl, keeps_ofRatio _ (by decide) hfine⟩
  | @text t ht u hu form =>
      have hread : read (.scalar (.text (String.ofList t.text) form)) = _ := ht.ofText_eq hu
      by_cases hstray : t.unit.any isStray = true
      · exact Or.inl ⟨_, .text ht hstray form⟩
      · rw [if_neg hstray] at hread
        exact Or.inr ⟨_, hread, keeps_text _ _ _⟩

/-- What escapes is raised. -/
theorem Escapes.read_eq {v : Value} {f : Failure} (h : Escapes v f) : read v = .error f := by
  cases h with
  | @int n h form =>
      rw [read_int, if_pos h]
  | @text t ht hstray form =>
      obtain ⟨u, hu⟩ := ht.unit
      have hread : read (.scalar (.text (String.ofList t.text) form)) = _ := ht.ofText_eq hu
      rw [if_pos hstray] at hread
      exact hread

theorem NoLimit.read_eq {v : Value} (h : NoLimit v) : read v = .ok none := by
  cases h with
  | null => rfl
  | @text s h form =>
      unfold read ofText
      simp only []
      rw [if_pos h]

/-- A text that is not read is refused, unless it means no limit. -/
theorem read_text (s : String) (form : TextForm) : NoLimit (.scalar (.text s form)) ∨
    (∃ t : TimeText, t.Proper ∧ s = String.ofList t.text) ∨
      (∀ t : TimeText, t.Proper → t.text ≠ s.toList) ∧
        ∃ text, read (.scalar (.text s form)) = .error (.valueError text) := by
  by_cases hlimit : trim s.toList = noLimit.toList
  · exact Or.inl (.text hlimit form)
  -- What is read has the form that is documented, and no such text goes unread.
  · cases hread : readTimeValue? s.toList with
    | some p =>
        obtain ⟨t, ht, htext, -, -⟩ := readTimeValue?_eq_some_iff.mp hread
        exact Or.inr (Or.inl ⟨t, ht, by rw [htext, String.ofList_toList]⟩)
    | none =>
        refine Or.inr (Or.inr ⟨fun t ht htext => ?_, ?_⟩)
        · rw [← htext, ht.reads] at hread
          exact absurd hread nofun
        · unfold read ofText
          simp only []
          rw [if_neg hlimit, hread]
          exact ⟨_, rfl⟩

/-- What is asked for before it is checked: no limit, a number, or a failure. -/
theorem read_cases (v : Value) : (NoLimit v ∧ read v = .ok none) ∨
    (∃ x, read v = .ok (some x)) ∨ ∃ f, read v = .error f ∧ (IsRefusal f ∨ Escapes v f) := by
  have htype : ∀ {v : Value} {text : String}, read v = .error (.typeError text) →
      ∃ f, read v = .error f ∧ (IsRefusal f ∨ Escapes v f) :=
    fun h => ⟨_, h, Or.inl ⟨_, Or.inr rfl⟩⟩
  cases v with
  | scalar s =>
      cases s with
      | null => exact Or.inl ⟨.null, rfl⟩
      | int n form =>
          have hread := read_int n form
          by_cases hlarge : 2 ^ 1024 - 2 ^ 970 ≤ n.natAbs
          · exact Or.inr (Or.inr ⟨_, Escapes.read_eq (.int hlarge form), Or.inr (.int hlarge form)⟩)
          · rw [if_neg hlarge] at hread
            exact Or.inr (Or.inl ⟨_, hread⟩)
      | float x form => exact Or.inr (Or.inl ⟨x, rfl⟩)
      | text s form =>
          rcases read_text s form with h | ⟨t, ht, rfl⟩ | ⟨-, text, hread⟩
          · exact Or.inl ⟨h, h.read_eq⟩
          · obtain ⟨u, hu⟩ := ht.unit
            -- A text of the form comes to a number, unless its unit has a stray letter.
            rcases (Asks.text ht hu form).keeps with ⟨f, hf⟩ | ⟨x, hread, -⟩
            · exact Or.inr (Or.inr ⟨f, hf.read_eq, Or.inr hf⟩)
            · exact Or.inr (Or.inl ⟨x, hread⟩)
          · exact Or.inr (Or.inr ⟨_, hread, Or.inl ⟨text, Or.inl rfl⟩⟩)
      | _ => exact Or.inr (Or.inr (htype rfl))
  | alien a =>
      cases a with
      | duration d => exact Or.inr (Or.inl ⟨_, rfl⟩)
      | _ => exact Or.inr (Or.inr (htype rfl))
  | _ => exact Or.inr (Or.inr (htype rfl))

/-- What timeouts come to. -/
theorem contract (v : Value) : Contract v where
  answers := by
    rcases read_cases v with ⟨-, hread⟩ | ⟨x, hread⟩ | ⟨f, hread, hf⟩
    · exact Or.inl (by unfold ofValue; rw [hread])
    · rw [ofValue_of_read hread]
      rcases check_cases v x with h | h | ⟨text, h⟩
      · exact Or.inl h
      · exact Or.inr (Or.inl ⟨x, h⟩)
      · exact Or.inr (Or.inr ⟨_, h, Or.inl ⟨text, Or.inl rfl⟩⟩)
    · exact Or.inr (Or.inr ⟨f, ofValue_of_error hread, hf⟩)
  escapes f h := by
    refine ⟨ofValue_of_error h.read_eq, ?_⟩
    cases h with
    | int => exact not_isRefusal (by decide) (by decide)
    | text => exact not_isRefusal (by decide) (by decide)
  noLimit h := by
    unfold ofValue
    rw [h.read_eq]
  long a d h hlong r hr := by
    rcases h.keeps with ⟨f, hf⟩ | ⟨x, hread, hx⟩
    · rw [ofValue_of_error hf.read_eq] at hr
      exact absurd hr nofun
    · rw [ofValue_of_read hread] at hr
      exact check_long v (hx.long hlong) hr
  negative a d h hneg := by
    rcases h.keeps with hf | ⟨x, hread, hx⟩
    · exact Or.inl hf
    · rw [ofValue_of_read hread]
      obtain ⟨hsign, hpos⟩ := hx.negative hneg
      refine Or.inr (check_negative v ?_)
      unfold Binary64.signedUnits
      rw [if_pos hsign]
      omega
  moderate a d h hpos hlt := by
    rcases h.keeps with hf | ⟨x, hread, hx⟩
    · exact Or.inl hf
    · rw [ofValue_of_read hread]
      obtain ⟨hfinite, hsign⟩ := hx.moderate hpos hlt
      exact Or.inr (check_ok v hfinite hsign)
  int := by
    rintro n form rfl hpos
    cases hn : Binary64.ofInt? n with
    | none => exact Or.inl ⟨_, .int (Binary64.ofInt?_eq_none_iff.mp hn) form⟩
    | some x =>
        have hread : read (.scalar (.int n form)) = .ok (some x) := by
          unfold read
          simp only []
          rw [hn]
        obtain ⟨rfl, hfinite⟩ := Binary64.ofInt?_eq_some hn
        rw [ofValue_of_read hread]
        refine Or.inr (check_ok _ hfinite ?_)
        -- An integer that is rounded is not below zero, since it was not before.
        rw [decide_eq_false (by omega)]
        exact Binary64.signedUnits_ofRatio _ _
  float := by
    rintro x form rfl
    have hread : read (.scalar (.float x form)) = .ok (some x) := rfl
    rw [ofValue_of_read hread]
    exact ⟨check_ok _, check_infinite _⟩
  malformed := by
    rintro s form rfl hlimit hform
    rcases read_text s form with h | ⟨t, ht, rfl⟩ | ⟨-, text, hread⟩
    · exact absurd h hlimit
    · exact absurd (String.toList_ofList).symm (hform t ht)
    · exact ⟨text, ofValue_of_error hread⟩

/-- An integer that is longer than the longest wait is no wait without limit, and a unit
    that is recognized is not found. -/
theorem timeouts_escape :
    ofValue (.scalar (.int (2 ^ 2000) .plain)) =
        .error (.overflow "int too large to convert to float") ∧
      ofValue (.scalar (.int (-2 ^ 2000) .plain)) =
        .error (.overflow "int too large to convert to float") ∧
      (∃ key, ofValue (.scalar (.text "5ſ" .plain)) = .error (.keyError key)) ∧
      ¬ IsRefusal (.overflow "int too large to convert to float") ∧
      ∀ key, ¬ IsRefusal (.keyError key) := by
  refine ⟨?_, ?_, ⟨.text "ſ", ?_⟩, not_isRefusal (by decide) (by decide),
    fun key => not_isRefusal (by decide) (by decide)⟩
  · exact ofValue_of_error (Escapes.read_eq (.int (by decide +kernel) .plain))
  · exact ofValue_of_error (Escapes.read_eq (.int (by decide +kernel) .plain))
  · rfl

end Timeout

end Docket
