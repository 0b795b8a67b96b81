import Docket.Content
import Docket.Proofs.Calendar.Clock
import Docket.Proofs.Number.Digits
import Mathlib.Data.String.Basic

/-!
# Written dates in order

Dates and points in time are written so that sorting the texts sorts what they stand for.
Texts are compared character by character, and a written form has one numeral of fixed
width after the other, the one that counts most in front. So a text is ranked by its
numerals as the digits of one number, and that number grows with the date or the instant.

`Sorts` says that texts and ranks compare alike. It is kept when a numeral is put behind a
text, provided the numeral is below the factor that the rank is multiplied by
(`Sorts.append`); so the written forms are taken together numeral by numeral, in the order
in which they are written. The rank of a date can be exchanged for its day number, which
is ordered in the same way.

Aware readings are written by the universal clock, where an instant has just one reading,
so their order is that of the instants, to the millisecond.

## Main definitions

* `Sorts`: Texts that are ordered as numbers are.
* `Scalar.WrittenAs`: The text a date or a point in time is written as.

## Theorems

* `padded_succ`: A numeral of fixed width, digit by digit.
* `sorts_date`, `sorts_localText`: Written dates and readings are in order.
* `dates_written_in_order`: Dates, naive and aware readings are written in order, and told
  apart by what is written.
-/

namespace Docket

/-! ## Numerals of fixed width -/

/-- The last digit of a numeral is that of its last remainder. -/
theorem padded_succ {w n : Nat} (hw : 1 ≤ w) (h : n < 10 ^ (w + 1)) :
    padded (w + 1) n = padded w (n / 10) ++ [Nat.digitChar (n % 10)] := by
  unfold padded
  simp only []
  rw [toList_toString, toList_toString]
  -- One digit is padded with zeros in full, which leave none for a quotient of zero.
  by_cases hn : n < 10
  · have hzero : n / 10 = 0 := by omega
    have hmod : n % 10 = n := by omega
    obtain ⟨k, rfl⟩ := Nat.exists_eq_add_of_le' hw
    rw [hzero, hmod, Nat.toDigits_of_lt_base hn, Nat.toDigits_of_lt_base (by decide)]
    simp [List.replicate_succ']
  · have hsplit := Nat.toDigits_append_toDigits (b := 10) (n := n / 10) (d := n % 10)
      (by decide) (by omega) (by omega)
    rw [Nat.div_add_mod, Nat.toDigits_of_lt_base (Nat.mod_lt n (by decide))] at hsplit
    rw [← hsplit, List.length_append, List.length_singleton, Nat.add_sub_add_right,
      List.append_assoc]

/-- A numeral that fits has the given width. -/
theorem length_padded {w : Nat} (hw : 1 ≤ w) : ∀ {n : Nat}, n < 10 ^ w →
    (padded w n).length = w := by
  induction w, hw using Nat.le_induction with
  | base =>
      intro n hn
      unfold padded
      rw [toList_toString, Nat.toDigits_of_lt_base (by simpa using hn)]
      rfl
  | succ w hw ih =>
      intro n hn
      rw [padded_succ hw hn, List.length_append, List.length_singleton,
        ih (Nat.div_lt_of_lt_mul (by rwa [Nat.pow_succ, Nat.mul_comm] at hn))]

theorem digitChar_lt_iff {m n : Nat} (hm : m < 10) (hn : n < 10) :
    Nat.digitChar m < Nat.digitChar n ↔ m < n := by
  rw [Char.lt_def, UInt32.lt_iff_toNat_lt]
  change (Nat.digitChar m).toNat < (Nat.digitChar n).toNat ↔ m < n
  rw [Nat.toNat_digitChar_of_lt_ten hm, Nat.toNat_digitChar_of_lt_ten hn]
  omega

/-! ## Texts in order -/

/-- Of two texts the beginnings decide if they differ, as long as these are of one
    length. -/
theorem append_lt_append_iff {a b c d : List Char} (h : a.length = b.length) :
    a ++ c < b ++ d ↔ a < b ∨ a = b ∧ c < d := by
  induction a generalizing b with
  | nil =>
      obtain rfl : b = [] := List.length_eq_zero_iff.mp h.symm
      simp
  | cons x a ih =>
      cases b with
      | nil => exact absurd h (Nat.succ_ne_zero _)
      | cons y b =>
          rw [List.cons_append, List.cons_append, List.cons_lt_cons_iff, List.cons_lt_cons_iff,
            ih (Nat.succ.inj h), List.cons.injEq]
          tauto

/-- Two digits are ordered by the first if it differs, to whatever base. -/
theorem mul_add_lt_iff {x y s t k : Nat} (hs : s < k) (ht : t < k) :
    x * k + s < y * k + t ↔ x < y ∨ x = y ∧ s < t := by
  rcases Nat.lt_trichotomy x y with hxy | rfl | hxy
  · have hmul := Nat.mul_le_mul_right k (Nat.succ_le_of_lt hxy)
    rw [Nat.succ_mul] at hmul
    omega
  · omega
  · have hmul := Nat.mul_le_mul_right k (Nat.succ_le_of_lt hxy)
    rw [Nat.succ_mul] at hmul
    omega

/-- Where something holds, texts are of one length and are ordered as numbers are. -/
structure Sorts {α : Type} (P : α → Prop) (text : α → List Char) (rank : α → Nat) : Prop where
  length_eq : ∀ a b, P a → P b → (text a).length = (text b).length
  lt_iff : ∀ a b, P a → P b → (text a < text b ↔ rank a < rank b)

namespace Sorts

variable {α β : Type} {P : α → Prop} {text more : α → List Char} {rank rank' : α → Nat}

/-- Texts that are ordered as numbers are the same for the same numbers only. -/
theorem eq_iff (h : Sorts P text rank) {a b : α} (ha : P a) (hb : P b) :
    text a = text b ↔ rank a = rank b := by
  rw [eq_iff_le_not_lt, ← not_lt, h.lt_iff a b ha hb, h.lt_iff b a hb ha]
  omega

theorem le_iff (h : Sorts P text rank) {a b : α} (ha : P a) (hb : P b) :
    text a ≤ text b ↔ rank a ≤ rank b := by
  rw [← not_lt, h.lt_iff b a hb ha, Nat.not_lt]

/-- Ranks can be exchanged for others that are in the same order. -/
theorem congr (h : Sorts P text rank) (htext : ∀ a, P a → more a = text a)
    (hrank : ∀ a b, P a → P b → (rank a < rank b ↔ rank' a < rank' b)) : Sorts P more rank' where
  length_eq a b ha hb := by rw [htext a ha, htext b hb, h.length_eq a b ha hb]
  lt_iff a b ha hb := by rw [htext a ha, htext b hb, h.lt_iff a b ha hb, hrank a b ha hb]

/-- What is in order is so as a part of something else. -/
theorem comp (h : Sorts P text rank) {Q : β → Prop} {f : β → α} (hf : ∀ b, Q b → P (f b)) :
    Sorts Q (fun b => text (f b)) fun b => rank (f b) where
  length_eq a b ha hb := h.length_eq _ _ (hf a ha) (hf b hb)
  lt_iff a b ha hb := h.lt_iff _ _ (hf a ha) (hf b hb)

/-- A text with another one behind it is ranked by both, the first one counting more. -/
theorem append (h : Sorts P text rank) (h' : Sorts P more rank') {k : Nat}
    (hk : ∀ a, P a → rank' a < k) :
    Sorts P (fun a => text a ++ more a) fun a => rank a * k + rank' a where
  length_eq a b ha hb := by
    rw [List.length_append, List.length_append, h.length_eq a b ha hb, h'.length_eq a b ha hb]
  lt_iff a b ha hb := by
    rw [append_lt_append_iff (h.length_eq a b ha hb), h.lt_iff a b ha hb, h.eq_iff ha hb,
      h'.lt_iff a b ha hb, mul_add_lt_iff (hk a ha) (hk b hb)]

end Sorts

section

variable {α : Type} {P : α → Prop} {n : α → Nat}

theorem sorts_digit (hn : ∀ a, P a → n a < 10) : Sorts P (fun a => [Nat.digitChar (n a)]) n where
  length_eq _ _ _ _ := rfl
  lt_iff a b ha hb := by
    rw [List.cons_lt_cons_iff, digitChar_lt_iff (hn a ha) (hn b hb)]
    simp

/-- Numerals of one width are in order. -/
theorem sorts_padded {w : Nat} (hw : 1 ≤ w) (hn : ∀ a, P a → n a < 10 ^ w) :
    Sorts P (fun a => padded w (n a)) n := by
  induction w, hw using Nat.le_induction generalizing n with
  | base =>
      have hdigit : ∀ a, P a → n a < 10 := by simpa using hn
      refine (sorts_digit hdigit).congr (fun a ha => ?_) fun _ _ _ _ => Iff.rfl
      unfold padded
      rw [toList_toString, Nat.toDigits_of_lt_base (hdigit a ha)]
      rfl
  | succ w hw ih =>
      -- The last digit is the last remainder and counts least.
      have hfront : ∀ a, P a → n a / 10 < 10 ^ w := by
        intro a ha
        have hlt := hn a ha
        rw [Nat.pow_succ] at hlt
        omega
      have hlast : Sorts P (fun a => [Nat.digitChar (n a % 10)]) fun a => n a % 10 :=
        sorts_digit fun a _ => Nat.mod_lt _ (by decide)
      have hboth := (ih hfront).append hlast fun a _ => Nat.mod_lt (n a) (by decide : 0 < 10)
      refine hboth.congr (fun a ha => padded_succ hw (hn a ha)) fun a b _ _ => ?_
      rw [Nat.div_add_mod', Nat.div_add_mod']

/-- A mark in front of numerals makes no difference. -/
theorem sorts_field (c : Char) {w : Nat} (hw : 1 ≤ w) (hn : ∀ a, P a → n a < 10 ^ w) :
    Sorts P (fun a => c :: padded w (n a)) n where
  length_eq a b ha hb := by
    rw [List.length_cons, List.length_cons, (sorts_padded hw hn).length_eq a b ha hb]
  lt_iff a b ha hb := by
    rw [List.cons_lt_cons_iff, (sorts_padded hw hn).lt_iff a b ha hb]
    simp

end

/-! ## Dates -/

/-- A date by its numerals. -/
theorem Date.toList_text (d : Date) :
    d.text.toList = padded 4 d.year ++ '-' :: padded 2 d.month ++ '-' :: padded 2 d.day := by
  unfold text
  rw [String.toList_ofList]

/-- Written dates are in the order of their days. -/
theorem sorts_date : Sorts Date.Valid (fun d => d.text.toList) Date.ordinal := by
  have hyear : Sorts Date.Valid (fun d => padded 4 d.year) Date.year :=
    sorts_padded (by decide) fun d h => by have := h.bounds; omega
  have hmonth : Sorts Date.Valid (fun d => '-' :: padded 2 d.month) Date.month :=
    sorts_field '-' (by decide) fun d h => by have := h.bounds; omega
  have hday : Sorts Date.Valid (fun d => '-' :: padded 2 d.day) Date.day :=
    sorts_field '-' (by decide) fun d h => by have := h.bounds; omega
  have hall := (hyear.append hmonth (k := 13) fun d h => by have := h.bounds; omega).append hday
    (k := 32) fun d h => by have := h.bounds; omega
  refine hall.congr (fun d _ => d.toList_text) fun d e hd he => ?_
  rw [Date.ordinal_lt_iff hd he, Date.Before]
  have hdb := hd.bounds
  have heb := he.bounds
  omega

/-! ## Readings of a clock -/

namespace DateTime

/-- The milliseconds of a reading, as the clock counts them. -/
def milliseconds (t : DateTime) : Nat := t.seconds * 1000 + t.microsecond / 1000

/-- A reading by its numerals. -/
theorem toList_localText (t : DateTime) : t.localText.toList = t.date.text.toList ++
    ('T' :: padded 2 t.hour ++ ':' :: padded 2 t.minute ++ ':' :: padded 2 t.second ++
      '.' :: padded 3 (t.microsecond / 1000)) := by
  unfold localText
  rw [String.toList_append, String.toList_ofList]

end DateTime

/-- Written readings are in the order of their milliseconds. -/
theorem sorts_localText :
    Sorts DateTime.Valid (fun t => t.localText.toList) DateTime.milliseconds := by
  have hdate := sorts_date.comp (Q := DateTime.Valid) (f := DateTime.date) fun t h => h.1
  have hhour : Sorts DateTime.Valid (fun t => 'T' :: padded 2 t.hour) DateTime.hour :=
    sorts_field 'T' (by decide) fun t h => by have := h.2.1; omega
  have hminute : Sorts DateTime.Valid (fun t => ':' :: padded 2 t.minute) DateTime.minute :=
    sorts_field ':' (by decide) fun t h => by have := h.2.2.1; omega
  have hsecond : Sorts DateTime.Valid (fun t => ':' :: padded 2 t.second) DateTime.second :=
    sorts_field ':' (by decide) fun t h => by have := h.2.2.2.1; omega
  have hmilli : Sorts DateTime.Valid (fun t => '.' :: padded 3 (t.microsecond / 1000))
      fun t => t.microsecond / 1000 :=
    sorts_field '.' (by decide) fun t h => by have := h.2.2.2.2.1; omega
  -- Each part is appended to those that count for more, and is less than one unit of them.
  have htime := ((hhour.append hminute (k := 60) fun t h => h.2.2.1).append hsecond (k := 60)
    fun t h => h.2.2.2.1).append hmilli (k := 1000) fun t h => by have := h.2.2.2.2.1; omega
  have hall := hdate.append htime (k := 86400000) fun t h => by
    rcases h with ⟨-, hhour, hminute, hsecond, hmicro, -⟩
    omega
  refine hall.congr (fun t _ => t.toList_localText) fun t u _ _ => ?_
  rw [DateTime.milliseconds, DateTime.milliseconds, DateTime.seconds_eq, DateTime.seconds_eq,
    DateTime.secondOfDay, DateTime.secondOfDay]
  omega

/-- Of the readings of the universal clock, with the letter that marks them. -/
theorem sorts_universal :
    Sorts DateTime.Valid (fun t => t.localText.toList ++ ['Z']) DateTime.milliseconds := by
  have hmark : Sorts DateTime.Valid (fun _ => ['Z']) fun _ => 0 :=
    ⟨fun _ _ _ _ => rfl, fun _ _ _ _ => by simp⟩
  refine (sorts_localText.append hmark (k := 1) fun _ _ => Nat.zero_lt_one).congr
    (fun _ _ => rfl) fun t u _ _ => ?_
  rw [Nat.mul_one, Nat.mul_one, Nat.add_zero, Nat.add_zero]

/-! ## What is written -/

/-- The text that a leaf is written as. -/
def Scalar.WrittenAs (s : Scalar) (text : String) : Prop := s.prepare = .ok (.text text .plain)

/-- Two leaves are written as texts that are in the order of two numbers. -/
def Scalar.InOrder (x y : Scalar) (m n : Int) : Prop :=
  ∃ a b, x.WrittenAs a ∧ y.WrittenAs b ∧ (a = b ↔ m = n) ∧ (a ≤ b ↔ m ≤ n)

theorem Scalar.writtenAs_date (d : Date) {a : String} : (date d).WrittenAs a ↔ a = d.text := by
  unfold WrittenAs prepare
  simp only [Except.ok.injEq, Content.text.injEq, and_true]
  exact eq_comm

theorem Scalar.writtenAs_datetime (t : DateTime) {a : String} :
    (datetime t).WrittenAs a ↔ t.text? = some a := by
  unfold WrittenAs
  rw [prepare]
  cases t.text? with
  | none => simp
  | some b => simp

namespace DateTime

theorem text?_naive {t : DateTime} (h : t.offset = none) : t.text? = some t.localText := by
  unfold text?
  rw [h]

/-- An aware reading is written by the universal clock. -/
theorem text?_aware {t : DateTime} (h : t.offset ≠ none) {a : String} :
    t.text? = some a ↔ ∃ u, t.toUtc? = some u ∧ a = u.localText ++ "Z" := by
  obtain ⟨o, ho⟩ := Option.ne_none_iff_exists'.mp h
  unfold text?
  rw [ho]
  simp only [Option.map_eq_some_iff]
  exact exists_congr fun u => and_congr_right fun _ => eq_comm

/-- A naive reading is its own instant. -/
theorem milliseconds_naive {t : DateTime} (h : t.offset = none) :
    (t.milliseconds : Int) = t.instant / 1000 := by
  have hzero : Option.elim (none : Option ClockOffset) 0 ClockOffset.microseconds = 0 := rfl
  unfold milliseconds instant
  rw [h, hzero]
  omega

theorem milliseconds_universal {u : DateTime} (h : u.offset = some 0) :
    (u.milliseconds : Int) = u.instant / 1000 := by
  unfold milliseconds
  rw [instant_of_universal h]
  omega

theorem length_localText {t : DateTime} (h : t.Valid) : t.localText.toList.length = 23 := by
  rcases h with ⟨hdate, hhour, hminute, hsecond, hmicro, -⟩
  have hbounds := hdate.bounds
  rw [toList_localText, Date.toList_text]
  simp only [List.length_append, List.length_cons]
  iterate 7 rw [length_padded (by decide) (by omega)]

/-- What an aware reading is written as is longer by its letter. -/
theorem length_text? {t : DateTime} (h : t.Valid) {a : String} (ha : t.text? = some a) :
    a.toList.length = if t.offset = none then 23 else 24 := by
  by_cases ho : t.offset = none
  · rw [text?_naive ho] at ha
    rw [if_pos ho, ← Option.some.inj ha, length_localText h]
  · obtain ⟨u, hu, rfl⟩ := (text?_aware ho).mp ha
    rw [if_neg ho, String.toList_append, List.length_append,
      length_localText (toUtc?_eq_some_iff.mp hu).1]
    rfl

end DateTime

theorem Date.length_text {d : Date} (h : d.Valid) : d.text.toList.length = 10 := by
  have hbounds := h.bounds
  rw [toList_text]
  simp only [List.length_append, List.length_cons]
  iterate 3 rw [length_padded (by decide) (by omega)]

/-- Aware readings in the calendar are written in the order of their instants, naive ones
    in that of what they show, and dates in that of the calendar. The three are told apart
    by what is written. -/
theorem dates_written_in_order :
    (∀ t u : DateTime, t.offset ≠ none → u.offset ≠ none → t.InCalendar → u.InCalendar →
      (Scalar.datetime t).InOrder (.datetime u) (t.instant / 1000) (u.instant / 1000)) ∧
    (∀ t u : DateTime, t.Valid → u.Valid → t.offset = none → u.offset = none →
      (Scalar.datetime t).InOrder (.datetime u) (t.instant / 1000) (u.instant / 1000)) ∧
    (∀ d e : Date, d.Valid → e.Valid → ∃ a b, (Scalar.date d).WrittenAs a ∧
      (Scalar.date e).WrittenAs b ∧ (a = b ↔ d = e) ∧ (a ≤ b ↔ d = e ∨ d.Before e)) ∧
    (∀ (d : Date) (t : DateTime) (a b : String), d.Valid → t.Valid →
      (Scalar.date d).WrittenAs a → (Scalar.datetime t).WrittenAs b → a ≠ b) ∧
    ∀ (t u : DateTime) (a b : String), t.Valid → u.Valid → t.offset = none → u.offset ≠ none →
      (Scalar.datetime t).WrittenAs a → (Scalar.datetime u).WrittenAs b → a ≠ b := by
  refine ⟨?aware, ?naive, ?date, ?dateApart, ?clockApart⟩
  case aware =>
    rintro t u ht hu ⟨t', ht', hot, hit⟩ ⟨u', hu', hou, hiu⟩
    -- Both are written as they read on the universal clock, where one instant has one reading.
    have hutc := DateTime.toUtc?_eq_some_iff.mpr ⟨ht', hot, hit⟩
    have hutc' := DateTime.toUtc?_eq_some_iff.mpr ⟨hu', hou, hiu⟩
    refine ⟨_, _, (Scalar.writtenAs_datetime t).mpr ((DateTime.text?_aware ht).mpr ⟨t', hutc, rfl⟩),
      (Scalar.writtenAs_datetime u).mpr ((DateTime.text?_aware hu).mpr ⟨u', hutc', rfl⟩), ?_, ?_⟩
    · rw [← String.toList_inj, String.toList_append, String.toList_append, ← hit, ← hiu,
        ← DateTime.milliseconds_universal hot, ← DateTime.milliseconds_universal hou]
      exact (sorts_universal.eq_iff ht' hu').trans Int.ofNat_inj.symm
    · rw [String.le_iff_toList_le, String.toList_append, String.toList_append, ← hit, ← hiu,
        ← DateTime.milliseconds_universal hot, ← DateTime.milliseconds_universal hou]
      exact (sorts_universal.le_iff ht' hu').trans Int.ofNat_le.symm
  case naive =>
    -- No clock is asked, so that what they show is compared, as if it were universal time.
    intro t u ht hu hot hou
    refine ⟨_, _, (Scalar.writtenAs_datetime t).mpr (DateTime.text?_naive hot),
      (Scalar.writtenAs_datetime u).mpr (DateTime.text?_naive hou), ?_, ?_⟩
    · rw [← String.toList_inj, ← DateTime.milliseconds_naive hot,
        ← DateTime.milliseconds_naive hou]
      exact (sorts_localText.eq_iff ht hu).trans Int.ofNat_inj.symm
    · rw [String.le_iff_toList_le, ← DateTime.milliseconds_naive hot,
        ← DateTime.milliseconds_naive hou]
      exact (sorts_localText.le_iff ht hu).trans Int.ofNat_le.symm
  case date =>
    intro d e hd he
    refine ⟨_, _, (Scalar.writtenAs_date d).mpr rfl, (Scalar.writtenAs_date e).mpr rfl, ?_, ?_⟩
    · rw [← String.toList_inj, ← Date.ordinal_inj hd he]
      exact sorts_date.eq_iff hd he
    · rw [String.le_iff_toList_le, ← Date.ordinal_inj hd he, ← Date.ordinal_lt_iff hd he]
      exact (sorts_date.le_iff hd he).trans (by omega)
  case dateApart =>
    rintro d t a b hd ht ha hb rfl
    -- The texts differ in length, and so do those of naive and aware readings.
    have hdate := Date.length_text hd
    have htime := DateTime.length_text? ht ((Scalar.writtenAs_datetime t).mp hb)
    rw [(Scalar.writtenAs_date d).mp ha] at htime
    split at htime <;> omega
  case clockApart =>
    rintro t u a b ht hu hot hou ha hb rfl
    have hnaive := DateTime.length_text? ht ((Scalar.writtenAs_datetime t).mp ha)
    have haware := DateTime.length_text? hu ((Scalar.writtenAs_datetime u).mp hb)
    rw [if_pos hot] at hnaive
    rw [if_neg hou] at haware
    omega

/-- A clock an hour ahead of universal time, just before the end of a leap day. -/
def leapDayEve : DateTime := ⟨⟨2024, 2, 29⟩, 23, 59, 59, 999999, some 3600⟩

/-- The same millisecond by a clock that is further ahead, by a fraction of a second too. -/
def marchMorning : DateTime := ⟨⟨2024, 3, 1⟩, 4, 29, 59, 999500, some ⟨19800000001⟩⟩

/-- What the first clock shows, if it is not known how far it is ahead. -/
def naiveEve : DateTime := { leapDayEve with offset := none }

theorem leapDayEve_in_order :
    (leapDayEve.offset ≠ none ∧ marchMorning.offset ≠ none ∧ leapDayEve.InCalendar ∧
      marchMorning.InCalendar ∧ marchMorning.Valid ∧ naiveEve.Valid ∧ naiveEve.offset = none ∧
      Date.Valid ⟨2024, 2, 29⟩ ∧ Date.Valid ⟨2024, 3, 1⟩ ∧
      (Scalar.date ⟨2024, 3, 1⟩).WrittenAs "2024-03-01" ∧
      (Scalar.datetime naiveEve).WrittenAs "2024-02-29T23:59:59.999" ∧
      (Scalar.datetime marchMorning).WrittenAs "2024-02-29T22:59:59.999Z") ∧
    (Scalar.datetime leapDayEve).InOrder (.datetime marchMorning)
      (leapDayEve.instant / 1000) (marchMorning.instant / 1000) ∧
    (Scalar.datetime naiveEve).InOrder (.datetime naiveEve)
      (naiveEve.instant / 1000) (naiveEve.instant / 1000) ∧
    (∃ a b, (Scalar.date ⟨2024, 2, 29⟩).WrittenAs a ∧ (Scalar.date ⟨2024, 3, 1⟩).WrittenAs b ∧
      a ≠ b ∧ a ≤ b) ∧
    "2024-03-01" ≠ "2024-02-29T22:59:59.999Z" ∧
    "2024-02-29T23:59:59.999" ≠ "2024-02-29T22:59:59.999Z" := by
  have hfirst : leapDayEve.InCalendar := DateTime.toUtc?_isSome_iff.mp (by decide +kernel)
  have hsecond : marchMorning.InCalendar := DateTime.toUtc?_isSome_iff.mp (by decide +kernel)
  have hvalid : marchMorning.Valid ∧ naiveEve.Valid ∧ Date.Valid ⟨2024, 2, 29⟩ ∧
      Date.Valid ⟨2024, 3, 1⟩ := by
    decide
  have hdateText : (Scalar.date ⟨2024, 3, 1⟩).WrittenAs "2024-03-01" :=
    (Scalar.writtenAs_date _).mpr (by decide +kernel)
  have hnaiveText : (Scalar.datetime naiveEve).WrittenAs "2024-02-29T23:59:59.999" :=
    (Scalar.writtenAs_datetime _).mpr (by decide +kernel)
  have hawareText : (Scalar.datetime marchMorning).WrittenAs "2024-02-29T22:59:59.999Z" :=
    (Scalar.writtenAs_datetime _).mpr (by decide +kernel)
  obtain ⟨hmarch, heve, hfebruary, hmarchDate⟩ := hvalid
  obtain ⟨haware, hnaive, hdate, hdateApart, hclockApart⟩ := dates_written_in_order
  refine ⟨⟨Option.some_ne_none _, Option.some_ne_none _, hfirst, hsecond, hmarch, heve, rfl,
    hfebruary, hmarchDate, hdateText, hnaiveText, hawareText⟩,
    haware _ _ (Option.some_ne_none _) (Option.some_ne_none _) hfirst hsecond,
    hnaive _ _ heve heve rfl rfl, ?_, hdateApart _ _ _ _ hmarchDate hmarch hdateText hawareText,
    hclockApart _ _ _ _ heve hmarch rfl (Option.some_ne_none _) hnaiveText hawareText⟩
  obtain ⟨a, b, ha, hb, heq, hle⟩ := hdate _ _ hfebruary hmarchDate
  refine ⟨a, b, ha, hb, fun h => ?_, hle.mpr (Or.inr ?_)⟩
  · exact absurd (heq.mp h) (by decide)
  · exact Or.inr ⟨rfl, Or.inl (by decide)⟩

end Docket
