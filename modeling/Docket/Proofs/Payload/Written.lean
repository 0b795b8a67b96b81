import Docket.Payload
import Docket.Value

/-!
# Data as it is written

What is left of data once it has been written and read back. Numbers and texts come
back as they were, dates and points in time as texts. The form of these texts is told
here digit by digit and not by the writer, which is proved to keep to it.

Two faults keep the data of a tree from being written as JSON: an aware point in
time may have no universal time, and an integer may be too long. Both are faults of
a leaf, so data has one of them only if one of its parts has.

## Main definitions

* `Value.scalars`: The leaves of data, in order.
* `Value.Normalizable`, `Value.Short`: Data without either fault.
* `Date.isoForm`, `DateTime.isoForm`: Dates and readings of a clock, digit by digit.
* `DateTime.written?`: The text of a point in time, if it has one.
* `Value.written`: Data with its dates written out.

## Theorems

* `DateTime.text?_eq`: The writer makes this text of a point in time.
* `forall_scalars_list`, `forall_scalars_fields`: A property of all leaves.
* `short_list`, `short_fields`: A list or a mapping is short if its parts are.
* `Fields.written_toValue`: Fields with their dates written out.
* `DateTime.text_of_normalizable`: A point in time that can be written.
-/

namespace Docket

mutual

/-- The leaves of data, in order. -/
def Value.scalars : Value → List Scalar
  | .scalar s => [s]
  | .items _ xs => scalarsOfItems xs
  | .mapping _ entries => scalarsOfEntries entries
  | _ => []

def scalarsOfItems : List Value → List Scalar
  | [] => []
  | v :: rest => v.scalars ++ scalarsOfItems rest

def scalarsOfEntries : List (Value × Value) → List Scalar
  | [] => []
  | (_, v) :: rest => v.scalars ++ scalarsOfEntries rest

end

/-- Every aware point in time has a universal time. -/
def Value.Normalizable (v : Value) : Prop :=
  ∀ t, Scalar.datetime t ∈ v.scalars → t.offset ≠ none → t.toUtc? ≠ none

/-- No integer has too many digits. -/
def Value.Short (v : Value) : Prop :=
  ∀ n form, Scalar.int n form ∈ v.scalars → n.natAbs < 10 ^ maxDigits

/-- A date in ISO form: `2024-02-29`. -/
def Date.isoForm (d : Date) : List Char :=
  padded 4 d.year ++ '-' :: padded 2 d.month ++ '-' :: padded 2 d.day

/-- The reading of a clock in ISO form, to the millisecond: `2024-02-29T01:02:03.004`. -/
def DateTime.isoForm (t : DateTime) : List Char :=
  t.date.isoForm ++ 'T' :: padded 2 t.hour ++ ':' :: padded 2 t.minute ++
    ':' :: padded 2 t.second ++ '.' :: padded 3 (t.microsecond / 1000)

/-- What a point in time is written as: the reading itself if it is naive, and else what the
    universal clock reads then, marked by a letter. -/
def DateTime.written? (t : DateTime) : Option (List Char) :=
  match t.offset with
  | none => some t.isoForm
  | some _ => t.toUtc?.map fun u => u.isoForm ++ ['Z']

/-- A leaf in plain form, dates and points in time being written out. -/
def Scalar.written : Scalar → Scalar
  | .date d => .text (String.ofList d.isoForm) .plain
  | .datetime t =>
    match t.written? with
    | some cs => .text (String.ofList cs) .plain
    | none => .datetime t
  | s => s.plain

mutual

/-- Data with its dates written out. -/
def Value.written : Value → Value
  | .scalar s => .scalar s.written
  | .items kind xs => .items kind (writtenItems xs)
  | .mapping kind entries => .mapping kind (writtenEntries entries)
  | v => v

def writtenItems : List Value → List Value
  | [] => []
  | v :: rest => v.written :: writtenItems rest

def writtenEntries : List (Value × Value) → List (Value × Value)
  | [] => []
  | (k, v) :: rest => (k.written, v.written) :: writtenEntries rest

end

/-- What the writer makes of a reading is its ISO form. -/
theorem DateTime.localText_eq (t : DateTime) : t.localText = String.ofList t.isoForm := by
  unfold localText Date.text isoForm Date.isoForm
  rw [← String.ofList_append]
  simp only [List.append_assoc, List.cons_append]

/-- What the writer makes of a point in time. -/
theorem DateTime.text?_eq (t : DateTime) : t.text? = t.written?.map String.ofList := by
  unfold text? written?
  cases t.offset with
  | none => exact congrArg some t.localText_eq
  | some o =>
      rw [Option.map_map]
      refine congrArg (fun f => t.toUtc?.map f) (funext fun u => ?_)
      rw [u.localText_eq]
      exact String.ofList_append.symm

/-- A point in time that the writer makes a text of is written out as that text. -/
theorem Scalar.written_datetime {t : DateTime} {s : String} (h : t.text? = some s) :
    (Scalar.datetime t).written = .text s .plain := by
  rw [DateTime.text?_eq] at h
  rcases Option.map_eq_some_iff.mp h with ⟨cs, hcs, rfl⟩
  rw [Scalar.written, hcs]

theorem scalarsOfItems_eq (xs : List Value) : scalarsOfItems xs = xs.flatMap Value.scalars := by
  induction xs with
  | nil => rfl
  | cons v rest ih => rw [scalarsOfItems, ih, List.flatMap_cons]

theorem scalarsOfEntries_eq (entries : List (Value × Value)) :
    scalarsOfEntries entries = entries.flatMap fun e => e.2.scalars := by
  induction entries with
  | nil => rfl
  | cons e rest ih => rw [scalarsOfEntries, ih, List.flatMap_cons]

theorem writtenItems_eq (xs : List Value) : writtenItems xs = xs.map Value.written := by
  induction xs with
  | nil => rfl
  | cons v rest ih => rw [writtenItems, ih, List.map_cons]

theorem writtenEntries_eq (entries : List (Value × Value)) :
    writtenEntries entries = entries.map fun e => (e.1.written, e.2.written) := by
  induction entries with
  | nil => rfl
  | cons e rest ih => rw [writtenEntries, ih, List.map_cons]

/-- Fields with their dates written out. -/
theorem Fields.written_toValue (fs : Fields) : fs.toValue.written =
    .dict ((fs.map fun f => (f.1.text, f.2.written)).map fun m => (.text m.1, m.2)) := by
  unfold Fields.toValue Value.dict
  rw [Value.written, writtenEntries_eq, List.map_map, List.map_map]
  rfl

/-- A property of all leaves of a list. -/
theorem forall_scalars_list {P : Scalar → Prop} {xs : List Value} :
    (∀ s ∈ (Value.list xs).scalars, P s) ↔ ∀ v ∈ xs, ∀ s ∈ v.scalars, P s := by
  rw [Value.list, Value.scalars, scalarsOfItems_eq]
  constructor
  · exact fun h v hv s hs => h s (List.mem_flatMap.mpr ⟨v, hv, hs⟩)
  · intro h s hs
    rcases List.mem_flatMap.mp hs with ⟨v, hv, hs⟩
    exact h v hv s hs

/-- A property of all leaves of fields. -/
theorem forall_scalars_fields {P : Scalar → Prop} {fs : Fields} :
    (∀ s ∈ fs.toValue.scalars, P s) ↔ ∀ f ∈ fs, ∀ s ∈ f.2.scalars, P s := by
  rw [Fields.toValue, Value.dict, Value.scalars, scalarsOfEntries_eq]
  constructor
  · exact fun h f hf s hs =>
      h s (List.mem_flatMap.mpr ⟨(f.1.toValue, f.2), List.mem_map.mpr ⟨f, hf, rfl⟩, hs⟩)
  · intro h s hs
    rcases List.mem_flatMap.mp hs with ⟨e, he, hs⟩
    rcases List.mem_map.mp he with ⟨f, hf, rfl⟩
    exact h f hf s hs

theorem short_iff {v : Value} : v.Short ↔ ∀ s ∈ v.scalars, ∀ n form, s = .int n form →
    n.natAbs < 10 ^ maxDigits := by
  constructor
  · rintro h s hs n form rfl
    exact h n form hs
  · exact fun h n form hs => h _ hs n form rfl

theorem normalizable_iff {v : Value} : v.Normalizable ↔ ∀ s ∈ v.scalars, ∀ t, s = .datetime t →
    t.offset ≠ none → t.toUtc? ≠ none := by
  constructor
  · rintro h s hs t rfl
    exact h t hs
  · exact fun h t hs => h _ hs t rfl

/-- Whether a leaf can be written: a point in time that is aware must have a universal
    time. -/
def Scalar.isNormalizable : Scalar → Bool
  | .datetime t => t.offset.isNone || t.toUtc?.isSome
  | _ => true

theorem normalizable_iff_all {v : Value} :
    v.Normalizable ↔ v.scalars.all Scalar.isNormalizable = true := by
  rw [normalizable_iff, List.all_eq_true]
  refine forall₂_congr fun s _ => ?_
  cases s with
  | datetime t =>
      rw [Scalar.isNormalizable, Bool.or_eq_true, Option.isNone_iff_eq_none,
        Option.isSome_iff_ne_none]
      constructor
      · intro h
        by_cases ho : t.offset = none
        · exact Or.inl ho
        · exact Or.inr (h t rfl ho)
      · intro h t' ht ho
        rw [← Scalar.datetime.inj ht] at ho ⊢
        exact h.resolve_left ho
  | _ => exact iff_of_true (fun t ht => absurd ht nofun) rfl

instance (v : Value) : Decidable v.Normalizable := decidable_of_iff _ normalizable_iff_all.symm

/-- Whether a leaf is no integer with too many digits. -/
def Scalar.isShort : Scalar → Bool
  | .int n _ => decide (n.natAbs < 10 ^ maxDigits)
  | _ => true

theorem short_iff_all {v : Value} : v.Short ↔ v.scalars.all Scalar.isShort = true := by
  rw [short_iff, List.all_eq_true]
  refine forall₂_congr fun s _ => ?_
  cases s with
  | int n form =>
      rw [Scalar.isShort, decide_eq_true_iff]
      constructor
      · exact fun h => h n form rfl
      · intro h n' form' heq
        rw [← (Scalar.int.inj heq).1]
        exact h
  | _ => exact iff_of_true (fun n form heq => absurd heq nofun) rfl

instance (v : Value) : Decidable v.Short := decidable_of_iff _ short_iff_all.symm

theorem short_list {xs : List Value} : (Value.list xs).Short ↔ ∀ v ∈ xs, v.Short := by
  simp only [short_iff]
  exact forall_scalars_list

theorem short_fields {fs : Fields} : fs.toValue.Short ↔ ∀ f ∈ fs, f.2.Short := by
  simp only [short_iff]
  exact forall_scalars_fields

theorem normalizable_list {xs : List Value} :
    (Value.list xs).Normalizable ↔ ∀ v ∈ xs, v.Normalizable := by
  simp only [normalizable_iff]
  exact forall_scalars_list

theorem normalizable_fields {fs : Fields} :
    fs.toValue.Normalizable ↔ ∀ f ∈ fs, f.2.Normalizable := by
  simp only [normalizable_iff]
  exact forall_scalars_fields

theorem DateTime.text_of_normalizable {t : DateTime} (h : t.offset ≠ none → t.toUtc? ≠ none) :
    ∃ s, t.text? = some s := by
  unfold DateTime.text?
  cases ho : t.offset with
  | none => exact ⟨_, rfl⟩
  | some o =>
      cases hu : t.toUtc? with
      | none => exact absurd hu (h (by rw [ho]; exact Option.some_ne_none o))
      | some u => exact ⟨_, rfl⟩

theorem DateTime.normalizable_of_text {t : DateTime} {s : String} (h : t.text? = some s) :
    t.offset ≠ none → t.toUtc? ≠ none := by
  intro ho hu
  unfold DateTime.text? at h
  cases hoffset : t.offset with
  | none => exact ho hoffset
  | some o =>
      rw [hoffset, hu] at h
      exact absurd h nofun

end Docket
