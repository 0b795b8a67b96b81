import Docket.Proofs.Payload.Preparation
import Mathlib.Data.List.Basic

/-!
# Sizes

The binary encodings write the size of whatever has one: how many bytes a text
takes, and how many items or entries a collection has. How large a size may be is
all they ask of data, apart from how large its integers may be, and neither depends
on whether dates have been written out.

## Main definitions

* `Value.sizes`: All sizes in data.
* `Value.Below`: Data without a size that is too large.
* `Value.integers`, `Value.IntegersIn`: The integers in data, and a property of all.

## Theorems

* `below_text`, `below_list`, `below_dict`: Data is below a limit if its parts are.
* `integersIn_list`, `integersIn_dict`: The integers of data are those of its parts.
* `Value.IsData.integers_written`: Writing out dates leaves integers alone.
-/

namespace Docket

mutual

/-- The sizes in data: of texts in bytes, of collections in parts. -/
def Value.sizes : Value → List Nat
  | .scalar (.text s _) => [(encodeUtf8 s.toList).length]
  | .items _ xs => xs.length :: sizesOfItems xs
  | .mapping _ entries => entries.length :: sizesOfEntries entries
  | _ => []

def sizesOfItems : List Value → List Nat
  | [] => []
  | v :: rest => v.sizes ++ sizesOfItems rest

def sizesOfEntries : List (Value × Value) → List Nat
  | [] => []
  | (k, v) :: rest => k.sizes ++ v.sizes ++ sizesOfEntries rest

end

/-- All sizes are below a limit. -/
def Value.Below (limit : Nat) (v : Value) : Prop := ∀ n ∈ v.sizes, n < limit

/-- The integer that a leaf is. Truth values are no integers. -/
def Scalar.int? : Scalar → Option Int
  | .int n _ => some n
  | _ => none

/-- The integers in data, in order. -/
def Value.integers (v : Value) : List Int := v.scalars.filterMap Scalar.int?

/-- All integers have a property. -/
def Value.IntegersIn (P : Int → Prop) (v : Value) : Prop := ∀ n ∈ v.integers, P n

instance (limit : Nat) (v : Value) : Decidable (v.Below limit) :=
  inferInstanceAs (Decidable (∀ n ∈ v.sizes, n < limit))

instance (P : Int → Prop) [DecidablePred P] (v : Value) : Decidable (v.IntegersIn P) :=
  inferInstanceAs (Decidable (∀ n ∈ v.integers, P n))

theorem sizesOfItems_eq (xs : List Value) : sizesOfItems xs = xs.flatMap Value.sizes := by
  induction xs with
  | nil => rfl
  | cons v rest ih => rw [sizesOfItems, ih, List.flatMap_cons]

theorem sizesOfEntries_eq (entries : List (Value × Value)) :
    sizesOfEntries entries = entries.flatMap fun e => e.1.sizes ++ e.2.sizes := by
  induction entries with
  | nil => rfl
  | cons e rest ih => rw [sizesOfEntries, ih, List.flatMap_cons]

section

variable {limit : Nat} {P : Int → Prop}

theorem below_text {s : String} :
    (Value.text s).Below limit ↔ (encodeUtf8 s.toList).length < limit :=
  List.forall_mem_singleton

theorem below_list {xs : List Value} :
    (Value.list xs).Below limit ↔ xs.length < limit ∧ ∀ v ∈ xs, v.Below limit := by
  unfold Value.Below
  rw [Value.list, Value.sizes, sizesOfItems_eq, List.forall_mem_cons, List.forall_mem_flatMap]

theorem below_dict {α : Type} {key : α → String} {value : α → Value} {ps : List α} :
    (Value.dict (ps.map fun p => (.text (key p), value p))).Below limit ↔
      ps.length < limit ∧
        ∀ p ∈ ps, (encodeUtf8 (key p).toList).length < limit ∧ (value p).Below limit := by
  unfold Value.Below
  rw [Value.dict, Value.sizes, sizesOfEntries_eq, List.forall_mem_cons, List.length_map,
    List.forall_mem_flatMap, List.forall_mem_map]
  refine and_congr_right fun _ => forall₂_congr fun p _ => ?_
  rw [List.forall_mem_append]
  exact and_congr_left fun _ => List.forall_mem_singleton

theorem integersIn_int {n : Int} : (Value.int n).IntegersIn P ↔ P n := List.forall_mem_singleton

theorem integersIn_list {xs : List Value} :
    (Value.list xs).IntegersIn P ↔ ∀ v ∈ xs, v.IntegersIn P := by
  unfold Value.IntegersIn Value.integers
  rw [Value.list, Value.scalars, scalarsOfItems_eq, List.filterMap_flatMap, List.forall_mem_flatMap]

theorem integersIn_dict {α : Type} {key : α → String} {value : α → Value} {ps : List α} :
    (Value.dict (ps.map fun p => (.text (key p), value p))).IntegersIn P ↔
      ∀ p ∈ ps, (value p).IntegersIn P := by
  unfold Value.IntegersIn Value.integers
  rw [Value.dict, Value.scalars, scalarsOfEntries_eq, List.filterMap_flatMap,
    List.forall_mem_flatMap, List.forall_mem_map]

end

/-- The leaves of data with its dates written out. -/
theorem Value.IsData.scalars_written {v : Value} (h : v.IsData) :
    v.written.scalars = v.scalars.map Scalar.written := by
  induction h with
  | scalar h => rfl
  | list h ih =>
      rw [Value.list, Value.written, Value.scalars, Value.scalars, writtenItems_eq,
        scalarsOfItems_eq, scalarsOfItems_eq, List.map_flatMap, List.flatMap_map]
      exact List.flatMap_congr ih
  | fields hnames h ih =>
      rw [Fields.toValue, Value.dict, Value.written, Value.scalars, Value.scalars,
        writtenEntries_eq, scalarsOfEntries_eq, scalarsOfEntries_eq, List.map_map,
        List.map_flatMap, List.flatMap_map, List.flatMap_map]
      exact List.flatMap_congr ih

/-- No date is written out as an integer. -/
theorem Scalar.int?_written (s : Scalar) : s.written.int? = s.int? := by
  cases s with
  | datetime t =>
      rw [Scalar.written]
      cases t.written? <;> rfl
  | _ => rfl

/-- Writing out dates leaves integers alone. -/
theorem Value.IsData.integers_written {v : Value} (h : v.IsData) :
    v.written.integers = v.integers := by
  unfold Value.integers
  rw [h.scalars_written, List.filterMap_map]
  exact congrArg (fun f => v.scalars.filterMap f) (funext Scalar.int?_written)

end Docket
