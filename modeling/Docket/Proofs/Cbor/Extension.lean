import Docket.Cbor.Item
import Docket.Proofs.Extension

/-!
# CBOR with more after it

The reader of CBOR looks no further than the item that it reads. Lengths come before
what they are the lengths of, and what has no length goes on up to a mark, which is
read along with it. That there is nothing left is never found out: it is a failure
wherever it could be.

## Theorems

* `extends_cborArgument`: The number in a head.
* `extends_cborChunks`: Strings without a length.
* `cborExtends`: An item, and the inside of a collection.
-/

namespace Docket

/-- The number in a head. -/
theorem extends_cborArgument (info : Nat) : Extends (cborArgument? info) (cborArgument? info) := by
  have hsized : ∀ width,
      Extends (fun bytes => (takeNumber? width bytes).map fun r => (some r.1, r.2))
        fun bytes => (takeNumber? width bytes).map fun r => (some r.1, r.2) :=
    fun width => (extends_takeNumber width).map some
  intro bytes n rest more
  unfold cborArgument?
  simp only []
  split
  · exact extends_pure _ bytes n rest more
  split
  · exact hsized 1 bytes n rest more
  split
  · exact hsized 2 bytes n rest more
  split
  · exact hsized 4 bytes n rest more
  split
  · exact hsized 8 bytes n rest more
  split
  · exact extends_pure _ bytes n rest more
  · exact nofun

/-- A chunk of a string, after its head, and those that follow it. -/
def readCborChunksAfter (major fuel : Nat) (done : List Bytes) (length : Option Nat)
    (bytes : Bytes) : Option (List Bytes × Bytes) :=
  length.bind fun n => (takeBytes? n bytes).bind fun r =>
    readCborChunks major fuel (r.1 :: done) r.2

theorem readCborChunks_cons (major fuel : Nat) (done : List Bytes) (b : UInt8) (bytes : Bytes) :
    readCborChunks major (fuel + 1) done (b :: bytes) =
      if b = 0xFF then some (done.reverse, bytes)
      else if b.toNat / 32 ≠ major then none
      else (cborArgument? (b.toNat % 32) bytes).bind fun r =>
        readCborChunksAfter major fuel done r.1 r.2 :=
  rfl

theorem extends_cborChunks (major : Nat) {n m : Nat} (h : n ≤ m) (done : List Bytes) :
    Extends (readCborChunks major n done) (readCborChunks major m done) := by
  induction n generalizing m done with
  | zero => exact fun bytes x rest more hread => absurd hread nofun
  | succ n ih =>
      cases m with
      | zero => exact absurd h (Nat.not_succ_le_zero n)
      | succ m =>
          -- A chunk of any length, and the chunks after it in one step less.
          have hafter : ∀ length, Extends (readCborChunksAfter major n done length)
              (readCborChunksAfter major m done length) := fun length =>
            extends_given length fun k => (extends_takeBytes k).bind fun chunk =>
              ih (Nat.le_of_succ_le_succ h) (chunk :: done)
          intro bytes chunks rest more
          cases bytes with
          | nil => exact nofun
          | cons b tail =>
              rw [List.cons_append, readCborChunks_cons, readCborChunks_cons]
              split
              · exact extends_pure _ tail chunks rest more
              split
              · exact nofun
              · exact (extends_cborArgument _).bind hafter tail chunks rest more

theorem extends_cborString (major : Nat) (length : Option Nat) :
    Extends (readCborString major length) (readCborString major length) := by
  intro bytes chunks rest more
  unfold readCborString
  cases length with
  | some n => exact (extends_takeBytes n).map (fun b => [b]) bytes chunks rest more
  | none =>
      -- Without a length the steps are as many as the bytes, of which there are more.
      refine extends_cborChunks major ?_ [] bytes chunks rest more
      rw [List.length_append]
      omega

/-- A number or a constant, by the information in its head. -/
theorem extends_cborSimple (info : Nat) : Extends (readCborSimple info) (readCborSimple info) := by
  have hnumbered : ∀ n,
      Extends (fun bytes => if n < 32 then none else some (CborItem.simple n, bytes))
        fun bytes => if n < 32 then none else some (CborItem.simple n, bytes) := by
    intro n
    by_cases hn : n < 32
    · simp only [if_pos hn]
      exact extends_none _
    · simp only [if_neg hn]
      exact extends_pure _
  intro bytes item rest more
  unfold readCborSimple
  -- The information chooses the reader, which does not depend on what follows.
  split
  · exact (extends_takeNumber 1).bind hnumbered bytes item rest more
  · exact (extends_takeNumber 2).map (fun n => CborItem.float (.ofHalf n)) bytes item rest more
  · exact (extends_takeNumber 4).map (fun n => CborItem.float (.ofSingle n)) bytes item rest more
  · exact (extends_takeNumber 8).map (fun n => CborItem.float ⟨UInt64.ofNat n⟩) bytes item rest more
  · split
    · exact extends_pure _ bytes item rest more
    · exact nofun

/-- The reader with `n` steps looks no further than it reads, and with `m` steps it
    reads the same. -/
structure CborExtends (n m : Nat) : Prop where
  item : Extends (readCborItem n) (readCborItem m)
  items : ∀ count done, Extends (readCborItems n count done) (readCborItems m count done)
  entries : ∀ count done, Extends (readCborEntries n count done) (readCborEntries m count done)

/-- What follows the head of an item that is no number or constant, by its major
    type. -/
def readCborInside (fuel major : Nat) (argument : Option Nat) (bytes : Bytes) :
    Option (CborItem × Bytes) :=
  match major with
  | 0 => argument.bind fun n => some (.int n, bytes)
  | 1 => argument.bind fun n => some (.int (-1 - (n : Int)), bytes)
  | 2 => (readCborString 2 argument bytes).bind fun r =>
      some (.bytes r.1.flatten argument.isSome, r.2)
  | 3 => (readCborString 3 argument bytes).bind fun r =>
      (cborTextOf r.1).bind fun s => some (.text s argument.isSome, r.2)
  | 4 => (readCborItems fuel argument [] bytes).bind fun r => some (.array r.1, r.2)
  | 5 => (readCborEntries fuel argument [] bytes).bind fun r => some (.map r.1, r.2)
  | _ => (readCborItem fuel bytes).bind fun r => argument.bind fun n => some (.tag n r.1, r.2)

theorem readCborItem_cons (fuel : Nat) (b : UInt8) (bytes : Bytes) :
    readCborItem (fuel + 1) (b :: bytes) =
      if b.toNat / 32 = 7 then readCborSimple (b.toNat % 32) bytes
      else (cborArgument? (b.toNat % 32) bytes).bind fun r =>
        readCborInside fuel (b.toNat / 32) r.1 r.2 := by
  rw [readCborItem]
  by_cases hseven : b.toNat / 32 = 7
  · simp only [if_pos hseven]
  · simp only [if_neg hseven]
    unfold readCborInside
    rfl

/-- The key and the item of an entry. -/
def readCborEntry (fuel : Nat) (bytes : Bytes) : Option ((CborItem × CborItem) × Bytes) :=
  (readCborItem fuel bytes).bind fun k => (readCborItem fuel k.2).bind fun r =>
    some ((k.1, r.1), r.2)

section

variable {α : Type}

/-- The inside of a collection, given how its next part is read and how those after
    it are. -/
def collectCbor (next : Bytes → Option (α × Bytes))
    (loop : Option Nat → List α → Bytes → Option (List α × Bytes)) (count : Option Nat)
    (done : List α) (bytes : Bytes) : Option (List α × Bytes) :=
  match count, bytes with
  | some 0, bytes => some (done.reverse, bytes)
  | none, 0xFF :: rest => some (done.reverse, rest)
  | count, bytes => (next bytes).bind fun r => loop (count.map (· - 1)) (r.1 :: done) r.2

theorem collectCbor_mark (next : Bytes → Option (α × Bytes))
    (loop : Option Nat → List α → Bytes → Option (List α × Bytes)) (done : List α) (b : UInt8)
    (bytes : Bytes) :
    collectCbor next loop none done (b :: bytes) =
      if b = 0xFF then some (done.reverse, bytes)
      else (next (b :: bytes)).bind fun r => loop none (r.1 :: done) r.2 := by
  by_cases hb : b = 0xFF
  · rw [if_pos hb, hb]
    rfl
  · rw [if_neg hb, collectCbor]
    · rfl
    · exact nofun
    · exact fun _ _ heq => hb (List.cons.inj heq).1

/-- The end of a collection is not the end of the bytes. -/
theorem extends_collectCbor {next next' : Bytes → Option (α × Bytes)}
    {loop loop' : Option Nat → List α → Bytes → Option (List α × Bytes)} (hnil : next [] = none)
    (hnext : Extends next next')
    (hloop : ∀ count done, Extends (loop count done) (loop' count done)) (count : Option Nat)
    (done : List α) :
    Extends (collectCbor next loop count done) (collectCbor next' loop' count done) := by
  cases count with
  | some n =>
      cases n with
      | zero => exact extends_pure done.reverse
      | succ n => exact hnext.bind fun x => hloop (some n) (x :: done)
  | none =>
      intro bytes xs rest more
      cases bytes with
      | nil =>
          -- Only the mark would end a collection without a count.
          intro hread
          change (next []).bind _ = _ at hread
          rw [hnil] at hread
          exact absurd hread nofun
      | cons b tail =>
          rw [List.cons_append, collectCbor_mark, collectCbor_mark]
          split
          · exact extends_pure done.reverse tail xs rest more
          · exact hnext.bind (fun x => hloop none (x :: done)) (b :: tail) xs rest more

end

theorem readCborItems_succ (fuel : Nat) (count : Option Nat) (done : List CborItem) :
    readCborItems (fuel + 1) count done =
      collectCbor (readCborItem fuel) (readCborItems fuel) count done := by
  funext bytes
  rfl

theorem readCborEntries_succ (fuel : Nat) (count : Option Nat)
    (done : List (CborItem × CborItem)) :
    readCborEntries (fuel + 1) count done =
      collectCbor (readCborEntry fuel) (readCborEntries fuel) count done := by
  funext bytes
  unfold collectCbor
  split
  · rfl
  · rfl
  -- Neither the count nor a mark ends the map, so there is an entry.
  next hcount hmark =>
    rw [readCborEntries]
    · unfold readCborEntry
      cases readCborItem fuel bytes with
      | none => rfl
      | some k =>
          cases hitem : readCborItem fuel k.2 with
          | none =>
              simp only [Option.bind_eq_bind, Option.bind_some, hitem]
              rfl
          | some r =>
              simp only [Option.bind_eq_bind, Option.bind_some, hitem]
    · exact hcount
    · exact hmark

theorem readCborItem_nil (fuel : Nat) : readCborItem fuel [] = none := by
  cases fuel with
  | zero => rfl
  | succ fuel => rfl

namespace CborExtends

variable {n m : Nat}

theorem inside (h : CborExtends n m) (major : Nat) (argument : Option Nat) :
    Extends (readCborInside n major argument) (readCborInside m major argument) := by
  intro bytes item rest more
  unfold readCborInside
  split
  · exact extends_given argument (fun k => extends_pure (CborItem.int k)) bytes item rest more
  · exact extends_given argument (fun k => extends_pure (CborItem.int (-1 - (k : Int)))) bytes item
      rest more
  · exact (extends_cborString 2 argument).bind
      (fun chunks => extends_pure (CborItem.bytes chunks.flatten argument.isSome)) bytes item rest
      more
  · exact (extends_cborString 3 argument).bind
      (fun chunks => extends_given (cborTextOf chunks) fun s =>
        extends_pure (CborItem.text s argument.isSome)) bytes item rest more
  · exact (h.items argument []).bind (fun items => extends_pure (CborItem.array items)) bytes item
      rest more
  · exact (h.entries argument []).bind (fun entries => extends_pure (CborItem.map entries)) bytes
      item rest more
  · exact h.item.bind (fun content => extends_given argument fun k =>
      extends_pure (CborItem.tag k content)) bytes item rest more

theorem entry (h : CborExtends n m) : Extends (readCborEntry n) (readCborEntry m) :=
  h.item.bind fun key => h.item.bind fun item => extends_pure (key, item)

end CborExtends

theorem cborExtends {n m : Nat} (h : n ≤ m) : CborExtends n m := by
  induction n generalizing m with
  | zero =>
      refine ⟨?_, fun count done => ?_, fun count done => ?_⟩
      · exact fun bytes item rest more hread => absurd hread nofun
      · exact fun bytes items rest more hread => absurd hread nofun
      · exact fun bytes entries rest more hread => absurd hread nofun
  | succ n ih =>
      cases m with
      | zero => exact absurd h (Nat.not_succ_le_zero n)
      | succ m =>
          have hless := ih (Nat.le_of_succ_le_succ h)
          -- Each part is read in one step less, so the induction covers all three readers at once.
          refine ⟨?_, fun count done => ?_, fun count done => ?_⟩
          · intro bytes item rest more
            cases bytes with
            | nil => exact nofun
            | cons b tail =>
                rw [List.cons_append, readCborItem_cons, readCborItem_cons]
                split
                · exact extends_cborSimple _ tail item rest more
                · exact (extends_cborArgument _).bind (hless.inside _) tail item rest more
          · rw [readCborItems_succ, readCborItems_succ]
            exact extends_collectCbor (readCborItem_nil n) hless.item hless.items count done
          · rw [readCborEntries_succ, readCborEntries_succ]
            have hnil : readCborEntry n [] = none := by
              rw [readCborEntry, readCborItem_nil]
              rfl
            exact extends_collectCbor hnil hless.entry hless.entries count done

end Docket
