import Docket.MessagePack.Reader
import Docket.Proofs.Extension

/-!
# MessagePack with more after it

The reader of MessagePack looks no further than the item that it reads: every size
comes before what it is the size of, so the end of the bytes is never asked for.
Leaves follow their lead byte, and collections are read part by part, with one step
less for each part.

## Theorems

* `extends_messagePackLeaf`, `extends_messagePackShape`: What a lead byte announces.
* `messagePackExtends`: An item, and the inside of a collection.
-/

namespace Docket

theorem extends_messagePackText (size : Nat) :
    Extends (readMessagePackText size) (readMessagePackText size) :=
  (extends_takeBytes size).bind fun data =>
    extends_given (decodeStrictUtf8? data) fun cs => extends_pure (Value.text (String.ofList cs))

theorem extends_messagePackBytes (size : Nat) :
    Extends (readMessagePackBytes size) (readMessagePackBytes size) :=
  (extends_takeBytes size).bind fun data => extends_pure (Value.bytes data)

theorem extends_messagePackExtension (size : Nat) :
    Extends (readMessagePackExtension size) (readMessagePackExtension size) :=
  Extends.byte fun code => (extends_takeBytes size).bind fun data =>
    extends_given (messagePackExtension? code data) extends_pure

theorem extends_messagePackNatural (width : Nat) :
    Extends (readMessagePackNatural width) (readMessagePackNatural width) :=
  (extends_takeNumber width).map fun n => Value.int n

theorem extends_messagePackSigned (width : Nat) :
    Extends (readMessagePackSigned width) (readMessagePackSigned width) :=
  (extends_takeNumber width).map fun n => Value.int (signedValue width n)

/-- A leaf, by its lead byte. -/
theorem extends_messagePackLeaf (lead : UInt8) :
    Extends (readMessagePackLeaf lead) (readMessagePackLeaf lead) := by
  have hsized : ∀ {k : Nat → Bytes → Option (Value × Bytes)} (width : Nat),
      (∀ n, Extends (k n) (k n)) →
        Extends (fun bytes => (takeNumber? width bytes).bind fun r => k r.1 r.2)
          fun bytes => (takeNumber? width bytes).bind fun r => k r.1 r.2 :=
    fun width h => (extends_takeNumber width).bind h
  intro bytes v rest more
  unfold readMessagePackLeaf
  simp only []
  -- Small numbers and short texts are in the lead byte; the rest of the cases go by the whole of
  -- it.
  split
  · exact extends_pure _ bytes v rest more
  split
  · exact extends_pure _ bytes v rest more
  split
  · exact extends_messagePackText _ bytes v rest more
  split
  · exact extends_pure _ bytes v rest more
  · exact extends_pure _ bytes v rest more
  · exact extends_pure _ bytes v rest more
  · exact hsized 1 extends_messagePackBytes bytes v rest more
  · exact hsized 2 extends_messagePackBytes bytes v rest more
  · exact hsized 4 extends_messagePackBytes bytes v rest more
  · exact hsized 1 extends_messagePackExtension bytes v rest more
  · exact hsized 2 extends_messagePackExtension bytes v rest more
  · exact hsized 4 extends_messagePackExtension bytes v rest more
  · exact (extends_takeNumber 4).map (fun n => Value.float (.ofSingle n)) bytes v rest more
  · exact (extends_takeNumber 8).map (fun n => Value.float ⟨UInt64.ofNat n⟩) bytes v rest more
  · exact extends_messagePackNatural 1 bytes v rest more
  · exact extends_messagePackNatural 2 bytes v rest more
  · exact extends_messagePackNatural 4 bytes v rest more
  · exact extends_messagePackNatural 8 bytes v rest more
  · exact extends_messagePackSigned 1 bytes v rest more
  · exact extends_messagePackSigned 2 bytes v rest more
  · exact extends_messagePackSigned 4 bytes v rest more
  · exact extends_messagePackSigned 8 bytes v rest more
  · exact extends_messagePackExtension 1 bytes v rest more
  · exact extends_messagePackExtension 2 bytes v rest more
  · exact extends_messagePackExtension 4 bytes v rest more
  · exact extends_messagePackExtension 8 bytes v rest more
  · exact extends_messagePackExtension 16 bytes v rest more
  · exact hsized 1 extends_messagePackText bytes v rest more
  · exact hsized 2 extends_messagePackText bytes v rest more
  · exact hsized 4 extends_messagePackText bytes v rest more
  · exact nofun

/-- The head of an item, by its lead byte. -/
theorem extends_messagePackShape (lead : UInt8) :
    Extends (messagePackShape? lead) (messagePackShape? lead) := by
  intro bytes shape rest more
  unfold messagePackShape?
  split
  · exact extends_pure _ bytes shape rest more
  split
  · exact extends_pure _ bytes shape rest more
  split
  · exact (extends_takeNumber 2).map MessagePackShape.list bytes shape rest more
  · exact (extends_takeNumber 4).map MessagePackShape.list bytes shape rest more
  · exact (extends_takeNumber 2).map MessagePackShape.map bytes shape rest more
  · exact (extends_takeNumber 4).map MessagePackShape.map bytes shape rest more
  · exact extends_pure _ bytes shape rest more

/-- The reader with `n` steps looks no further than it reads, and with `m` steps it
    reads the same. -/
structure MessagePackExtends (n m : Nat) : Prop where
  item : Extends (readMessagePackItem n) (readMessagePackItem m)
  items : ∀ size done, Extends (readMessagePackItems n size done) (readMessagePackItems m size done)
  entries : ∀ size done,
    Extends (readMessagePackEntries n size done) (readMessagePackEntries m size done)

/-- What follows the head of an item, by its shape. -/
def readMessagePackInside (fuel : Nat) (lead : UInt8) (shape : MessagePackShape) (bytes : Bytes) :
    Option (Value × Bytes) :=
  match shape with
  | .leaf => readMessagePackLeaf lead bytes
  | .list size => (readMessagePackItems fuel size [] bytes).bind fun r => some (.list r.1, r.2)
  | .map size => (readMessagePackEntries fuel size [] bytes).bind fun r => some (.dict r.1, r.2)

theorem readMessagePackItem_cons (fuel : Nat) (lead : UInt8) (bytes : Bytes) :
    readMessagePackItem (fuel + 1) (lead :: bytes) =
      (messagePackShape? lead bytes).bind fun r =>
        readMessagePackInside fuel lead r.1 r.2 := by
  rw [readMessagePackItem]
  cases messagePackShape? lead bytes with
  | none => rfl
  | some r =>
      rcases r with ⟨shape, rest⟩
      cases shape with
      | leaf => rfl
      | list size => rfl
      | map size => rfl

/-- What follows a key. -/
def readMessagePackAfterKey (fuel size : Nat) (done : List (Value × Value)) (k : Value)
    (bytes : Bytes) : Option (List (Value × Value) × Bytes) :=
  if !messagePackKey k then none
  else (readMessagePackItem fuel bytes).bind fun r =>
    readMessagePackEntries fuel size (setEntry done k r.1) r.2

namespace MessagePackExtends

variable {n m : Nat}

theorem inside (h : MessagePackExtends n m) {lead : UInt8} (shape : MessagePackShape) :
    Extends (readMessagePackInside n lead shape) (readMessagePackInside m lead shape) := by
  cases shape with
  | leaf => exact extends_messagePackLeaf lead
  | list size => exact (h.items size []).bind fun vs => extends_pure (Value.list vs)
  | map size => exact (h.entries size []).bind fun es => extends_pure (Value.dict es)

theorem afterKey (h : MessagePackExtends n m) (size : Nat) (done : List (Value × Value))
    (k : Value) :
    Extends (readMessagePackAfterKey n size done k) (readMessagePackAfterKey m size done k) := by
  unfold readMessagePackAfterKey
  cases messagePackKey k with
  | true => exact h.item.bind fun v => h.entries size (setEntry done k v)
  | false => exact extends_none _

end MessagePackExtends

theorem messagePackExtends {n m : Nat} (h : n ≤ m) : MessagePackExtends n m := by
  induction n generalizing m with
  | zero =>
      -- Without a step left nothing is read but the end of a collection.
      refine ⟨?_, fun size done => ?_, fun size done => ?_⟩
      · intro bytes v rest more hread
        rw [readMessagePackItem] at hread
        exact absurd hread nofun
      · intro bytes vs rest more hread
        cases size with
        | zero =>
            rw [readMessagePackItems] at hread ⊢
            cases hread
            rfl
        | succ size =>
            rw [readMessagePackItems] at hread
            · exact absurd hread nofun
            · exact Nat.succ_ne_zero size
      · intro bytes es rest more hread
        cases size with
        | zero =>
            rw [readMessagePackEntries] at hread ⊢
            cases hread
            rfl
        | succ size =>
            rw [readMessagePackEntries] at hread
            · exact absurd hread nofun
            · exact Nat.succ_ne_zero size
  | succ n ih =>
      cases m with
      | zero => exact absurd h (Nat.not_succ_le_zero n)
      | succ m =>
          have hless := ih (Nat.le_of_succ_le_succ h)
          -- Each part is read in one step less, so the induction covers all three readers at once.
          refine ⟨?_, fun size done => ?_, fun size done => ?_⟩
          · intro bytes v rest more hread
            cases bytes with
            | nil => exact absurd hread nofun
            | cons lead tail =>
                rw [readMessagePackItem_cons] at hread
                rw [List.cons_append, readMessagePackItem_cons]
                exact (extends_messagePackShape lead).bind hless.inside tail v rest more hread
          · cases size with
            | zero =>
                intro bytes vs rest more hread
                rw [readMessagePackItems] at hread ⊢
                exact extends_pure done.reverse bytes vs rest more hread
            | succ size => exact hless.item.bind fun v => hless.items size (v :: done)
          · cases size with
            | zero =>
                intro bytes vs rest more hread
                rw [readMessagePackEntries] at hread ⊢
                exact extends_pure done bytes vs rest more hread
            | succ size =>
                exact hless.item.bind fun k => hless.afterKey size done k

end Docket
