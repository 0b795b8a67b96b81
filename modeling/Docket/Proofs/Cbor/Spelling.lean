import Docket.Cbor.Item
import Docket.Cbor.Writer
import Docket.Proofs.Bytes
import Docket.Proofs.Text.Utf8

/-!
# Spelling CBOR

The items that written bytes spell. Every item begins with a head, and what a head
says is read back whatever its width: a head tells its major type in its first byte
and its number in the bytes after that (`cborHead_eq`). What follows the head is
read by the major type, one rule for each, and the rules for collections go along
with their parts.

The reader counts its steps. Bytes take at most twice as many as there are of them,
one for the item that a byte begins and one for the item's place in a collection.

## Main definitions

* `CborSpells`: Bytes that are read as an item, whatever follows.
* `CborSpellsItems`, `CborSpellsEntries`: The same for the inside of a collection.

## Theorems

* `cborHead_eq`: What a head says.
* `spells_natural`, `spells_float`, `spells_text`: Items without parts.
* `CborSpellsItems.array`, `CborSpellsEntries.map`: Items with parts.
-/

namespace Docket

/-- A head tells its major type and its number. -/
theorem cborHead_eq {major n : Nat} (hmajor : major < 8) (hn : n < 2 ^ 64) :
    ∃ b tail, cborHead major n = b :: tail ∧ b.toNat / 32 = major ∧
      ∀ rest, cborArgument? (b.toNat % 32) (tail ++ rest) = some (some n, rest) := by
  have hlead : ∀ {info : Nat}, info < 32 →
      (UInt8.ofNat (major * 32 + info)).toNat = major * 32 + info := by
    intro info hinfo
    exact UInt8.toNat_ofNat_of_lt' (show major * 32 + info < 256 by omega)
  -- The first byte, given the five bits of information in it.
  have hmade : ∀ {info : Nat} (tail : Bytes), info < 32 →
      (∀ rest, cborArgument? info (tail ++ rest) = some (some n, rest)) →
        ∃ b tail', UInt8.ofNat (major * 32 + info) :: tail = b :: tail' ∧ b.toNat / 32 = major ∧
          ∀ rest, cborArgument? (b.toNat % 32) (tail' ++ rest) = some (some n, rest) := by
    intro info tail hinfo h
    refine ⟨_, _, rfl, ?_, ?_⟩
    · rw [hlead hinfo]
      omega
    · rw [hlead hinfo, show (major * 32 + info) % 32 = info by omega]
      exact h
  -- A number after the first byte.
  have hsized : ∀ (width : Nat) (rest : Bytes), n < 2 ^ (8 * width) →
      (takeNumber? width (bigEndian width n ++ rest)).map (fun r => (some r.1, r.2)) =
        some (some n, rest) := by
    intro width rest h
    rw [takeNumber?_bigEndian h, Option.map_some]
  -- The widths are tried in order, so each case has those before it excluded.
  unfold cborHead
  simp only []
  by_cases h₀ : n < 24
  · rw [if_pos h₀]
    refine hmade [] (by omega) fun rest => ?_
    rw [cborArgument?, if_pos h₀, List.nil_append]
  rw [if_neg h₀]
  by_cases h₁ : n < 2 ^ 8
  · rw [if_pos h₁]
    exact hmade _ (by decide) fun rest => hsized 1 rest h₁
  rw [if_neg h₁]
  by_cases h₂ : n < 2 ^ 16
  · rw [if_pos h₂]
    exact hmade _ (by decide) fun rest => hsized 2 rest h₂
  rw [if_neg h₂]
  by_cases h₄ : n < 2 ^ 32
  · rw [if_pos h₄]
    exact hmade _ (by decide) fun rest => hsized 4 rest h₄
  rw [if_neg h₄]
  exact hmade _ (by decide) fun rest => hsized 8 rest hn

theorem length_cborHead_pos {major n : Nat} : 0 < (cborHead major n).length := by
  unfold cborHead
  simp only []
  split
  · exact Nat.succ_pos _
  split
  · exact Nat.succ_pos _
  split
  · exact Nat.succ_pos _
  split
  · exact Nat.succ_pos _
  · exact Nat.succ_pos _

/-- The reader after a head: it goes on by the major type. -/
theorem readCborItem_head {major n : Nat} (hmajor : major < 7) (hn : n < 2 ^ 64) (fuel : Nat)
    (rest : Bytes) : readCborItem (fuel + 1) (cborHead major n ++ rest) =
      match major with
      | 0 => some (.int n, rest)
      | 1 => some (.int (-1 - (n : Int)), rest)
      | 2 => do
        let (chunks, rest) ← readCborString 2 (some n) rest
        return (.bytes chunks.flatten true, rest)
      | 3 => do
        let (chunks, rest) ← readCborString 3 (some n) rest
        return (.text (← cborTextOf chunks) true, rest)
      | 4 => do
        let (items, rest) ← readCborItems fuel (some n) [] rest
        return (.array items, rest)
      | 5 => do
        let (entries, rest) ← readCborEntries fuel (some n) [] rest
        return (.map entries, rest)
      | _ => do
        let (content, rest) ← readCborItem fuel rest
        return (.tag n content, rest) := by
  -- The first byte gives back the major type, and the argument is read behind it.
  rcases cborHead_eq (Nat.lt_succ_of_lt hmajor) hn with ⟨b, tail, hhead, hb, hargument⟩
  rw [hhead, List.cons_append, readCborItem, hb, if_neg (Nat.ne_of_lt hmajor), hargument]
  rfl

/-- Bytes that are read as an item, whatever follows. -/
structure CborSpells (bytes : Bytes) (item : CborItem) : Prop where
  length_pos : 0 < bytes.length
  reads : ∀ fuel rest, 2 * bytes.length ≤ fuel →
    readCborItem fuel (bytes ++ rest) = some (item, rest)

/-- An item that begins with a byte, if what follows the byte is read. -/
theorem spells_of_succ {bytes : Bytes} {item : CborItem} (hpos : 0 < bytes.length)
    (h : ∀ fuel rest, 2 * bytes.length ≤ fuel + 1 →
      readCborItem (fuel + 1) (bytes ++ rest) = some (item, rest)) : CborSpells bytes item where
  length_pos := hpos
  reads := by
    intro fuel rest hfuel
    cases fuel with
    | zero => omega
    | succ fuel => exact h fuel rest hfuel

theorem spells_natural {n : Nat} (hn : n < 2 ^ 64) : CborSpells (cborHead 0 n) (.int n) :=
  spells_of_succ length_cborHead_pos fun fuel rest _ =>
    readCborItem_head (by decide) hn fuel rest

theorem spells_negative {n : Nat} (hn : n < 2 ^ 64) :
    CborSpells (cborHead 1 n) (.int (-1 - (n : Int))) :=
  spells_of_succ length_cborHead_pos fun fuel rest _ =>
    readCborItem_head (by decide) hn fuel rest

/-- A string has its length before it. -/
theorem readCborString_append (major : Nat) (b rest : Bytes) :
    readCborString major (some b.length) (b ++ rest) = some ([b], rest) := by
  unfold readCborString
  simp only []
  rw [takeBytes?_append]
  rfl

theorem cborSized?_eq_some {major n : Nat} {head : Bytes} (h : cborSized? major n = some head) :
    n < 2 ^ 64 ∧ head = cborHead major n := by
  unfold cborSized? at h
  by_cases hn : n < 2 ^ 64
  · rw [if_pos hn] at h
    exact ⟨hn, (Option.some.inj h).symm⟩
  · rw [if_neg hn] at h
    exact absurd h nofun

theorem cborString?_eq_some {major : Nat} {b bytes : Bytes} (h : cborString? major b = some bytes) :
    b.length < 2 ^ 64 ∧ bytes = cborHead major b.length ++ b := by
  rcases Option.map_eq_some_iff.mp h with ⟨head, hhead, rfl⟩
  rcases cborSized?_eq_some hhead with ⟨hb, rfl⟩
  exact ⟨hb, rfl⟩

theorem length_cborString_pos {major : Nat} (b : Bytes) :
    0 < (cborHead major b.length ++ b).length := by
  rw [List.length_append]
  exact Nat.add_pos_left length_cborHead_pos _

theorem spells_bytes {b bytes : Bytes} (h : cborBytes? b = some bytes) :
    CborSpells bytes (.bytes b true) := by
  rcases cborString?_eq_some h with ⟨hb, rfl⟩
  refine spells_of_succ (length_cborString_pos b) fun fuel rest _ => ?_
  rw [List.append_assoc, readCborItem_head (by decide) hb, readCborString_append 2]
  exact congrArg (fun c => some (CborItem.bytes c true, rest)) (List.append_nil b)

theorem spells_text {s : String} {bytes : Bytes} (h : cborText? s = some bytes) :
    CborSpells bytes (.text s true) := by
  rcases cborString?_eq_some h with ⟨hb, rfl⟩
  refine spells_of_succ (length_cborString_pos _) fun fuel rest _ => ?_
  have htext : cborTextOf [encodeUtf8 s.toList] = some s := by
    unfold cborTextOf
    rw [List.mapM_cons, List.mapM_nil, decodeStrictUtf8?_encodeUtf8]
    refine congrArg some ?_
    rw [List.flatten_singleton, String.ofList_toList]
  rw [List.append_assoc, readCborItem_head (by decide) hb, readCborString_append 3]
  simp only [Option.bind_eq_bind, Option.bind_some, htext]
  rfl

/-- An item under a tag. -/
theorem CborSpells.tag {bytes : Bytes} {item : CborItem} (h : CborSpells bytes item) {n : Nat}
    (hn : n < 2 ^ 64) : CborSpells (cborTag n bytes) (.tag n item) := by
  have hhead : 0 < (cborHead 6 n).length := length_cborHead_pos
  refine spells_of_succ ?_ fun fuel rest hfuel => ?_
  · rw [cborTag, List.length_append]
    omega
  · rw [cborTag, List.length_append] at hfuel
    rw [cborTag, List.append_assoc, readCborItem_head (by decide) hn, h.reads fuel rest (by omega)]
    rfl

/-- A floating-point number takes eight bytes after its lead. -/
theorem spells_float {x : Binary64} (h : x.isFinite = true) :
    CborSpells (cborFloat x) (.float x) := by
  -- What is finite is written in full; only NaN and the infinities are shorter.
  have hform : cborFloat x = 0xFB :: bigEndian 8 x.bits.toNat := by
    have hcode : x.code < Binary64.infinityCode := of_decide_eq_true h
    have hnan : x.isNaN = false := decide_eq_false (Nat.not_lt_of_gt hcode)
    have hinfinite : x.isInfinite = false := beq_eq_false_iff_ne.mpr (Nat.ne_of_lt hcode)
    rw [cborFloat, hnan, hinfinite, if_neg Bool.false_ne_true, if_neg Bool.false_ne_true]
  rw [hform]
  refine spells_of_succ (Nat.succ_pos _) fun fuel rest _ => ?_
  have hread : takeNumber? 8 (bigEndian 8 x.bits.toNat ++ rest) = some (x.bits.toNat, rest) :=
    takeNumber?_bigEndian x.bits.toNat_lt rest
  rw [List.cons_append, readCborItem]
  have hlead : (0xFB : UInt8).toNat / 32 = 7 ∧ (0xFB : UInt8).toNat % 32 = 27 := by decide
  simp only [hlead.1, hlead.2, if_true]
  rw [readCborSimple, hread, Option.map_some, UInt64.ofNat_toNat]

/-- Constants take one byte. -/
theorem spells_simple {b : UInt8} {n : Nat} (hb : b.toNat = 7 * 32 + n) (hn : n < 24) :
    CborSpells [b] (.simple n) := by
  refine spells_of_succ (Nat.succ_pos _) fun fuel rest _ => ?_
  have hlead : b.toNat / 32 = 7 ∧ b.toNat % 32 = n := by omega
  rw [List.singleton_append, readCborItem]
  simp only [hlead.1, hlead.2, if_true]
  unfold readCborSimple
  split
  · omega
  · omega
  · omega
  · omega
  · rw [if_pos hn]

/-- Bytes that are read as the items of an array, whatever follows. -/
def CborSpellsItems (bytes : Bytes) (items : List CborItem) : Prop :=
  ∀ fuel done rest, 2 * bytes.length + 1 ≤ fuel →
    readCborItems fuel (some items.length) done (bytes ++ rest) = some (done.reverse ++ items, rest)

theorem CborSpellsItems.nil : CborSpellsItems [] [] := by
  intro fuel done rest hfuel
  cases fuel with
  | zero => omega
  | succ fuel => rw [List.append_nil]; rfl

theorem CborSpellsItems.cons {first bytes : Bytes} {item : CborItem} {items : List CborItem}
    (hfirst : CborSpells first item) (h : CborSpellsItems bytes items) :
    CborSpellsItems (first ++ bytes) (item :: items) := by
  intro fuel done rest hfuel
  have hpos := hfirst.length_pos
  rw [List.length_append] at hfuel
  cases fuel with
  | zero => omega
  | succ fuel =>
      rw [List.append_assoc, List.length_cons, readCborItems, hfirst.reads fuel _ (by omega)]
      -- The item takes one step and at least one byte, so enough steps are left.
      · have hrest := h fuel (item :: done) rest (by omega)
        rw [List.reverse_cons, List.append_assoc, List.singleton_append] at hrest
        exact hrest
      · exact nofun
      · exact nofun

/-- An array is read if its inside is. -/
theorem CborSpellsItems.array {bytes : Bytes} {items : List CborItem}
    (h : CborSpellsItems bytes items) (hlength : items.length < 2 ^ 64) :
    CborSpells (cborHead 4 items.length ++ bytes) (.array items) := by
  have hhead : 0 < (cborHead 4 items.length).length := length_cborHead_pos
  refine spells_of_succ ?_ fun fuel rest hfuel => ?_
  · rw [List.length_append]
    omega
  · rw [List.length_append] at hfuel
    rw [List.append_assoc, readCborItem_head (by decide) hlength, h fuel [] rest (by omega)]
    rfl

/-- Bytes that are read as the entries of a map, whatever follows. -/
def CborSpellsEntries (bytes : Bytes) (entries : List (CborItem × CborItem)) : Prop :=
  ∀ fuel done rest, 2 * bytes.length + 1 ≤ fuel →
    readCborEntries fuel (some entries.length) done (bytes ++ rest) =
      some (done.reverse ++ entries, rest)

theorem CborSpellsEntries.nil : CborSpellsEntries [] [] := by
  intro fuel done rest hfuel
  cases fuel with
  | zero => omega
  | succ fuel => rw [List.append_nil]; rfl

theorem CborSpellsEntries.cons {first second bytes : Bytes} {key item : CborItem}
    {entries : List (CborItem × CborItem)} (hkey : CborSpells first key)
    (hitem : CborSpells second item) (h : CborSpellsEntries bytes entries) :
    CborSpellsEntries (first ++ second ++ bytes) ((key, item) :: entries) := by
  intro fuel done rest hfuel
  have hpos := hkey.length_pos
  rw [List.length_append, List.length_append] at hfuel
  cases fuel with
  | zero => omega
  | succ fuel =>
      rw [List.append_assoc, List.append_assoc, List.length_cons, readCborEntries,
        hkey.reads fuel _ (by omega)]
      · simp only [Option.bind_eq_bind, Option.bind_some]
        rw [hitem.reads fuel _ (by omega)]
        have hrest := h fuel ((key, item) :: done) rest (by omega)
        rw [List.reverse_cons, List.append_assoc, List.singleton_append] at hrest
        exact hrest
      · exact nofun
      · exact nofun

/-- A map is read if its inside is. -/
theorem CborSpellsEntries.map {bytes : Bytes} {entries : List (CborItem × CborItem)}
    (h : CborSpellsEntries bytes entries) (hlength : entries.length < 2 ^ 64) :
    CborSpells (cborHead 5 entries.length ++ bytes) (.map entries) := by
  have hhead : 0 < (cborHead 5 entries.length).length := length_cborHead_pos
  refine spells_of_succ ?_ fun fuel rest hfuel => ?_
  · rw [List.length_append]
    omega
  · rw [List.length_append] at hfuel
    rw [List.append_assoc, readCborItem_head (by decide) hlength, h fuel [] rest (by omega)]
    rfl

end Docket
